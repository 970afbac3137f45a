import Nanoemu.ElfParse
import Nanoemu.ReturningProgram
import Nanoemu.RunLoop

/-!
# The command line

`main` reads its files, places them in memory and runs what it placed: in one
go, in bursts with a report between them, or step by step with a trace.  The
texts it prints are left out; watching a payload does not change what it does.
-/

namespace Nanoemu

open CheckedProgram

theorem Exit.ofTohost_ne_stepLimit (v : BitVec 64) :
    Exit.ofTohost v ≠ .stepLimit := by
  unfold Exit.ofTohost
  split <;> exact Exit.noConfusion

namespace Cpu

variable {profile : Profile} {c c' : Cpu} {n : ℕ}

/-- Only the loop itself can tell that its budget is spent. -/
theorem turn_ne_stepLimit {exit : Exit}
    (hturn : turn profile c = some (.ok (some exit), c')) :
    exit ≠ .stepLimit := by
  intro hlimit
  obtain ⟨outcome, c₁, -, hcases⟩ := turn_cases hturn
  rcases hcases with ⟨hstop, -⟩ | ⟨v, -, -, hstop, -⟩ | ⟨hstop, -⟩
  · rw [Option.some.inj hstop] at hlimit
    cases hlimit
  · exact Exit.ofTohost_ne_stepLimit v
      ((Option.some.inj hstop).symm.trans hlimit)
  · rw [hlimit] at hstop
    rcases stopping_cases hstop.symm with hexit | ⟨e, hexit⟩ <;> cases hexit

/-- What follows a piece of a run that may have ended it. -/
def thenRun (rest : Hart Exit) (exit : Exit) : Hart Exit :=
  if exit = .stepLimit then rest else pure exit

/-- A budget may be spent in two pieces. -/
theorem run_add (m n : ℕ) (profile : Profile) (c : Cpu) :
    run (m + n) profile c = (run m >>= thenRun (run n)) profile c := by
  induction m generalizing c with
  | zero => rw [Nat.zero_add, run, pure_bind, thenRun, if_pos rfl]
  | succ m ih =>
      rw [Nat.add_right_comm, run, run, bind_assoc]
      refine Program.bind_congr fun stop middle hturn => ?_
      cases stop with
      | none => exact ih middle
      | some exit =>
          change _ = thenRun (run n) exit profile middle
          rw [thenRun, if_neg (turn_ne_stepLimit hturn)]

end Cpu

/-- Where a kernel expects to be loaded, from the start of DRAM. -/
def KERNEL_OFFSET : BitVec 64 := 0x200000

structure Options where
  image : Option String
  kernel : Option String
  dtb : Option String
  memMib : ℕ
  xlen : Xlen
  trace : Bool
  /-- Report every this many steps, or 0 to stay quiet. -/
  sample : BitVec 64
  maxSteps : BitVec 64

/-- The files of the host; one that cannot be read is not there. -/
abbrev Files := String → Option (List (BitVec 8))

namespace Main

/-- The exit code of a payload that was not run. -/
def REFUSED : ℕ := 2

/-- A part of the program that may end it with an exit code. -/
abbrev Part (α : Type) := Program Cpu ℕ α

def refuse {ε α : Type} (part : Program Cpu ε α) : Part α :=
  Program.mapError (fun _ => REFUSED) part

def read (files : Files) (path : String) : Part (List (BitVec 8)) :=
  match files path with
  | none => Program.fail REFUSED
  | some bytes => pure bytes

/-- Places a kernel and its device tree, then enters supervisor mode the way
firmware would. -/
def bootKernel (files : Files) (kernel : String) (dtb : Option String)
    (mem : BitVec 64) : Part Unit := do
  match dtb with
  | none => Program.fail REFUSED
  | some dtbPath => do
      let image ← read files kernel
      let tree ← read files dtbPath
      let kernelAddr := DRAM_BASE + KERNEL_OFFSET
      let top ← Program.check (Checked.add DRAM_BASE mem)
      let dtbAddr ← Program.check (Checked.sub top 0x200000)
      refuse (Cpu.onMemory (Memory.loadAt kernelAddr image))
      refuse (Cpu.onMemory (Memory.loadAt dtbAddr tree))
      Program.update fun c => c.bootSupervisor kernelAddr 0 dtbAddr

/-- Anything without the ELF magic is a flat image. -/
def loadImage (image : List (BitVec 8)) : Part Unit := do
  if image.take 4 = [0x7f, 0x45, 0x4c, 0x46] then do
    let elf ← refuse
      (Program.zoom (fun _ => ()) (fun _ c => c) (Elf.parse image))
    refuse (Cpu.loadElf elf)
  else refuse (Cpu.onMemory (Memory.load image))

/-- What `main` does before it runs anything. -/
def start (files : Files) (o : Options) (mem : ℕ) : Part Unit :=
  match o.kernel with
  | some kernel => bootKernel files kernel o.dtb (BitVec.ofNat 64 mem)
  | none =>
      match o.image with
      | none => Program.fail REFUSED
      | some path => do
          let image ← read files path
          loadImage image

/-- Runs in bursts.  The turns of the loop are bounded by `fuel`; past it the
loop would panic, which it never does. -/
def sampled (o : Options) : (fuel : ℕ) → (done : BitVec 64) → Hart Exit
  | 0, _ => Program.check Checked.panic
  | fuel + 1, done => do
      if done < o.maxSteps then do
        let rest ← Program.check (Checked.sub o.maxSteps done)
        let burst := if o.sample ≤ rest then o.sample else rest
        let outcome ← Cpu.run burst.toNat
        let done ← Program.check (Checked.add done burst)
        if outcome ≠ .stepLimit then pure outcome
        else sampled o fuel done
      else pure .stepLimit

/-- Runs one step at a time. -/
def traced : (maxSteps : ℕ) → Hart Exit
  | 0 => pure .stepLimit
  | remaining + 1 => do
      let outcome ← Cpu.run 1
      if outcome ≠ .stepLimit then pure outcome
      else traced remaining

def run (o : Options) : Hart Exit :=
  if !o.trace ∧ o.sample = 0 then Cpu.run o.maxSteps.toNat
  else if !o.trace then sampled o (o.maxSteps.toNat + 1) 0
  else traced o.maxSteps.toNat

/-- The exit code of a payload that was run. -/
def report : Exit → ℕ
  | .pass | .ecall | .shutdown => 0
  | .fail _ | .unhandledTrap _ => 1
  | .stepLimit => 3

/-- The exit code, and the hart as `main` leaves it. -/
def main (files : Files) (o : Options) : Checked (ℕ × Cpu) := fun profile => do
  let kib ← Checked.umul 64 o.memMib 1024 profile
  let mem ← Checked.umul 64 kib 1024 profile
  let c ← Cpu.new mem o.xlen
  match ← start files o mem profile c with
  | (.error code, c') => some (code, c')
  | (.ok (), c') =>
      match ← run o profile c' with
      | (.ok exit, c'') => some (report exit, c'')
      -- The loop hands no error on.
      | (.error _, _) => none

variable {o : Options} {profile : Profile}

theorem traced_eq (n : ℕ) (profile : Profile) (c : Cpu) :
    traced n profile c = Cpu.run n profile c := by
  induction n generalizing c with
  | zero => rfl
  | succ n ih =>
      rw [Nat.add_comm, Cpu.run_add, Nat.add_comm, traced]
      refine Program.bind_congr fun outcome middle _ => ?_
      rw [ite_not, Program.ite_run, ih, Cpu.thenRun, Program.ite_run]

theorem burst_bounds (hsample : o.sample ≠ 0) {done burst : BitVec 64}
    (hmore : done < o.maxSteps)
    (hrest : (o.maxSteps - done).toNat = o.maxSteps.toNat - done.toNat)
    (hburst : (if o.sample ≤ o.maxSteps - done then o.sample
      else o.maxSteps - done) = burst) :
    0 < burst.toNat ∧ done.toNat + burst.toNat ≤ o.maxSteps.toNat := by
  have hlt : done.toNat < o.maxSteps.toNat := hmore
  have hpos : 0 < o.sample.toNat := Nat.pos_of_ne_zero fun hzero =>
    hsample (BitVec.eq_of_toNat_eq hzero)
  by_cases hle : o.sample ≤ o.maxSteps - done
  · have hfits : o.sample.toNat ≤ (o.maxSteps - done).toNat := hle
    rw [if_pos hle] at hburst
    subst hburst
    omega
  · rw [if_neg hle] at hburst
    subst hburst
    omega

/-- Each burst takes a piece of what is left of the budget. -/
theorem sampled_eq (hsample : o.sample ≠ 0) {fuel : ℕ} {done : BitVec 64}
    (hdone : done.toNat ≤ o.maxSteps.toNat)
    (hfuel : o.maxSteps.toNat - done.toNat < fuel) (profile : Profile)
    (c : Cpu) :
    sampled o fuel done profile c =
      Cpu.run (o.maxSteps.toNat - done.toNat) profile c := by
  induction fuel generalizing done c with
  | zero => exact absurd hfuel (Nat.not_lt_zero _)
  | succ fuel ih =>
      rw [sampled]
      by_cases hmore : done < o.maxSteps
      · rw [if_pos hmore, Checked.sub_eq_pure hdone, Program.check_pure,
          pure_bind]
        have hrest : (o.maxSteps - done).toNat =
            o.maxSteps.toNat - done.toNat := BitVec.toNat_sub_of_le hdone
        generalize hburst : (if o.sample ≤ o.maxSteps - done then o.sample
          else o.maxSteps - done) = burst
        obtain ⟨hpos, hle⟩ := burst_bounds hsample hmore hrest hburst
        have hsum : (done + burst).toNat = done.toNat + burst.toNat :=
          BitVec.toNat_add_of_lt (by omega)
        have hadd : Checked.add done burst = pure (done + burst) :=
          Checked.add_eq_pure (by omega)
        have hsplit : o.maxSteps.toNat - done.toNat =
            burst.toNat + (o.maxSteps.toNat - (done + burst).toNat) := by omega
        rw [hsplit, Cpu.run_add]
        refine Program.bind_congr fun outcome middle _ => ?_
        rw [hadd, Program.check_pure, pure_bind, ite_not, Program.ite_run,
          ih (by omega) (by omega), Cpu.thenRun, Program.ite_run]
      · have hspent : o.maxSteps.toNat - done.toNat = 0 :=
          Nat.sub_eq_zero_of_le (Nat.le_of_not_lt hmore)
        rw [if_neg hmore, hspent]
        rfl

/-- However a payload is watched, it runs as in one go. -/
theorem run_eq (o : Options) (profile : Profile) (c : Cpu) :
    run o profile c = Cpu.run o.maxSteps.toNat profile c := by
  unfold run
  by_cases htrace : o.trace = true
  · simp [htrace, traced_eq]
  by_cases hsample : o.sample = 0
  · simp [htrace, hsample]
  · simp only [htrace, hsample, and_false, if_false]
    exact sampled_eq hsample (Nat.zero_le _) (Nat.lt_succ_self _) profile c

/-- Neither a trace nor samples change what the program does: its exit code
and the hart it leaves are those of the same run unwatched. -/
theorem main_watched (files : Files) (o : Options) (trace : Bool)
    (sample : BitVec 64) :
    main files { o with trace := trace, sample := sample } =
      main files { o with trace := false, sample := 0 } := by
  funext profile
  unfold main
  simp only [run_eq]
  rfl

/-! ## What is run -/

variable {files : Files} {c c' : Cpu}

theorem read_ok {path : String} {bytes : List (BitVec 8)}
    (hread : read files path profile c = some (.ok bytes, c')) : c' = c := by
  unfold read at hread
  cases hfile : files path with
  | none =>
      rw [hfile] at hread
      cases hread
  | some image =>
      rw [hfile] at hread
      cases hread
      rfl

theorem refuse_ok {ε α : Type} {part : Program Cpu ε α} {value : α}
    (hrun : refuse part profile c = some (.ok value, c')) :
    part profile c = some (.ok value, c') :=
  Program.mapError_eq_ok_iff.mp hrun

theorem loadImage_loaded (hloaded : Cpu.Loaded profile c)
    {image : List (BitVec 8)}
    (hload : loadImage image profile c = some (.ok (), c')) :
    Cpu.Loaded profile c' := by
  unfold loadImage at hload
  rw [Program.ite_run] at hload
  split at hload
  · obtain ⟨elf, c₁, hparse, hload⟩ := Program.bind_ok hload
    have hsame : c₁ = c := by
      have hrun := refuse_ok hparse
      unfold Program.zoom at hrun
      split at hrun <;> cases hrun
      rfl
    exact .loadElf (hsame ▸ hloaded) (refuse_ok hload)
  · exact .load hloaded (refuse_ok hload)

theorem bootKernel_booted (hloaded : Cpu.Loaded profile c) {kernel : String}
    {dtb : Option String} {mem : BitVec 64}
    (hboot : bootKernel files kernel dtb mem profile c = some (.ok (), c')) :
    Cpu.Booted profile c' := by
  unfold bootKernel at hboot
  cases dtb with
  | none => cases hboot
  | some dtbPath =>
      obtain ⟨image, c₁, hkernel, hboot⟩ := Program.bind_ok hboot
      obtain ⟨tree, c₂, htree, hboot⟩ := Program.bind_ok hboot
      obtain ⟨top, c₃, htop, hboot⟩ := Program.bind_ok hboot
      obtain ⟨dtbAddr, c₄, hdtb, hboot⟩ := Program.bind_ok hboot
      obtain ⟨_, c₅, hplaced, hboot⟩ := Program.bind_ok hboot
      obtain ⟨_, c₆, hgiven, hboot⟩ := Program.bind_ok hboot
      obtain ⟨_, -, -, hstill⟩ := Program.check_cases htop
      obtain ⟨_, -, -, hstay⟩ := Program.check_cases hdtb
      have hsame : c₄ = c :=
        hstay.trans (hstill.trans ((read_ok htree).trans (read_ok hkernel)))
      have hfirst : Cpu.Loaded profile c₅ :=
        .loadAt (hsame ▸ hloaded) (refuse_ok hplaced)
      have hsecond : Cpu.Loaded profile c₆ := .loadAt hfirst (refuse_ok hgiven)
      cases hboot
      exact .boot _ _ _ hsecond

/-- What is set up is a hart about to take its first step. -/
theorem start_started {o : Options} {mem : ℕ} (hloaded : Cpu.Loaded profile c)
    (hstart : start files o mem profile c = some (.ok (), c')) :
    Cpu.Started profile c' := by
  unfold start at hstart
  cases hkernel : o.kernel with
  | some kernel =>
      rw [hkernel] at hstart
      exact Or.inr (bootKernel_booted hloaded hstart)
  | none =>
      rw [hkernel] at hstart
      cases himage : o.image with
      | none =>
          rw [himage] at hstart
          cases hstart
      | some path =>
          rw [himage] at hstart
          obtain ⟨image, c₁, hread, hload⟩ := Program.bind_ok hstart
          exact Or.inl (loadImage_loaded (read_ok hread ▸ hloaded) hload)

/-- A part that ends the program ends it with a refusal. -/
def Refuses {α : Type} (part : Part α) : Prop :=
  ∀ profile c, part.Ensures profile c (fun _ _ => True)
    fun code _ => code = REFUSED

section Refuses

variable {α β : Type}

theorem Refuses.bind {first : Part α} {next : α → Part β}
    (hfirst : Refuses first) (hnext : ∀ value, Refuses (next value)) :
    Refuses (first >>= next) :=
  fun profile c => Program.Ensures.bind ((hfirst profile c).mono
    (fun value middle _ => hnext value profile middle) fun _ _ h => h)

theorem Refuses.check (value : Checked α) :
    Refuses (Program.check value : Part α) :=
  fun _ _ => Program.Ensures.check fun _ _ => trivial

theorem Refuses.refuse {ε : Type} (part : Program Cpu ε α) :
    Refuses (refuse part) := by
  intro profile c outcome c' hrun
  unfold Main.refuse Program.mapError at hrun
  split at hrun
  · cases hrun
  · cases hrun
    rfl
  · cases hrun
    trivial

theorem Refuses.fail : Refuses (Program.fail REFUSED : Part α) :=
  fun _ _ => Program.Ensures.fail rfl

theorem Refuses.read (path : String) : Refuses (read files path) := by
  unfold Main.read
  cases files path with
  | none => exact Refuses.fail
  | some bytes => exact fun _ _ => Program.Ensures.pure trivial

end Refuses

theorem loadImage_refuses (image : List (BitVec 8)) :
    Refuses (loadImage image) := by
  unfold loadImage
  split
  · exact (Refuses.refuse _).bind fun elf => Refuses.refuse _
  · exact Refuses.refuse _

theorem bootKernel_refuses (kernel : String) (dtb : Option String)
    (mem : BitVec 64) : Refuses (bootKernel files kernel dtb mem) := by
  cases dtb with
  | none => exact Refuses.fail
  | some dtbPath =>
      refine (Refuses.read kernel).bind fun image => ?_
      refine (Refuses.read dtbPath).bind fun tree => ?_
      refine (Refuses.check _).bind fun top => ?_
      refine (Refuses.check _).bind fun dtbAddr => ?_
      refine (Refuses.refuse _).bind fun _ => ?_
      refine (Refuses.refuse _).bind fun _ => ?_
      exact fun _ _ => Program.Ensures.update trivial

theorem start_refuses (o : Options) (mem : ℕ) :
    Refuses (start files o mem) := by
  unfold start
  cases o.kernel with
  | some kernel => exact bootKernel_refuses _ _ _
  | none =>
      cases o.image with
      | none => exact Refuses.fail
      | some path => exact (Refuses.read path).bind loadImage_refuses

/-- A program that does not refuse its arguments has made one run of a hart
that was loaded or booted, and its exit code says how the run ended. -/
theorem main_runs {o : Options} {code : ℕ}
    (hmain : main files o profile = some (code, c)) :
    code = REFUSED ∨ ∃ c₀ exit, Cpu.Started profile c₀ ∧
      Cpu.run o.maxSteps.toNat profile c₀ = some (.ok exit, c) ∧
      code = report exit := by
  unfold main at hmain
  simp only [run_eq, Option.bind_eq_bind, Option.bind_eq_some_iff] at hmain
  obtain ⟨kib, -, mem, -, c₁, hnew, ⟨outcome, c₂⟩, hstart, hrest⟩ := hmain
  cases outcome with
  | error refused =>
      cases hrest
      exact Or.inl ((start_refuses o mem profile c₁).error hstart)
  | ok value =>
      have hstarted := start_started (.new hnew) hstart
      simp only [Option.bind_eq_some_iff] at hrest
      obtain ⟨⟨exit, c₃⟩, hrun, hreport⟩ := hrest
      cases exit with
      | error e => cases hreport
      | ok exit =>
          cases hreport
          exact Or.inr ⟨c₂, exit, hstarted, hrun, rfl⟩

/-- A flat image that jumps to itself, given two steps. -/
def loopingOptions : Options where
  image := some "loop.bin"
  kernel := none
  dtb := none
  memMib := 1
  xlen := .rv64
  trace := true
  sample := 0
  maxSteps := 2

def loopingFiles : Files := fun _ => some [0x6f, 0x00, 0x00, 0x00]

theorem main_runs_looping : ∃ c c₀ exit, Cpu.Started .debug c₀ ∧
    Cpu.run 2 .debug c₀ = some (.ok exit, c) ∧ 3 = report exit := by
  have hcode : (main loopingFiles loopingOptions .debug).map Prod.fst =
      some 3 := by decide +kernel
  obtain ⟨⟨code, c⟩, hmain, rfl⟩ := Option.map_eq_some_iff.mp hcode
  exact ⟨c, (main_runs hmain).resolve_left (by decide)⟩

end Main

end Nanoemu
