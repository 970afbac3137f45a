import Nanoemu.EntryWords
import Nanoemu.FetchFaults
import Nanoemu.StepHistory

/-!
# What the device registers hold

A write keeps one bit of the software interrupt register and never enables
source 0 of the interrupt controller.  Nothing else moves these registers, so
in every run they hold no more than that.
-/

namespace Nanoemu

open CheckedProgram

theorem Clint.write_sound {clint clint' : Clint} (hsound : clint.Sound)
    {addr value : BitVec 64} (hin : InWindow addr) {size : ℕ}
    {profile : Profile}
    (hwrite : clint.write addr size value profile = some clint') :
    clint'.Sound := by
  rw [write_run clint hin, Option.map_eq_some_iff] at hwrite
  obtain ⟨shift, -, hstored⟩ := hwrite
  rw [← hstored]
  exact store_sound hsound _ _

theorem Plic.claim_enable (plic : Plic) (context : Plic.Context) :
    (plic.claim context).2.enable = plic.enable := by
  unfold Plic.claim
  dsimp only
  split <;> rfl

theorem Plic.read_enable (plic : Plic) (offset : BitVec 64) :
    (plic.read offset).2.enable = plic.enable := by
  unfold Plic.read
  split
  · split <;> rfl
  · split <;> rfl
  · split <;> rfl
  · split_ifs
    · rfl
    · exact plic.claim_enable _
    · rfl
    · rfl

theorem Plic.setLevel_enable (plic : Plic) (source : BitVec 32)
    (asserted : Bool) : (plic.setLevel source asserted).enable = plic.enable := by
  unfold Plic.setLevel
  split
  · rfl
  · split_ifs <;> rfl

namespace Memory

/-- What is sound stays so. -/
def soundFrame : Frame Memory where
  rel mem mem' := mem.Sound → mem'.Sound
  refl _ h := h
  trans hfirst hsecond h := hsecond (hfirst h)

theorem Sound.congr {mem mem' : Memory}
    (hmsip : mem'.clint.msip = mem.clint.msip)
    (henable : mem'.plic.enable = mem.plic.enable) (h : mem.Sound) :
    mem'.Sound := by
  constructor
  · unfold Clint.Sound
    rw [hmsip]
    exact h.clint
  · intro context
    rw [henable]
    exact h.plic context

theorem read_sound (addr : BitVec 64) (size : ℕ) :
    (Memory.read addr size).Keeps soundFrame := by
  apply Program.Keeps.intro
  intro profile mem outcome mem' hrun
  cases read_course hrun with
  | dram | outside => exact soundFrame.refl mem
  | plic => exact Sound.congr rfl (mem.plic.read_enable _)
  | clint | uart | unmapped => exact Sound.congr rfl rfl

theorem write_sound (addr : BitVec 64) (size : ℕ) (value : BitVec 64) :
    (Memory.write addr size value).Keeps soundFrame := by
  apply Program.Keeps.intro
  intro profile mem outcome mem' hrun
  cases write_course hrun with
  | dram =>
      unfold stored noteTohost
      split <;> exact Sound.congr rfl rfl
  | outside => exact soundFrame.refl mem
  | clint hlow hclint hwrite =>
      exact fun hsound =>
        ⟨Clint.write_sound hsound.clint hclint hwrite, hsound.plic⟩
  | plic =>
      exact fun hsound =>
        ⟨hsound.clint, Plic.write_sound hsound.plic _ value⟩
  | uart | unmapped => exact Sound.congr rfl rfl

theorem soundFrame_respects : Respects soundFrame :=
  ⟨read_sound, write_sound⟩

end Memory

namespace Cpu

variable {profile : Profile} {c c' : Cpu}

/-- The registers of the devices are sound, if they were. -/
abbrev deviceFrame : Frame Cpu :=
  memFrame Memory.soundFrame

theorem takeTrap_mem {cause : ℕ} {tval epc : BitVec 64} {isInterrupt : Bool}
    (htrap : takeTrap cause tval epc isInterrupt profile c =
      some (.ok (), c')) : c'.mem = c.mem := by
  obtain ⟨entered, word, pc, -, -, rfl⟩ :=
    (takeTrap_enters _ _ _ _ _ _).ok htrap
  rfl

theorem retire_mem (c : Cpu) : c.retire.mem = c.mem := by
  unfold retire
  split <;> rfl

section Step

variable {inner : Frame Memory} (hinner : Memory.Respects inner)

include hinner

theorem fetch_within : fetch.Keeps (memFrame inner) :=
  (memFrame_carries hinner).fetch

theorem fetchExecute_within (instPc : BitVec 64) :
    (fetchExecute instPc).Keeps (memFrame inner) := by
  apply Program.Keeps.bind (fetch_within hinner)
  rintro ⟨inst, len⟩
  apply Program.Keeps.bind (Program.Keeps.read _)
  intro pc
  exact (execute_within hinner inst instPc _).keeps

/-- What accesses, the tick and the answer of a call keep, a step keeps. -/
theorem step_within {outcome : Except Exception Unit}
    (hticked : inner.rel c.mem c.ticked.mem)
    (hanswered : ∀ {x x' : Cpu}, answerCall profile x = some (.ok (), x') →
      inner.rel x.mem x'.mem)
    (hstep : step profile c = some (outcome, c')) :
    inner.rel c.mem c'.mem := by
  cases step_course hstep with
  | interrupt _ htrap =>
      rw [takeTrap_mem htrap]
      exact hticked
  | @retired inst len c₁ c₂ _ hfetch hexecute =>
      have hfetched : inner.rel c.ticked.mem c₁.mem :=
        (fetch_within hinner profile c.fetching).ok hfetch
      have hexecuted : inner.rel c₁.mem c₂.mem :=
        (execute_within hinner _ _ _).keeps.of_run hexecute
      rw [retire_mem]
      exact inner.trans hticked (inner.trans hfetched hexecuted)
  | @answered e c₁ _ _ hfail _ hanswer =>
      have hfailed : inner.rel c.ticked.mem c₁.mem :=
        (fetchExecute_within hinner _ profile c.fetching).error hfail
      exact inner.trans hticked (inner.trans hfailed (hanswered hanswer))
  | @exception e c₁ _ _ hfail _ htrap =>
      have hfailed : inner.rel c.ticked.mem c₁.mem :=
        (fetchExecute_within hinner _ profile c.fetching).error hfail
      rw [takeTrap_mem htrap]
      exact inner.trans hticked hfailed

end Step

/-- A frame of the memory that leaves out what a supervisor call sets: the
console and the deadline. -/
structure IgnoresCalls (inner : Frame Memory) : Prop where
  uart : ∀ mem uart, inner.rel mem { mem with uart := uart }
  deadline : ∀ mem deadline, inner.rel mem
    { mem with clint := { mem.clint with mtimecmp := deadline } }
  read : ∀ addr size, (Memory.read addr size).Keeps inner

theorem IgnoresCalls.respects {inner : Frame Memory} (h : IgnoresCalls inner) :
    RespectsCalls (memFrame inner) where
  arg c _ _ := inner.refl c.mem
  output c _ := h.uart c.mem _
  send c := inner.refl c.mem
  clear c := inner.refl c.mem
  timer c deadline := h.deadline c.mem deadline
  flush c := inner.refl c.mem
  stop c := inner.refl c.mem
  read addr size := Program.Moves.attempt
    (Program.Keeps.zoom (h.read addr size) fun _ _ hkept => hkept)

theorem answerCall_memory {inner : Frame Memory} (h : IgnoresCalls inner)
    (hanswer : answerCall profile c = some (.ok (), c')) :
    inner.rel c.mem c'.mem := by
  have hgetchar : consoleGetchar.Moves (memFrame inner) :=
    consoleGetchar_moves h.respects.toRespectsReplies fun c uart =>
      h.uart c.mem uart
  exact (answerCall_ensures h.respects profile c fun _ => hgetchar).ok hanswer

theorem tickClint_devices (c : Cpu) :
    c.tickClint.mem.clint.msip = c.mem.clint.msip ∧
      c.tickClint.mem.plic = c.mem.plic := by
  unfold tickClint
  dsimp only
  split_ifs <;> exact ⟨rfl, rfl⟩

theorem ticked_devices (c : Cpu) : deviceFrame.rel c c.ticked := by
  obtain ⟨hmsip, hplic⟩ := tickClint_devices c.counted
  unfold ticked tickTimer
  dsimp only
  split
  · exact Memory.Sound.congr hmsip (congrArg Plic.enable hplic)
  · have henable : c.counted.tickClint.scanDevices.mem.plic.enable =
        c.mem.plic.enable := by
      unfold scanDevices
      dsimp only
      rw [Plic.setLevel_enable, hplic]
      rfl
    exact Memory.Sound.congr hmsip henable

theorem step_devices {outcome : Except Exception Unit}
    (hstep : step profile c = some (outcome, c')) : deviceFrame.rel c c' := by
  have hcalls : IgnoresCalls Memory.soundFrame :=
    ⟨fun _ _ => Memory.Sound.congr rfl rfl,
      fun _ _ => Memory.Sound.congr rfl rfl, Memory.read_sound⟩
  exact step_within Memory.soundFrame_respects (ticked_devices c)
    (answerCall_memory hcalls) hstep

/-! ## Runs -/

/-- What a load into DRAM leaves alone: it moves DRAM and names `tohost`. -/
structure IgnoresLoads (inner : Frame Memory) : Prop where
  dram : ∀ mem dram, inner.rel mem { mem with dram := dram }
  tohost : ∀ mem addr, inner.rel mem { mem with tohost := addr }

section Loads

variable {inner : Frame Memory} (hinner : IgnoresLoads inner)

theorem onMemory_within {ε α : Type} {body : Program Memory ε α}
    (hbody : body.Keeps inner) : (onMemory body).Keeps (memFrame inner) :=
  Program.Keeps.zoom hbody fun _ _ h => h

include hinner

theorem load_within (image : List (BitVec 8)) :
    (Memory.load image).Keeps inner := by
  apply Program.Keeps.bind (Program.Keeps.read _)
  intro _
  apply Program.Keeps.bind (Program.Keeps.check _)
  intro dram
  exact Program.Keeps.update fun mem => hinner.dram mem dram

theorem loadAt_within (addr : BitVec 64) (data : List (BitVec 8)) :
    (Memory.loadAt addr data).Keeps inner := by
  apply Program.Keeps.bind (Program.Keeps.read _)
  intro mem
  cases mem.index addr data.length with
  | none => exact Program.Keeps.fail _
  | some i => exact Program.Keeps.update fun mem => hinner.dram mem _

theorem zero_within (addr len : BitVec 64) :
    (Memory.zero addr len).Keeps inner := by
  apply Program.Keeps.bind (Program.Keeps.read _)
  intro mem
  cases mem.index addr len.toNat with
  | none => exact Program.Keeps.fail _
  | some i => exact Program.Keeps.update fun mem => hinner.dram mem _

theorem loadSegments_within (segments : List Segment) :
    (loadSegments segments).Keeps (memFrame inner) := by
  induction segments with
  | nil => exact Program.Keeps.pure _
  | cons seg rest ih =>
      apply Program.Keeps.bind _ fun _ => ih
      apply Program.Keeps.bind
        (onMemory_within (loadAt_within hinner _ _).mapError)
      intro _
      apply Program.Keeps.ite
      · apply Program.Keeps.bind (Program.Keeps.check _)
        intro tail
        exact onMemory_within (zero_within hinner _ _).mapError
      · exact Program.Keeps.pure _

theorem loadElf_within (elf : Elf) :
    (loadElf elf).Keeps (memFrame inner) := by
  apply Program.Keeps.bind (Program.Keeps.update fun c => inner.refl c.mem)
  intro _
  apply Program.Keeps.bind (loadSegments_within hinner _)
  intro _
  exact Program.Keeps.update fun c => hinner.tohost c.mem _

/-- What the new memory has, and loads keep, a loaded memory has. -/
theorem Loaded.memory {P : Memory → Prop}
    (hkept : ∀ {mem mem' : Memory}, inner.rel mem mem' → P mem → P mem')
    (hnew : ∀ size, P (Memory.new size)) (h : Loaded profile c) : P c.mem := by
  induction h with
  | @new memSize xlen c hsome =>
      rw [Cpu.new] at hsome
      split at hsome
      · cases hsome
      · cases hsome
        exact hnew memSize
  | load _ hload ih =>
      exact hkept ((onMemory_within (load_within hinner _) profile
        _).ok hload) ih
  | loadAt _ hload ih =>
      exact hkept ((onMemory_within (loadAt_within hinner _ _) profile
        _).ok hload) ih
  | loadElf _ hload ih =>
      exact hkept ((loadElf_within hinner _ profile _).ok hload) ih

theorem Started.memory {P : Memory → Prop}
    (hkept : ∀ {mem mem' : Memory}, inner.rel mem mem' → P mem → P mem')
    (hnew : ∀ size, P (Memory.new size)) (h : Started profile c) :
    P c.mem := by
  rcases h with hloaded | ⟨entry, hartid, dtb, hloaded⟩
  · exact hloaded.memory hinner hkept hnew
  · have hmem := hloaded.memory hinner hkept hnew
    exact hmem

end Loads

theorem soundFrame_loads : IgnoresLoads Memory.soundFrame :=
  ⟨fun _ _ => Memory.Sound.congr rfl rfl,
    fun _ _ => Memory.Sound.congr rfl rfl⟩

theorem Started.sound (h : Started profile c) : c.mem.Sound :=
  h.memory soundFrame_loads (fun hkept => hkept) fun _ =>
    ⟨Clint.default_sound, fun _ => BitVec.zero_and⟩

/-- In every run the registers of the devices hold what writes can leave. -/
theorem Reachable.sound (hreach : Reachable profile (Started profile) c) :
    c.mem.Sound := by
  apply hreach.invariant
  · exact fun _ hstarted => hstarted.sound
  · intro c c' hsound hnext
    cases hnext with
    | step hstep => exact step_devices hstep hsound
    | input bytes => exact ⟨hsound.clint, hsound.plic⟩

end Cpu

end Nanoemu
