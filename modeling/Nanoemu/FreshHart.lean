import Nanoemu.Load
import Nanoemu.InstructionPhases

/-!
# A hart before its first step

Loading places bytes in memory and sets the width; everything else is as the
constructor left it.
-/

namespace Nanoemu

open CheckedProgram BitFields

namespace Memory

/-- The size of DRAM and the dirty flag stay. -/
def sizeFrame : Frame Memory where
  rel mem mem' := mem'.dram.len = mem.dram.len ∧
    mem'.devicesDirty = mem.devicesDirty
  refl _ := ⟨rfl, rfl⟩
  trans hfirst hsecond :=
    ⟨hsecond.1.trans hfirst.1, hsecond.2.trans hfirst.2⟩

theorem load_keeps_size (image : List (BitVec 8)) :
    (Memory.load image).Keeps sizeFrame := by
  intro profile mem
  apply Program.Ensures.bind
  apply Program.Ensures.read
  apply Program.Ensures.bind
  apply Program.Ensures.check
  intro dram hdram
  apply Program.Ensures.update
  split at hdram
  · cases hdram
    exact ⟨rfl, rfl⟩
  · cases hdram

theorem loadAt_keeps_size (addr : BitVec 64) (data : List (BitVec 8)) :
    (Memory.loadAt addr data).Keeps sizeFrame := by
  intro profile mem
  apply Program.Ensures.bind
  apply Program.Ensures.read
  cases hindex : (id mem).index addr data.length with
  | none => exact Program.Ensures.fail ⟨rfl, rfl⟩
  | some i => exact Program.Ensures.update ⟨rfl, rfl⟩

theorem zero_keeps_size (addr len : BitVec 64) :
    (Memory.zero addr len).Keeps sizeFrame := by
  intro profile mem
  apply Program.Ensures.bind
  apply Program.Ensures.read
  cases hindex : (id mem).index addr len.toNat with
  | none => exact Program.Ensures.fail ⟨rfl, rfl⟩
  | some i => exact Program.Ensures.update ⟨rfl, rfl⟩

end Memory

namespace Cpu

/-- Only the memory has moved, and its size and dirty flag stay. -/
def placeFrame : Frame Cpu where
  rel c c' := ∃ mem, Memory.sizeFrame.rel c.mem mem ∧ c' = { c with mem := mem }
  refl c := ⟨c.mem, Memory.sizeFrame.refl _, rfl⟩
  trans := by
    rintro c _ _ ⟨mem, hsize, rfl⟩ ⟨mem', hsize', rfl⟩
    exact ⟨mem', Memory.sizeFrame.trans hsize hsize', rfl⟩

theorem onMemory_places {ε α : Type} {body : Program Memory ε α}
    (hbody : body.Keeps Memory.sizeFrame) :
    (onMemory body).Keeps placeFrame :=
  Program.Keeps.zoom hbody fun _ mem hsize => ⟨mem, hsize, rfl⟩

theorem loadSegment_places (seg : Segment) :
    (loadSegment seg).Keeps placeFrame := by
  apply Program.Keeps.bind
    (onMemory_places (Memory.loadAt_keeps_size _ _).mapError)
  intro _
  apply Program.Keeps.ite
  · apply Program.Keeps.bind (Program.Keeps.check _)
    intro tail
    exact onMemory_places (Memory.zero_keeps_size _ _).mapError
  · exact Program.Keeps.pure _

theorem loadSegments_places (segments : List Segment) :
    (loadSegments segments).Keeps placeFrame := by
  induction segments with
  | nil => exact Program.Keeps.pure _
  | cons seg rest ih =>
      exact Program.Keeps.bind (loadSegment_places seg) fun _ => ih

/-- What the constructor sets up and loading leaves alone. -/
structure Fresh (c : Cpu) : Prop where
  privMode : c.privMode = .machine
  sbi : c.sbi = false
  cycle : c.cycle = 0
  reservation : c.reservation = none
  dirty : c.mem.devicesDirty = true
  regs : ∀ r, (c.regs r).toNat ≤ DRAM_BASE.toNat + c.mem.dram.len
  tlb : ∀ slot way, (c.tlb slot way).valid = false
  xlen : c.csrs.xlen = c.xlen
  csrs : ∀ addr, addr ≠ Csr.MISA → addr ≠ Csr.MSTATUS →
    c.csrs.regs addr = 0
  status : Within (c.csrs.regs Csr.MSTATUS) (Mstatus.UXL ||| Mstatus.SXL)
  len : c.mem.dram.len < 2 ^ 63

theorem new_regs_other (xlen : Xlen) {addr : BitVec 12}
    (hmisa : addr ≠ Csr.MISA) (hstatus : addr ≠ Csr.MSTATUS) :
    (CsrFile.new xlen).regs addr = 0 := by
  cases xlen with
  | rv32 => exact CsrFile.force_regs_other _ _ hmisa
  | rv64 =>
      exact Eq.trans (CsrFile.force_regs_other _ _ hstatus)
        (CsrFile.force_regs_other _ _ hmisa)

theorem new_status (xlen : Xlen) :
    Within ((CsrFile.new xlen).regs Csr.MSTATUS)
      (Mstatus.UXL ||| Mstatus.SXL) := by
  cases xlen <;> decide

theorem new_regs (memSize : ℕ) (r : Fin 32) :
    (Function.update (fun _ : Fin 32 => (0 : BitVec 64)) 2
      (DRAM_BASE + BitVec.ofNat 64 memSize) r).toNat ≤
        DRAM_BASE.toNat + memSize := by
  by_cases hr : r = 2
  · subst hr
    rw [Function.update_self, BitVec.toNat_add, BitVec.toNat_ofNat]
    exact (Nat.mod_le _ _).trans
      (Nat.add_le_add_left (Nat.mod_le memSize _) _)
  · rw [Function.update_of_ne hr]
    exact Nat.zero_le _

theorem trunc_le (v : BitVec 64) (width : ℕ) :
    (trunc v width).toNat ≤ v.toNat := by
  rw [trunc]
  split
  · exact le_rfl
  · rw [BitVec.toNat_and]
    exact Nat.and_le_left

theorem trunc_stack_le {regs : Fin 32 → BitVec 64} {bound : ℕ}
    (h : ∀ r, (regs r).toNat ≤ bound) (width : ℕ) (r : Fin 32) :
    (Function.update regs 2 (trunc (regs 2) width) r).toNat ≤ bound := by
  by_cases hr : r = 2
  · subst hr
    rw [Function.update_self]
    exact (trunc_le _ width).trans (h 2)
  · rw [Function.update_of_ne hr]
    exact h r

theorem fresh_new {memSize : ℕ} {xlen : Xlen} {c : Cpu}
    (hnew : Cpu.new memSize xlen = some c) : Fresh c := by
  rw [Cpu.new] at hnew
  split at hnew
  · cases hnew
  · next hlen =>
      cases hnew
      exact
        { privMode := rfl
          sbi := rfl
          cycle := rfl
          reservation := rfl
          dirty := rfl
          regs := new_regs memSize
          tlb := fun _ _ => rfl
          xlen := by cases xlen <;> rfl
          csrs := fun _ hmisa hstatus => new_regs_other xlen hmisa hstatus
          status := new_status xlen
          len := Nat.lt_of_not_le hlen }

theorem Fresh.place {c c' : Cpu} (h : Fresh c) (hplace : placeFrame.rel c c') :
    Fresh c' := by
  obtain ⟨mem, ⟨hlen, hdirty⟩, rfl⟩ := hplace
  exact
    { privMode := h.privMode
      sbi := h.sbi
      cycle := h.cycle
      reservation := h.reservation
      dirty := hdirty.trans h.dirty
      regs := hlen ▸ h.regs
      tlb := h.tlb
      xlen := h.xlen
      csrs := h.csrs
      status := h.status
      len := hlen ▸ h.len }

theorem setXlen_status (f : CsrFile) (xlen : Xlen)
    (h : Within (f.regs Csr.MSTATUS) (Mstatus.UXL ||| Mstatus.SXL)) :
    Within ((f.setXlen xlen).regs Csr.MSTATUS)
      (Mstatus.UXL ||| Mstatus.SXL) := by
  have hnone : f.regs Csr.MSTATUS &&& ~~~(Mstatus.UXL ||| Mstatus.SXL) =
      0#64 := by
    rw [← h, BitVec.and_assoc, show (Mstatus.UXL ||| Mstatus.SXL) &&&
      ~~~(Mstatus.UXL ||| Mstatus.SXL) = 0#64 from rfl, BitVec.and_zero]
  have hkept : (f.force Csr.MISA (CsrFile.misa xlen)).regs Csr.MSTATUS &&&
      ~~~(Mstatus.UXL ||| Mstatus.SXL) = 0#64 := by
    rw [CsrFile.force_regs_other _ _ (by decide)]
    exact hnone
  cases xlen with
  | rv32 =>
      have hregs : (f.setXlen .rv32).regs Csr.MSTATUS = 0#64 :=
        (CsrFile.force_regs_same _ _ _).trans hkept
      rw [hregs]
      decide
  | rv64 =>
      have hregs : (f.setXlen .rv64).regs Csr.MSTATUS =
          0#64 ||| (2#64 <<< 32) ||| (2#64 <<< 34) :=
        (CsrFile.force_regs_same _ _ _).trans
          (congrArg (· ||| (2#64 <<< 32) ||| (2#64 <<< 34)) hkept)
      rw [hregs]
      decide

theorem Fresh.loadElf {c c' : Cpu} (h : Fresh c) {elf : Elf}
    {profile : Profile}
    (hload : Cpu.loadElf elf profile c = some (.ok (), c')) : Fresh c' := by
  have hensures : (Cpu.loadElf elf).Ensures profile c
      (fun _ c' => Fresh c') (fun _ _ => True) := by
    apply Program.Ensures.bind
    apply Program.Ensures.update
    apply Program.Ensures.bind
    apply (loadSegments_places elf.segments profile _).mono
    · intro _ c₁ hplace
      apply Program.Ensures.update
      have hfresh : Fresh c₁ := by
        refine Fresh.place ?_ hplace
        exact
          { privMode := h.privMode
            sbi := h.sbi
            cycle := h.cycle
            reservation := h.reservation
            dirty := h.dirty
            regs := trunc_stack_le h.regs _
            tlb := h.tlb
            xlen := rfl
            csrs := fun addr hmisa hstatus =>
              (CsrFile.force_regs_other _ _ hstatus).trans
                ((CsrFile.force_regs_other _ _ hmisa).trans
                  (h.csrs addr hmisa hstatus))
            status := setXlen_status _ _ h.status
            len := h.len }
      exact
        { privMode := hfresh.privMode
          sbi := hfresh.sbi
          cycle := hfresh.cycle
          reservation := hfresh.reservation
          dirty := hfresh.dirty
          regs := hfresh.regs
          tlb := hfresh.tlb
          xlen := hfresh.xlen
          csrs := hfresh.csrs
          status := hfresh.status
          len := hfresh.len }
    · exact fun _ _ _ => trivial
  exact hensures.ok hload

theorem Loaded.fresh {profile : Profile} {c : Cpu} (h : Loaded profile c) :
    Fresh c := by
  induction h with
  | new hnew => exact fresh_new hnew
  | load _ hload ih =>
      exact ih.place ((onMemory_places (Memory.load_keeps_size _)).of_run hload)
  | loadAt _ hload ih =>
      exact ih.place
        ((onMemory_places (Memory.loadAt_keeps_size _ _)).of_run hload)
  | loadElf _ hload ih => exact ih.loadElf hload

theorem Fresh.status_disjoint {c : Cpu} (h : Fresh c) {field : BitVec 64}
    (hfield : BitFields.Disjoint (Mstatus.UXL ||| Mstatus.SXL) field) :
    BitFields.Disjoint (c.csrs.regs Csr.MSTATUS) field := by
  change c.csrs.regs Csr.MSTATUS &&& field = 0#64
  rw [← h.status, BitVec.and_assoc]
  exact (congrArg (c.csrs.regs Csr.MSTATUS &&& ·) hfield).trans BitVec.and_zero

theorem bootSupervisor_regs_other (c : Cpu) (entry hartid dtb : BitVec 64)
    {addr : BitVec 12} (hmedeleg : addr ≠ Csr.MEDELEG)
    (hmideleg : addr ≠ Csr.MIDELEG) (hmcounteren : addr ≠ Csr.MCOUNTEREN)
    (hscounteren : addr ≠ Csr.SCOUNTEREN) :
    (c.bootSupervisor entry hartid dtb).csrs.regs addr = c.csrs.regs addr := by
  rw [bootSupervisor]
  dsimp only
  rw [CsrFile.force_regs_other _ _ hscounteren,
    CsrFile.force_regs_other _ _ hmcounteren,
    CsrFile.force_regs_other _ _ hmideleg,
    CsrFile.force_regs_other _ _ hmedeleg]

/-! ## Concrete harts -/

def wordBytes (word : BitVec 32) : List (BitVec 8) :=
  [word.setWidth 8, (word >>> 8).setWidth 8, (word >>> 16).setWidth 8,
    (word >>> 24).setWidth 8]

def placed (c : Cpu) (i : ℕ) (data : List (BitVec 8)) : Cpu :=
  { c with mem := { c.mem with dram := c.mem.dram.copyFrom i data } }

theorem Loaded.placed {profile : Profile} {c : Cpu} (addr : BitVec 64)
    {data : List (BitVec 8)} {i : ℕ} (h : Loaded profile c)
    (hindex : c.mem.index addr data.length = some i) :
    Loaded profile (c.placed i data) := by
  have hrun : onMemory (Memory.loadAt addr data) profile c =
      some (.ok (), c.placed i data) := by
    have hmem : Memory.loadAt addr data profile c.mem =
        some (.ok (), { c.mem with dram := c.mem.dram.copyFrom i data }) := by
      rw [Memory.loadAt, Program.bind_run_ok (Program.read_run _ _ _), id,
        hindex]
      rfl
    rw [onMemory, Program.zoom, hmem]
    rfl
  exact .loadAt h hrun

/-- The state a step leads to; a panic leaves it. -/
def stepped (profile : Profile) (c : Cpu) : Cpu :=
  match step profile c with
  | some (_, c') => c'
  | none => c

theorem step_eq_stepped {profile : Profile} {c : Cpu}
    {outcome : Except Exception Unit}
    (houtcome : (step profile c).map Prod.fst = some outcome) :
    step profile c = some (outcome, stepped profile c) := by
  obtain ⟨⟨_, c'⟩, hstep, rfl⟩ := Option.map_eq_some_iff.mp houtcome
  rw [stepped, hstep]

theorem Run.iterate {profile : Profile} {P : Cpu → Prop} {c : Cpu} {n : ℕ}
    (hstep : ∀ k < n, (step profile ((stepped profile)^[k] c)).isSome = true)
    (hstate : ∀ k ≤ n, P ((stepped profile)^[k] c)) :
    Run profile P c ((stepped profile)^[n] c) := by
  induction n with
  | zero => exact .refl (hstate 0 le_rfl)
  | succ n ih =>
      have hrun := ih (fun k hk => hstep k (by omega))
        (fun k hk => hstate k (by omega))
      have hlast := hstate (n + 1) le_rfl
      rw [Function.iterate_succ_apply'] at hlast ⊢
      refine hrun.tail ?_ hlast
      obtain ⟨⟨outcome, c'⟩, hsome⟩ :=
        Option.isSome_iff_exists.mp (hstep n (by omega))
      rw [stepped, hsome]
      exact .step hsome

/-- A hart at reset with a program at the start of its memory. -/
def programmedHart (xlen : Xlen) (words : List (BitVec 32)) : Cpu :=
  ((Cpu.new 0x1000 xlen).get (by cases xlen <;> rfl)).placed 0
    (words.flatMap wordBytes)

theorem programmedHart_loaded (profile : Profile) (xlen : Xlen)
    {words : List (BitVec 32)} (hfits : (words.flatMap wordBytes).length ≤ 4096) :
    Loaded profile (programmedHart xlen words) := by
  have hsome : (Cpu.new 0x1000 xlen).isSome = true := by cases xlen <;> rfl
  have hnew : Loaded profile ((Cpu.new 0x1000 xlen).get hsome) :=
    .new (Option.some_get hsome).symm
  refine hnew.placed DRAM_BASE ?_
  have hin : (Memory.new 0x1000).InDram DRAM_BASE
      (words.flatMap wordBytes).length := by
    refine ⟨BitVec.le_refl _, ?_, ?_⟩
    · rw [Nat.sub_self, Nat.zero_add]
      exact hfits
    · rw [Nat.sub_self, Nat.zero_add]
      omega
  have hindex := Memory.index_of_inDram hin
  cases xlen <;> exact hindex

/-- A hart at reset with four zero bytes of memory. -/
def blankHart : Cpu :=
  (Cpu.new 4 .rv64).get rfl

theorem blankHart_loaded (profile : Profile) : Loaded profile blankHart :=
  .new (Option.some_get (rfl : (Cpu.new 4 .rv64).isSome)).symm

/-- The same, handed to a kernel at the start of memory. -/
def bootedHart : Cpu :=
  blankHart.bootSupervisor DRAM_BASE 0 0

theorem bootedHart_booted (profile : Profile) : Booted profile bootedHart :=
  .boot DRAM_BASE 0 0 (blankHart_loaded profile)

end Cpu

end Nanoemu
