import Nanoemu.FormatRoundTrip
import Nanoemu.MemoryView

/-!
# Instructions of the flat machine on the hart

A hart in the state of the flat machine executes the encoding of an instruction
to the state the flat machine goes to.  The registers of the hart hold the
words of the flat machine in 64 bits.
-/

namespace Nanoemu

open CheckedProgram FieldWords

namespace AluOp

theorem ofFields_register (op : AluOp) :
    ofFields (op.funct3.setWidth 32) (op.funct7.setWidth 32) = some op := by
  cases op <;> rfl

/-- An immediate operation has no field that tells a subtraction. -/
theorem ofFields_immediate {op : AluOp} (hsub : op ≠ .sub)
    (hshift : ¬ op.IsShift) : ofFields (op.funct3.setWidth 32) 0 = some op := by
  cases op with
  | sub => exact absurd rfl hsub
  | sll => exact absurd (Or.inl rfl) hshift
  | srl => exact absurd (Or.inr (Or.inl rfl)) hshift
  | sra => exact absurd (Or.inr (Or.inr rfl)) hshift
  | _ => rfl

theorem isShift_iff (op : AluOp) :
    op.funct3.setWidth 32 = 0x1#32 ∨ op.funct3.setWidth 32 = 0x5#32 ↔
      op.IsShift := by
  cases op <;> decide

/-- Below the selector of a shift there is the top bit of its amount. -/
theorem shift_funct7 (op : AluOp) (shamt : BitVec 6) :
    (op.funct7.extractLsb' 1 6 ++ shamt).extractLsb' 5 7 =
      op.funct7.extractLsb' 1 6 ++ shamt.extractLsb' 5 1 := by
  apply BitVec.eq_of_getLsbD_eq
  intro i hi
  rw [BitVec.getLsbD_extractLsb', BitVec.getLsbD_append, BitVec.getLsbD_append,
    BitVec.getLsbD_extractLsb' 5]
  by_cases hlow : i < 1
  · have hin : 5 + i < 6 := by omega
    simp [hi, hlow, hin]
  · have hout : ¬ 5 + i < 6 := by omega
    have hindex : 5 + i - 6 = i - 1 := by omega
    simp [hi, hlow, hout, hindex]

theorem shift_selector (op : AluOp) (top : BitVec 1) :
    (op.funct7.extractLsb' 1 6 ++ top).setWidth 32 &&& ~~~1#32 =
      op.funct7.setWidth 32 := by
  cases op <;> revert top <;> decide

end AluOp

theorem MulOp.ofFields_funct3 (op : MulOp) :
    MulOp.ofFields (op.funct3.setWidth 32) = some op := by
  cases op <;> rfl

namespace Cpu

open Flat

/-! ## Harts in a state of the flat machine -/

/-- The pc counts on past an end of the address space, by one instruction at
most and not to where memory is. -/
structure Near {w : ℕ} (s : State w) (pc : BitVec 64) : Prop where
  close : pc.toNat < 2 ^ w + 2 ^ 20 ∨
    s.layout.base < 2 ^ 20 ∧ 2 ^ 64 - 2 ^ 20 ≤ pc.toNat
  inside : s.Spans s.pc → pc.toNat < 2 ^ w

theorem Near.of_lt {w : ℕ} {s : State w} {pc : BitVec 64}
    (h : pc.toNat < 2 ^ w) : Near s pc :=
  ⟨Or.inl (Nat.lt_add_right _ h), fun _ => h⟩

theorem Near.congr {w : ℕ} {s s' : State w} {pc : BitVec 64}
    (h : Near s pc) (hlayout : s'.layout = s.layout)
    (hlen : s'.ram.len = s.ram.len) (hpc : s'.pc = s.pc) : Near s' pc := by
  refine ⟨?_, fun hspans => h.inside ?_⟩
  · rw [hlayout]
    exact h.close
  · rwa [State.Spans, hlayout, hlen, hpc] at hspans

/-- The hart is in the state of the flat machine. -/
structure Hosts {w : ℕ} (V : View) (c : Cpu) (s : State w) : Prop where
  width : c.xlen.bits = w
  regs : ∀ r : BitVec 5, c.rr r.toFin = (s.reg r).setWidth 64
  pc : c.pc.setWidth w = s.pc
  near : Near s c.pc
  reserved : c.reservation = s.reserved.map (BitVec.setWidth 64)
  layout : s.layout = V.layout
  shows : V.Shows c s.ram

/-- The payload has no way to report, and nothing ends its run. -/
def Unreported (c : Cpu) : Prop :=
  c.shutdown = false ∧ c.mem.tohost = none ∧ c.mem.tohostValue = none

/-- What the next step looks at besides the state of the flat machine. -/
structure Still (c x : Cpu) : Prop where
  csrs : x.csrs = c.csrs
  privMode : x.privMode = c.privMode
  cycle : x.cycle = c.cycle
  unreported : Unreported c → Unreported x

/-- A program of the hart does what the flat machine does. -/
def RunsTo {w : ℕ} (V : View) (profile : Profile) (prog : Hart Unit) (c : Cpu)
    (s : State w) : Prop :=
  ∃ x, prog profile c = some (.ok (), x) ∧ Hosts V x s ∧ Still c x

section Hosts

variable {w : ℕ} {V : View} {c x : Cpu} {s : State w}

theorem xlen_bits (xlen : Xlen) : xlen.bits = 32 ∨ xlen.bits = 64 := by
  cases xlen
  · exact Or.inl rfl
  · exact Or.inr rfl

theorem Hosts.widths (h : Hosts V c s) : w = 32 ∨ w = 64 := by
  rw [← h.width]
  exact xlen_bits c.xlen

theorem Hosts.le (h : Hosts V c s) : w ≤ 64 := by
  rcases h.widths with rfl | rfl <;> decide

theorem Hosts.pos (h : Hosts V c s) : 0 < w := by
  rcases h.widths with rfl | rfl <;> decide

theorem Hosts.xbits (h : Hosts V c s) : c.xbits = w := h.width

theorem Hosts.word (h : Hosts V c s) {r : Fin 32} {r' : BitVec 5}
    (hr : r.val = r'.toNat) : (c.rr r).setWidth w = s.reg r' := by
  have hfin : r = r'.toFin := Fin.ext hr
  rw [hfin, h.regs, setWidth_setWidth_of_le _ h.le, BitVec.setWidth_eq]

theorem Hosts.rr (h : Hosts V c s) {r : Fin 32} {r' : BitVec 5}
    (hr : r.val = r'.toNat) : c.rr r = (s.reg r').setWidth 64 := by
  have hfin : r = r'.toFin := Fin.ext hr
  rw [hfin]
  exact h.regs r'

theorem Still.refl (c : Cpu) : Still c c :=
  ⟨rfl, rfl, rfl, id⟩

theorem Still.trans {y : Cpu} (hfirst : Still c x) (hsecond : Still x y) :
    Still c y :=
  ⟨hsecond.csrs.trans hfirst.csrs, hsecond.privMode.trans hfirst.privMode,
    hsecond.cycle.trans hfirst.cycle, hsecond.unreported ∘ hfirst.unreported⟩

/-- An access that leaves its memory as the flat machine has it. -/
theorem Beside.hosts (hside : Beside c x) (h : Hosts V c s)
    (hshows : V.Shows x s.ram) : Hosts V x s := by
  have hrr : ∀ r, x.rr r = c.rr r := fun r =>
    (congrArg (fun c => c.rr r) hside.frame :)
  have hxlen : x.xlen = c.xlen := (congrArg Cpu.xlen hside.frame :)
  have hpc : x.pc = c.pc := (congrArg Cpu.pc hside.frame :)
  refine ⟨hxlen ▸ h.width, fun r => (hrr r.toFin).trans (h.regs r), ?_, ?_,
    ?_, h.layout, hshows⟩
  · rw [hpc, h.pc]
  · rw [hpc]
    exact h.near
  · rw [← h.reserved]
    exact (congrArg Cpu.reservation hside.frame :)

theorem Beside.still (hside : Beside c x) : Still c x := by
  have htohost : x.mem.tohost = c.mem.tohost :=
    (congrArg (fun c => c.mem.tohost) hside.frame :)
  have hshutdown : x.shutdown = c.shutdown :=
    (congrArg Cpu.shutdown hside.frame :)
  refine ⟨?_, ?_, ?_, ?_⟩
  · rw [hside.frame]
  · rw [hside.frame]
  · rw [hside.frame]
  · rintro ⟨hrunning, hnone, hvalue⟩
    exact ⟨hshutdown.trans hrunning, htohost.trans hnone,
      (hside.silent hnone).trans hvalue⟩

theorem Hosts.goto (h : Hosts V c s) {pc : BitVec 64} {target : BitVec w}
    (hpc : pc.setWidth w = target) (hnear : Near (s.goto target) pc) :
    Hosts V { c with pc := pc } (s.goto target) :=
  ⟨h.width, h.regs, hpc, hnear, h.reserved, h.layout,
    V.congr h.shows ⟨rfl, rfl, rfl, rfl, rfl, rfl⟩⟩

theorem setReg_still (c : Cpu) (r : Fin 32) (v : BitVec 64) :
    Still c (c.setReg r v) := by
  unfold setReg
  split <;> exact ⟨rfl, rfl, rfl, id⟩

theorem setReg_rr (c : Cpu) (r r' : Fin 32) (v : BitVec 64) :
    (c.setReg r v).rr r' =
      if r' = r ∧ r ≠ 0 then trunc v c.xbits else c.rr r' := by
  unfold setReg rr
  by_cases hzero : r = 0
  · simp [hzero]
  · by_cases hsame : r' = r
    · subst hsame
      simp [hzero]
    · simp [hzero, hsame]

theorem Hosts.set (h : Hosts V c s) {r : Fin 32} {r' : BitVec 5}
    (hr : r.val = r'.toNat) {v : BitVec 64} {v' : BitVec w}
    (hv : v.setWidth w = v') : Hosts V (c.setReg r v) (s.set r' v') := by
  have hfin : r = r'.toFin := Fin.ext hr
  have hframe : c.setReg r v = { c with regs := (c.setReg r v).regs } := by
    unfold setReg
    split <;> rfl
  refine ⟨?_, fun q => ?_, ?_, ?_, ?_, ?_, ?_⟩
  · rw [hframe]
    exact h.width
  · have hiff : q.toFin = r'.toFin ∧ r'.toFin ≠ 0 ↔ q = r' ∧ q ≠ 0 := by
      constructor
      · intro hq
        have hqr : q = r' := BitVec.eq_of_toFin_eq hq.1
        refine ⟨hqr, fun hzero => hq.2 ?_⟩
        rw [← hqr, hzero]
        rfl
      · rintro ⟨rfl, hne⟩
        exact ⟨rfl, fun hzero => hne (BitVec.eq_of_toFin_eq hzero)⟩
    rw [setReg_rr, hfin, h.xbits, trunc_word v h.le, hv, State.set_reg]
    by_cases hq : q = r' ∧ q ≠ 0
    · rw [if_pos (hiff.mpr hq), if_pos hq]
    · rw [if_neg (fun hfins => hq (hiff.mp hfins)), if_neg hq, h.regs]
  · rw [hframe]
    exact h.pc
  · rw [hframe]
    exact h.near.congr rfl rfl rfl
  · rw [hframe]
    exact h.reserved
  · exact h.layout
  · rw [hframe]
    exact V.congr h.shows ⟨rfl, rfl, rfl, rfl, rfl, rfl⟩

/-- A result in a register, where the pc has moved on. -/
theorem Hosts.wr {next : BitVec w} (h : Hosts V c (s.goto next)) {r : Fin 32}
    {r' : BitVec 5} (hr : r.val = r'.toNat) {v : BitVec 64} {v' : BitVec w}
    (hv : v.setWidth w = v') (profile : Profile) :
    RunsTo V profile (Cpu.wr r v) c (s.result r' v' next) :=
  ⟨c.setReg r v, rfl, h.set hr hv, setReg_still c r v⟩

end Hosts

/-! ## Operands -/

section Operands

variable {w : ℕ} (hw : w ≤ 64)

include hw

theorem widen_word (v : BitVec 32) : (widen v).setWidth w = v.signExtend w :=
  setWidth_signExtend v hw

theorem setWidth_not (v : BitVec 64) :
    (~~~v).setWidth w = ~~~(v.setWidth w) := by
  apply BitVec.eq_of_getLsbD_eq
  intro i hi
  have hin : i < 64 := by omega
  simp [hi, hin]

theorem signExtend_sum (a : BitVec 64) (v : BitVec 32) :
    (a + widen v).setWidth w = a.setWidth w + v.signExtend w := by
  rw [BitVec.setWidth_add _ _ hw, widen_word hw]

end Operands

theorem signExtend_twice {w k : ℕ} (hk : k ≤ 32) (hw : 32 ≤ w)
    (v : BitVec k) : (v.signExtend 32).signExtend w = v.signExtend w := by
  apply BitVec.eq_of_toInt_eq
  rw [BitVec.toInt_signExtend_of_le hw, BitVec.toInt_signExtend_of_le hk,
    BitVec.toInt_signExtend_of_le (hk.trans hw)]

section Instructions

variable {w : ℕ} {V : View} {c : Cpu} {s s' : State w} {next : BitVec w}
  {profile : Profile} {inst : BitVec 32}

theorem Hosts.wide (h : Hosts V c s) : 32 ≤ w := by
  rcases h.widths with rfl | rfl <;> decide

theorem RunsTo.of_ok {prog : Hart Unit} {x : Cpu} (hhosts : Hosts V x s)
    (hstill : Still c x) (hrun : prog profile c = some (.ok (), x)) :
    RunsTo V profile prog c s :=
  ⟨x, hrun, hhosts, hstill⟩

theorem RunsTo.bind {α : Type} {first : Hart α} {rest : α → Hart Unit}
    {value : α} {x : Cpu} (hfirst : first profile c = some (.ok value, x))
    (hstill : Still c x) (hrest : RunsTo V profile (rest value) x s) :
    RunsTo V profile (first >>= rest) c s := by
  obtain ⟨y, hrun, hhosts, hlast⟩ := hrest
  exact ⟨y, (Program.bind_run_ok hfirst).trans hrun, hhosts,
    hstill.trans hlast⟩

theorem RunsTo.read {α : Type} {project : Cpu → α} {rest : α → Hart Unit}
    (hrest : RunsTo V profile (rest (project c)) c s) :
    RunsTo V profile (Program.read project >>= rest) c s :=
  RunsTo.bind (Program.read_run _ _ _) (Still.refl c) hrest

theorem RunsTo.check {α : Type} {value : Checked α} {rest : α → Hart Unit}
    {v : α} (hvalue : value profile = some v)
    (hrest : RunsTo V profile (rest v) c s) :
    RunsTo V profile (Program.check value >>= rest) c s :=
  RunsTo.bind (Program.check_run_some hvalue c) (Still.refl c) hrest

/-- A direct jump from memory either stays in the address space or does not
come back to memory. -/
theorem jal_near (hw : w = 32 ∨ w = 64) (hclear : s.Clear)
    (hholds : s.Holds .fetch s.pc 4) {pc distance : BitVec 64}
    (hpc : pc.toNat = s.pc.toNat) {offset : BitVec 21}
    (hdistance : distance.toInt = offset.toInt) :
    Near (s.goto ((pc + distance).setWidth w)) (pc + distance) := by
  obtain ⟨hbase, hend, hfits, -⟩ := hholds
  have hlow := BitVec.le_toInt offset
  have hhigh := @BitVec.toInt_lt 21 offset
  have hsum := BitVec.toNat_add pc distance
  rw [hpc] at hsum
  rw [BitVec.toInt_eq_toNat_cond] at hdistance
  rcases hw with rfl | rfl
  · have hroom := hclear rfl
    constructor
    · change _ ∨ s.layout.base < _ ∧ _
      split at hdistance <;> omega
    · rintro ⟨hfrom, hto⟩
      change s.layout.base ≤ ((pc + distance).setWidth 32).toNat at hfrom
      change ((pc + distance).setWidth 32).toNat <
        s.layout.base + s.ram.len at hto
      rw [BitVec.toNat_setWidth] at hfrom hto
      split at hdistance <;> omega
  · exact .of_lt (BitVec.isLt _)

theorem executeJal_runsTo (h : Hosts V c (s.goto next)) {r : BitVec 5}
    (hrd : (rd inst).val = r.toNat) {offset : BitVec 21}
    (himm : immJ inst = offset.signExtend 32) {instPc nextPc : BitVec 64}
    (hplace : instPc = s.pc.setWidth 64) (hclear : s.Clear)
    (hholds : s.Holds .fetch s.pc 4) (hnext : nextPc.setWidth w = next) :
    RunsTo V profile (executeJal inst instPc nextPc) c
      (s.result r next (s.pc + offset.signExtend w)) := by
  have hnat : instPc.toNat = s.pc.toNat := by
    rw [hplace, BitVec.toNat_setWidth_of_le h.le]
  have hoffset : (widen (immJ inst)).toInt = offset.toInt := by
    unfold widen
    rw [himm, BitVec.toInt_signExtend_of_le (by decide),
      BitVec.toInt_signExtend_of_le (by decide)]
  have htarget : (instPc + widen (immJ inst)).setWidth w =
      s.pc + offset.signExtend w := by
    rw [signExtend_sum h.le, himm, signExtend_twice (by decide) h.wide, hplace,
      setWidth_setWidth_of_le _ h.le, BitVec.setWidth_eq]
  have hnear := jal_near h.widths hclear hholds hnat hoffset
  rw [htarget] at hnear
  unfold executeJal
  refine RunsTo.bind rfl (setReg_still c _ _) ?_
  exact ⟨_, rfl, (h.set hrd hnext).goto htarget
    (hnear.congr rfl rfl rfl), rfl, rfl, rfl, id⟩

theorem executeJalr_runsTo (h : Hosts V c (s.goto next)) {r r₁ : BitVec 5}
    (hrd : (rd inst).val = r.toNat) (hrs1 : (rs1 inst).val = r₁.toNat)
    {imm : BitVec 12} (himm : immI inst = imm.signExtend 32)
    {nextPc : BitVec 64} (hnext : nextPc.setWidth w = next) :
    RunsTo V profile (executeJalr inst nextPc) c
      (s.result r next ((s.reg r₁ + imm.signExtend w) &&& ~~~1)) := by
  have hone : (1 : BitVec 64).setWidth w = 1 :=
    BitVec.setWidth_ofNat_of_le h.le 1
  have htarget : ((c.rr (rs1 inst) + widen (immI inst)) &&& ~~~1).setWidth w =
      (s.reg r₁ + imm.signExtend w) &&& ~~~1 := by
    rw [BitVec.setWidth_and, setWidth_not h.le, hone, signExtend_sum h.le, himm,
      signExtend_twice (by decide) h.wide, h.word hrs1]
    rfl
  unfold executeJalr
  apply RunsTo.read
  refine RunsTo.bind rfl (setReg_still c _ _) ?_
  refine ⟨_, rfl, (h.set hrd hnext).goto ?_ ?_, rfl, rfl, rfl, id⟩
  · rw [id, h.xbits, trunc_word _ h.le, htarget, setWidth_setWidth_of_le _ h.le,
      BitVec.setWidth_eq]
  · rw [id, h.xbits, trunc_word _ h.le]
    apply Near.of_lt
    rw [BitVec.toNat_setWidth_of_le h.le]
    exact BitVec.isLt _

/-- A condition holds of two words where the branch unit takes it of their
zero and sign extensions. -/
theorem branchTaken_holds (hw : w ≤ 64) (cond : Cond) (a b : BitVec w) :
    branchTaken (cond.funct3.setWidth 32) (a.setWidth 64) (b.setWidth 64)
      (a.signExtend 64) (b.signExtend 64) = some (cond.holds a b) := by
  have heq : (a.setWidth 64 == b.setWidth 64) = (a == b) := by
    rw [Bool.eq_iff_iff, beq_iff_eq, beq_iff_eq, setWidth_inj hw]
  have hne : (a.setWidth 64 != b.setWidth 64) = (a != b) := by
    rw [bne, bne, heq]
  have hslt : (a.signExtend 64).slt (b.signExtend 64) =
      decide (a.toInt < b.toInt) := by
    rw [BitVec.slt, BitVec.toInt_signExtend_of_le hw,
      BitVec.toInt_signExtend_of_le hw]
  have hlt : ∀ a b : BitVec w, decide (a.setWidth 64 < b.setWidth 64) =
      decide (a.toNat < b.toNat) := by
    intro a b
    rw [decide_eq_decide, BitVec.lt_def, BitVec.toNat_setWidth_of_le hw,
      BitVec.toNat_setWidth_of_le hw]
  have hle : decide (b.setWidth 64 ≤ a.setWidth 64) =
      decide (b.toNat ≤ a.toNat) := by
    rw [decide_eq_decide, BitVec.le_def, BitVec.toNat_setWidth_of_le hw,
      BitVec.toNat_setWidth_of_le hw]
  cases cond with
  | eq => exact congrArg some heq
  | ne => exact congrArg some hne
  | lt => exact congrArg some hslt
  | ge =>
      refine congrArg some ?_
      rw [hslt, Cond.holds, ← decide_not, decide_eq_decide, not_lt]
  | ltu => exact congrArg some (hlt a b)
  | geu => exact congrArg some hle

theorem executeBranch_runsTo (h : Hosts V c (s.goto next)) {r₁ r₂ : BitVec 5}
    (hrs1 : (rs1 inst).val = r₁.toNat) (hrs2 : (rs2 inst).val = r₂.toNat)
    {cond : Cond} (hf3 : funct3 inst = cond.funct3.setWidth 32)
    {offset : BitVec 13} (himm : immB inst = offset.signExtend 32)
    {instPc : BitVec 64} (hplace : instPc = s.pc.setWidth 64) :
    RunsTo V profile (executeBranch inst instPc) c
      (s.goto (if cond.holds (s.reg r₁) (s.reg r₂) then
        s.pc + offset.signExtend w else next)) := by
  have hsext : ∀ {r : Fin 32} {r' : BitVec 5}, r.val = r'.toNat →
      c.rs r = pure ((s.reg r').signExtend 64) := by
    intro r r' hr
    unfold Cpu.rs
    rw [h.xbits, sext_word _ h.pos h.le, h.word hr]
    rfl
  have hfirst : c.rr (rs1 inst) = (s.reg r₁).setWidth 64 := h.rr hrs1
  have hsecond : c.rr (rs2 inst) = (s.reg r₂).setWidth 64 := h.rr hrs2
  have htaken := branchTaken_holds h.le cond (s.reg r₁) (s.reg r₂)
  rw [← hf3, ← hfirst, ← hsecond] at htaken
  unfold executeBranch
  apply RunsTo.read
  rw [id, hsext hrs1, hsext hrs2]
  apply RunsTo.check rfl
  apply RunsTo.check rfl
  rw [htaken]
  dsimp only
  have htarget : (instPc + widen (immB inst)).setWidth w =
      s.pc + offset.signExtend w := by
    rw [signExtend_sum h.le, himm, signExtend_twice (by decide) h.wide, hplace,
      setWidth_setWidth_of_le _ h.le, BitVec.setWidth_eq]
  by_cases hholds : cond.holds (s.reg r₁) (s.reg r₂) = true
  · rw [if_pos hholds, if_pos hholds]
    refine ⟨_, rfl, h.goto ?_ ?_, rfl, rfl, rfl, id⟩
    · rw [h.xbits, trunc_word _ h.le, htarget, setWidth_setWidth_of_le _ h.le,
        BitVec.setWidth_eq]
    · rw [h.xbits, trunc_word _ h.le]
      apply Near.of_lt
      rw [BitVec.toNat_setWidth_of_le h.le]
      exact BitVec.isLt _
  · rw [if_neg hholds, if_neg hholds]
    exact ⟨c, rfl, h, Still.refl c⟩

theorem loadForm_funct3 {form : Load} {xlen : Xlen}
    (hwide : form.IsWide → xlen.bits = 64) :
    loadForm (form.funct3.setWidth 32) xlen = some (form.size, form.width) := by
  cases xlen with
  | rv64 => cases form <;> rfl
  | rv32 =>
      cases form with
      | ld => cases hwide (Or.inl rfl)
      | lwu => cases hwide (Or.inr rfl)
      | _ => rfl

theorem storeSize_funct3 {form : Store} {xlen : Xlen}
    (hwide : form = .sd → xlen.bits = 64) :
    storeSize (form.funct3.setWidth 32) xlen = some form.size := by
  cases xlen with
  | rv64 => cases form <;> rfl
  | rv32 =>
      cases form with
      | sd => cases hwide rfl
      | _ => rfl

/-- The sign extension at the width of a load is the value of the load. -/
theorem extend_width (hw : w ≤ 64) (form : Load) (v : BitVec 64) :
    ((v.setWidth form.width).signExtend 64).setWidth w = form.extend w v := by
  cases form with
  | lb => exact setWidth_signExtend _ hw
  | lh => exact setWidth_signExtend _ hw
  | lw => exact setWidth_signExtend _ hw
  | _ =>
      unfold Load.width Load.extend
      rw [BitVec.setWidth_eq, BitVec.signExtend_eq]

/-- Where an address lies in memory, as the hart has it. -/
theorem Hosts.index (h : Hosts V c s) (addr : BitVec w) :
    (addr.setWidth 64).toNat - V.layout.base = s.index addr := by
  rw [BitVec.toNat_setWidth_of_le h.le, ← h.layout]
  rfl

/-- Where the flat machine has memory the view covers it. -/
theorem Hosts.covers (h : Hosts V c (s.goto next)) {access : Access}
    {addr : BitVec w} {size : ℕ} (hholds : s.Holds access addr size) :
    Covers V.layout s.ram access (addr.setWidth 64) size := by
  obtain ⟨hbase, hend, hfits, hallowed⟩ := hholds
  have hnat : (addr.setWidth 64).toNat = addr.toNat :=
    BitVec.toNat_setWidth_of_le h.le
  have hlayout : V.layout = s.layout := h.layout.symm
  have hpow : 2 ^ w ≤ 2 ^ 64 := Nat.pow_le_pow_right (by decide) h.le
  refine ⟨?_, ?_, ?_, ?_⟩
  · rw [hnat, hlayout]
    exact hbase
  · rw [hnat, hlayout]
    exact hend
  · omega
  · rw [hnat, hlayout]
    exact hallowed

theorem dataAddress (h : Hosts V c (s.goto next)) {r : Fin 32} {r' : BitVec 5}
    (hr : r.val = r'.toNat) {imm : BitVec 12} {v : BitVec 32}
    (himm : v = imm.signExtend 32) :
    trunc (c.rr r + widen v) c.xbits =
      (s.reg r' + imm.signExtend w).setWidth 64 := by
  rw [h.xbits, trunc_word _ h.le, signExtend_sum h.le, himm,
    signExtend_twice (by decide) h.wide, h.word hr]
  rfl

theorem executeLoad_runsTo (h : Hosts V c (s.goto next)) {r r₁ : BitVec 5}
    (hrd : (rd inst).val = r.toNat) (hrs1 : (rs1 inst).val = r₁.toNat)
    {form : Load} (hf3 : funct3 inst = form.funct3.setWidth 32)
    (hwide : form.IsWide → w = 64) {imm : BitVec 12}
    (himm : immI inst = imm.signExtend 32)
    (hholds : s.Holds .load (s.reg r₁ + imm.signExtend w) form.size) :
    RunsTo V profile (executeLoad inst) c
      (s.result r (form.extend w (s.load (s.reg r₁ + imm.signExtend w)
        form.size)) next) := by
  have hvalid : Memory.validSize form.size = true := by cases form <;> rfl
  obtain ⟨x, hread, hx, hshows⟩ :=
    V.load profile h.shows (h.covers hholds) hvalid
  rw [h.index] at hread
  have hform :
      loadForm (funct3 inst) c.xlen = some (form.size, form.width) := by
    rw [hf3]
    exact loadForm_funct3 fun hform => h.width.trans (hwide hform)
  have hwidth : 0 < form.width ∧ form.width ≤ 64 := by
    cases form <;> decide
  unfold executeLoad
  apply RunsTo.read
  rw [id, hform, dataAddress h hrs1 himm]
  dsimp only
  refine RunsTo.bind hread hx.still ?_
  apply RunsTo.check (congrFun (sext_word _ hwidth.1 hwidth.2) profile)
  exact (hx.hosts h hshows).wr hrd (extend_width h.le form _) profile

/-- Only the bytes that are stored count. -/
theorem storeLe_congr (dram : Dram) (i : ℕ) {count : ℕ} {v v' : BitVec 64}
    (hv : v.setWidth (8 * count) = v'.setWidth (8 * count)) :
    dram.storeLe i count v = dram.storeLe i count v' := by
  have hbyte : ∀ k < count, Dram.leByte v k = Dram.leByte v' k := by
    intro k hk
    apply BitVec.eq_of_getLsbD_eq
    intro j hj
    have hbit := congrArg (fun x => x.getLsbD (8 * k + j)) hv
    have hin : 8 * k + j < 8 * count := by omega
    simp only [BitVec.getLsbD_setWidth, hin, decide_true, Bool.true_and]
      at hbit
    rw [Dram.getLsbD_leByte _ _ _ hj, Dram.getLsbD_leByte _ _ _ hj, hbit]
  simp only [Dram.storeLe, Dram.mk.injEq, true_and]
  funext j
  split
  · next hin => exact hbyte _ (by omega)
  · rfl

/-- What an access has stored is stored in the memory of the flat machine. -/
theorem Hosts.stored (h : Hosts V c s) {addr v : BitVec w} {size : ℕ} {x : Cpu}
    {value : BitVec 64} (hx : Beside c x)
    (hshows : V.Shows x (s.ram.storeLe
      ((addr.setWidth 64).toNat - V.layout.base) size value))
    (hv : value.setWidth (8 * size) =
      (v.setWidth 64).setWidth (8 * size)) :
    Hosts V x (s.store addr size v) := by
  have hrr : ∀ q, x.rr q = c.rr q := fun q =>
    (congrArg (fun c => c.rr q) hx.frame :)
  have hxlen : x.xlen = c.xlen := (congrArg Cpu.xlen hx.frame :)
  have hpc : x.pc = c.pc := (congrArg Cpu.pc hx.frame :)
  have hreserved : x.reservation = c.reservation :=
    (congrArg Cpu.reservation hx.frame :)
  rw [h.index, storeLe_congr _ _ hv] at hshows
  refine ⟨hxlen ▸ h.width, fun q => ?_, ?_, ?_, ?_, ?_, ?_⟩
  · rw [hrr, h.regs, State.store_reg]
  · rw [hpc, h.pc, State.store_pc]
  · rw [hpc]
    exact h.near.congr (State.store_layout _ _ _ _)
      (Dram.storeLe_len _ _ _ _) (State.store_pc _ _ _ _)
  · rw [hreserved, h.reserved, State.store_reserved]
  · rw [State.store_layout, h.layout]
  · rw [State.store_ram]
    exact hshows

theorem executeStore_runsTo (h : Hosts V c (s.goto next)) {r₁ r₂ : BitVec 5}
    (hrs1 : (rs1 inst).val = r₁.toNat) (hrs2 : (rs2 inst).val = r₂.toNat)
    {form : Store} (hf3 : funct3 inst = form.funct3.setWidth 32)
    (hwide : form = .sd → w = 64) {imm : BitVec 12}
    (himm : immS inst = imm.signExtend 32)
    (hholds : s.Holds .store (s.reg r₁ + imm.signExtend w) form.size) :
    RunsTo V profile (executeStore inst) c
      ((s.store (s.reg r₁ + imm.signExtend w) form.size
        (s.reg r₂)).goto next) := by
  have hvalid : Memory.validSize form.size = true := by cases form <;> rfl
  obtain ⟨x, hwrite, hx, hshows⟩ := V.store profile h.shows (h.covers hholds)
    hvalid ((s.reg r₂).setWidth 64)
  have hform : storeSize (funct3 inst) c.xlen = some form.size := by
    rw [hf3]
    exact storeSize_funct3 fun hform => h.width.trans (hwide hform)
  unfold executeStore
  apply RunsTo.read
  rw [id, hform, dataAddress h hrs1 himm, h.rr hrs2, State.goto_reg]
  have hstored := h.stored hx hshows rfl
  rw [State.store_goto] at hstored
  exact ⟨x, hwrite, hstored, hx.still⟩

/-- The width that the units work at. -/
def unitWidth (c : Cpu) (word : Prop) [Decidable word] : ℕ :=
  if word then 32 else c.xbits

theorem unitWidth_range (c : Cpu) (word : Prop) [Decidable word] :
    c.unitWidth word = 32 ∨ c.unitWidth word = 64 := by
  unfold unitWidth
  split
  · exact Or.inl rfl
  · exact xlen_bits c.xlen

theorem alu_answers (profile : Profile) {n : ℕ} (hn : n = 32 ∨ n = 64)
    {f3 f7 : BitVec 32} {op : AluOp}
    (hop : AluOp.ofFields f3 f7 = some op) (a b : BitVec 64) :
    alu f3 f7 a b n profile =
      some (some ((op.eval (a.setWidth n) (b.setWidth n)).signExtend 64)) := by
  obtain ⟨k, hk⟩ : ∃ k, n = 2 ^ k := by
    rcases hn with rfl | rfl
    · exact ⟨5, rfl⟩
    · exact ⟨6, rfl⟩
  have heval := alu_eval (by omega) (by omega) profile hk f3 f7 a b
  rwa [hop] at heval

/-- A value of a unit, taken at the width of the hart. -/
theorem setWidth_result (hw : w ≤ 64) {n : ℕ} (hn : n = w ∨ w = 64)
    (v : BitVec n) : (v.signExtend 64).setWidth w = v.signExtend w := by
  rcases hn with rfl | rfl
  · rw [setWidth_signExtend_self hw, BitVec.signExtend_eq]
  · rw [BitVec.setWidth_eq]

theorem executeOpImm_run (profile : Profile) {op : AluOp} {b : BitVec 64}
    (hexists : ¬ (opcode inst = 0x1b ∧ c.xbits = 32))
    (hamount : ¬ ((funct3 inst = 0x1 ∨ funct3 inst = 0x5) ∧
      c.unitWidth (opcode inst = 0x1b) = 32 ∧ funct7 inst &&& 1 ≠ 0))
    (hb : (if funct3 inst = 0x1 ∨ funct3 inst = 0x5 then
      ((inst >>> 20) &&& 0x3f).setWidth 64 else widen (immI inst)) = b)
    (hop : AluOp.ofFields (funct3 inst)
      (if funct3 inst = 0x1 ∨ funct3 inst = 0x5 then funct7 inst &&& ~~~1
        else 0) = some op) :
    executeOpImm inst profile c = some (.ok (), c.setReg (rd inst)
      ((op.eval ((c.rr (rs1 inst)).setWidth (c.unitWidth (opcode inst = 0x1b)))
        (b.setWidth (c.unitWidth (opcode inst = 0x1b)))).signExtend 64)) := by
  have halu := alu_answers profile
    (c.unitWidth_range (opcode inst = 0x1b)) hop (c.rr (rs1 inst)) b
  unfold executeOpImm
  rw [Program.bind_run_ok (Program.read_run _ _ _)]
  dsimp only [id]
  rw [if_neg hexists]
  unfold unitWidth at hamount halu
  rw [if_neg hamount, hb, Program.bind_run_ok (Program.check_run_some halu c)]
  rfl

theorem executeOp_run (profile : Profile) {op : AluOp}
    (hexists : ¬ (opcode inst = 0x3b ∧ c.xbits = 32))
    (hunit : funct7 inst ≠ 0x01)
    (hop : AluOp.ofFields (funct3 inst) (funct7 inst) = some op) :
    executeOp inst profile c = some (.ok (), c.setReg (rd inst)
      ((op.eval ((c.rr (rs1 inst)).setWidth (c.unitWidth (opcode inst = 0x3b)))
        ((c.rr (rs2 inst)).setWidth
          (c.unitWidth (opcode inst = 0x3b)))).signExtend 64)) := by
  have halu := alu_answers profile
    (c.unitWidth_range (opcode inst = 0x3b)) hop (c.rr (rs1 inst))
    (c.rr (rs2 inst))
  unfold executeOp
  rw [Program.bind_run_ok (Program.read_run _ _ _)]
  dsimp only [id]
  rw [if_neg hexists, if_neg hunit]
  unfold unitWidth at halu
  rw [Program.bind_run_ok (Program.check_run_some halu c)]
  rfl

theorem executeOp_muldiv_run (profile : Profile) {op : MulOp}
    (hexists : ¬ (opcode inst = 0x3b ∧ c.xbits = 32))
    (hunit : funct7 inst = 0x01)
    (hop : MulOp.ofFields (funct3 inst) = some op) :
    executeOp inst profile c = some (.ok (), c.setReg (rd inst)
      ((op.eval ((c.rr (rs1 inst)).setWidth (c.unitWidth (opcode inst = 0x3b)))
        ((c.rr (rs2 inst)).setWidth
          (c.unitWidth (opcode inst = 0x3b)))).signExtend 64)) := by
  have hmuldiv := muldiv_eval (c.unitWidth_range (opcode inst = 0x3b)) profile
    (funct3 inst) (c.rr (rs1 inst)) (c.rr (rs2 inst))
  rw [hop] at hmuldiv
  unfold executeOp
  rw [Program.bind_run_ok (Program.read_run _ _ _)]
  dsimp only [id]
  rw [if_neg hexists, if_pos hunit]
  unfold unitWidth at hmuldiv
  rw [Program.bind_run_ok (Program.check_run_some hmuldiv c)]
  rfl

theorem Hosts.unitWidth (h : Hosts V c (s.goto next)) {word : Prop}
    [Decidable word] (hword : word → w = 64) :
    (c.unitWidth word = w ∨ w = 64) ∧ 32 ≤ c.unitWidth word ∧
      (word → c.unitWidth word = 32) ∧ (¬ word → c.unitWidth word = w) := by
  unfold Cpu.unitWidth
  by_cases his : word
  · rw [if_pos his]
    exact ⟨Or.inr (hword his), le_rfl, fun _ => rfl,
      fun hnot => absurd his hnot⟩
  · rw [if_neg his, h.xbits]
    exact ⟨Or.inl rfl, h.wide, fun h => absurd h his, fun _ => rfl⟩

theorem Hosts.narrow (h : Hosts V c s) {r : Fin 32} {r' : BitVec 5}
    (hr : r.val = r'.toNat) (n : ℕ) :
    (c.rr r).setWidth n = (s.reg r').setWidth n := by
  have hfin : r = r'.toFin := Fin.ext hr
  rw [hfin, h.regs, setWidth_setWidth_of_le _ h.le]

/-- Where the hart is wide, the word forms exist. -/
theorem Hosts.wordForm (h : Hosts V c s) {word : Prop} (hword : word → w = 64) :
    ¬ (word ∧ c.xbits = 32) := by
  rintro ⟨his, hbits⟩
  rw [h.xbits, hword his] at hbits
  cases hbits

variable {r r₁ r₂ : BitVec 5}

theorem executeOpImm_runsTo (h : Hosts V c (s.goto next))
    (hrd : (rd inst).val = r.toNat) (hrs1 : (rs1 inst).val = r₁.toNat)
    {n : ℕ} (hn : c.unitWidth (opcode inst = 0x1b) = n)
    (hword : opcode inst = 0x1b → w = 64) {op : AluOp} {b : BitVec n}
    (hamount : op.IsShift → n = 32 → funct7 inst &&& 1 = 0)
    (hf3 : funct3 inst = op.funct3.setWidth 32)
    (hshift : op.IsShift → funct7 inst &&& ~~~1 = op.funct7.setWidth 32 ∧
      (((inst >>> 20) &&& 0x3f).setWidth 64).setWidth n = b)
    (himm : ¬ op.IsShift → op ≠ .sub ∧ (widen (immI inst)).setWidth n = b) :
    RunsTo V profile (executeOpImm inst) c (s.result r
      ((op.eval ((s.reg r₁).setWidth n) b).signExtend w) next) := by
  have hiff : funct3 inst = 0x1 ∨ funct3 inst = 0x5 ↔ op.IsShift := by
    rw [hf3]
    exact op.isShift_iff
  have hfits : ¬ ((funct3 inst = 0x1 ∨ funct3 inst = 0x5) ∧
      c.unitWidth (opcode inst = 0x1b) = 32 ∧ funct7 inst &&& 1 ≠ 0) :=
    fun hall => hall.2.2 (hamount (hiff.mp hall.1) (hn ▸ hall.2.1))
  have hop : AluOp.ofFields (funct3 inst)
      (if funct3 inst = 0x1 ∨ funct3 inst = 0x5 then funct7 inst &&& ~~~1
        else 0) = some op := by
    by_cases his : op.IsShift
    · rw [if_pos (hiff.mpr his), (hshift his).1, hf3]
      exact op.ofFields_register
    · rw [if_neg fun hany => his (hiff.mp hany), hf3]
      exact AluOp.ofFields_immediate (himm his).1 his
  have hb : (if funct3 inst = 0x1 ∨ funct3 inst = 0x5 then
      ((inst >>> 20) &&& 0x3f).setWidth 64 else widen (immI inst)).setWidth n =
        b := by
    by_cases his : op.IsShift
    · rw [if_pos (hiff.mpr his)]
      exact (hshift his).2
    · rw [if_neg fun hany => his (hiff.mp hany)]
      exact (himm his).2
  have hrun := executeOpImm_run profile (h.wordForm hword) hfits
    rfl hop
  rw [hn, hb, h.narrow hrs1, State.goto_reg] at hrun
  refine RunsTo.of_ok (h.set hrd (setWidth_result h.le ?_ _))
    (setReg_still c _ _) hrun
  rw [← hn]
  exact (h.unitWidth hword).1

theorem executeOp_runsTo (h : Hosts V c (s.goto next))
    (hrd : (rd inst).val = r.toNat) (hrs1 : (rs1 inst).val = r₁.toNat)
    (hrs2 : (rs2 inst).val = r₂.toNat) {n : ℕ}
    (hn : c.unitWidth (opcode inst = 0x3b) = n)
    (hword : opcode inst = 0x3b → w = 64) {op : AluOp}
    (hf3 : funct3 inst = op.funct3.setWidth 32)
    (hf7 : funct7 inst = op.funct7.setWidth 32) :
    RunsTo V profile (executeOp inst) c (s.result r
      ((op.eval ((s.reg r₁).setWidth n) ((s.reg r₂).setWidth n)).signExtend w)
      next) := by
  have hunit : funct7 inst ≠ 0x01 := by
    rw [hf7]
    cases op <;> decide
  have hop : AluOp.ofFields (funct3 inst) (funct7 inst) = some op := by
    rw [hf3, hf7]
    exact op.ofFields_register
  have hrun := executeOp_run profile (h.wordForm hword) hunit hop
  rw [hn, h.narrow hrs1, h.narrow hrs2, State.goto_reg, State.goto_reg] at hrun
  refine RunsTo.of_ok (h.set hrd (setWidth_result h.le ?_ _))
    (setReg_still c _ _) hrun
  rw [← hn]
  exact (h.unitWidth hword).1

theorem executeOp_muldiv_runsTo (h : Hosts V c (s.goto next))
    (hrd : (rd inst).val = r.toNat) (hrs1 : (rs1 inst).val = r₁.toNat)
    (hrs2 : (rs2 inst).val = r₂.toNat) {n : ℕ}
    (hn : c.unitWidth (opcode inst = 0x3b) = n)
    (hword : opcode inst = 0x3b → w = 64) {op : MulOp}
    (hf3 : funct3 inst = op.funct3.setWidth 32) (hf7 : funct7 inst = 0x01) :
    RunsTo V profile (executeOp inst) c (s.result r
      ((op.eval ((s.reg r₁).setWidth n) ((s.reg r₂).setWidth n)).signExtend w)
      next) := by
  have hop : MulOp.ofFields (funct3 inst) = some op := by
    rw [hf3]
    exact op.ofFields_funct3
  have hrun := executeOp_muldiv_run profile (h.wordForm hword)
    hf7 hop
  rw [hn, h.narrow hrs1, h.narrow hrs2, State.goto_reg, State.goto_reg] at hrun
  refine RunsTo.of_ok (h.set hrd (setWidth_result h.le ?_ _))
    (setReg_still c _ _) hrun
  rw [← hn]
  exact (h.unitWidth hword).1

/-! ## Every instruction -/

/-- The amount of a word shift does not reach into the selector. -/
theorem shift_amount {op : AluOp} {shamt : BitVec 6}
    (hshamt : shamt.toNat < 32) :
    (op.funct7.extractLsb' 1 6 ++ shamt.extractLsb' 5 1).setWidth 32 &&& 1#32 =
      0 := by
  have htop : shamt.extractLsb' 5 1 = 0 := by
    apply BitVec.eq_of_toNat_eq
    rw [BitVec.extractLsb'_toNat, Nat.shiftRight_eq_div_pow]
    change shamt.toNat / 2 ^ 5 % 2 ^ 1 = 0
    omega
  rw [htop]
  cases op <;> decide

/-- The fields of a shift by an immediate. -/
theorem shift_fields (opc : BitVec 7) (op : AluOp) (rd rs1 : BitVec 5)
    (shamt : BitVec 6) {inst : BitVec 32}
    (hinst : inst = (Rvc.Base.i opc op.funct3 rd rs1
      (op.funct7.extractLsb' 1 6 ++ shamt)).encode) (n : ℕ) :
    funct7 inst &&& ~~~1 = op.funct7.setWidth 32 ∧
      (((inst >>> 20) &&& 0x3f).setWidth 64).setWidth n = shamt.setWidth n ∧
      (shamt.toNat < 32 → funct7 inst &&& 1 = 0) := by
  have hf7 : funct7 inst =
      (op.funct7.extractLsb' 1 6 ++ shamt.extractLsb' 5 1).setWidth 32 := by
    rw [hinst, Rvc.Base.funct7_immediate, op.shift_funct7]
  have hfield : (inst >>> 20) &&& 0x3f = shamt.setWidth 32 := by
    have hbits : inst.extractLsb' 20 6 = shamt := by
      rw [hinst, Rvc.Base.encode]
      simp (disch := decide) only [BitVec.extractLsb'_append_eq_of_le,
        BitVec.extractLsb'_append_eq_of_add_le]
      exact BitVec.extractLsb'_eq_self
    rw [← hbits]
    exact @shift_and_field 6 32 inst 20 (by decide)
  refine ⟨hf7 ▸ op.shift_selector _, ?_,
    fun hshamt => hf7 ▸ shift_amount hshamt⟩
  rw [hfield, setWidth_setWidth_of_le _ (by decide),
    setWidth_setWidth_of_le _ (by decide)]

/-! ## Atomics -/

section Atomics

theorem funct5_ofBits (op : AmoOp) :
    AmoOp.ofBits (op.funct5.setWidth 32) = some op := by
  cases op <;> rfl

theorem funct7_order (f5 : BitVec 5) (order : BitVec 2) :
    (f5 ++ order).setWidth 32 >>> 2 = f5.setWidth 32 := by
  apply BitVec.eq_of_getLsbD_eq
  intro i hi
  rw [BitVec.getLsbD_ushiftRight, BitVec.getLsbD_setWidth,
    BitVec.getLsbD_setWidth, BitVec.getLsbD_append]
  have hhigh : ¬ 2 + i < 2 := by omega
  have hindex : 2 + i - 2 = i := by omega
  by_cases hin : 2 + i < 32
  · simp [hi, hin, hhigh, hindex]
  · rw [BitVec.getLsbD_of_ge f5 i (by omega)]
    simp [hin]

theorem amoWidth_funct3 {form : Atom} {xlen : Xlen}
    (hwide : form = .double → xlen.bits = 64) :
    amoWidth (form.funct3.setWidth 32) xlen = some form.width := by
  cases xlen with
  | rv64 => cases form <;> rfl
  | rv32 =>
      cases form with
      | double => cases hwide rfl
      | word => rfl

theorem Atom.bits (form : Atom) :
    (form.width = 32 ∨ form.width = 64) ∧ 8 * form.size = form.width ∧
      Memory.validSize form.size = true := by
  cases form
  · exact ⟨Or.inl rfl, rfl, rfl⟩
  · exact ⟨Or.inr rfl, rfl, rfl⟩

variable {r r₁ r₂ : BitVec 5}

/-- A hart that makes or drops a reservation. -/
theorem Hosts.reserve (h : Hosts V c s) (addr : Option (BitVec w)) :
    Hosts V { c with reservation := addr.map (BitVec.setWidth 64) }
      (s.reserve addr) :=
  ⟨h.width, h.regs, h.pc, h.near.congr rfl rfl rfl, rfl, h.layout,
    V.congr h.shows ⟨rfl, rfl, rfl, rfl, rfl, rfl⟩⟩

theorem executeLr_runsTo (h : Hosts V c (s.goto next))
    (hrd : (rd inst).val = r.toNat) (hrs2 : rs2 inst = 0) {form : Atom}
    {addr : BitVec w} (hholds : s.Holds .load addr form.size) :
    RunsTo V profile (executeLr inst (addr.setWidth 64) form.width) c
      ((s.reserve (some addr)).result r ((s.word addr form).signExtend w)
        next) := by
  obtain ⟨hwidth, -, hvalid⟩ := Atom.bits form
  obtain ⟨x, hread, hx, hshows⟩ :=
    V.load profile h.shows (h.covers hholds) hvalid
  rw [h.index] at hread
  unfold executeLr
  rw [if_neg (not_not.mpr hrs2)]
  refine RunsTo.bind hread hx.still ?_
  apply RunsTo.check (congrFun (sext_word _ (by omega) (by omega)) profile)
  refine RunsTo.bind (x := { x with reservation := some (addr.setWidth 64) })
    rfl ⟨rfl, rfl, rfl, id⟩ ?_
  have hvalue : ((s.word addr form).signExtend 64).setWidth w =
      (s.word addr form).signExtend w := setWidth_signExtend _ h.le
  exact ((hx.hosts h hshows).reserve (some addr)).wr hrd hvalue profile

/-- The hart reserves what the flat machine reserves. -/
theorem Hosts.reserves_iff (h : Hosts V c s) (addr : BitVec w) :
    (c.reservation == some (addr.setWidth 64)) = true ↔
      s.reserved = some addr := by
  rw [beq_iff_eq, h.reserved]
  cases s.reserved with
  | none => exact ⟨nofun, nofun⟩
  | some held =>
      rw [Option.map_some, Option.some.injEq, Option.some.injEq,
        setWidth_inj h.le]

theorem executeSc_runsTo (h : Hosts V c (s.goto next))
    (hrd : (rd inst).val = r.toNat) (hrs2 : (rs2 inst).val = r₂.toNat)
    {form : Atom} {addr : BitVec w}
    (hexec : s.storeConditional form r addr (s.reg r₂) next = some s') :
    RunsTo V profile (executeSc inst (addr.setWidth 64) form.width) c s' := by
  have hbool : ∀ b, (boolWord b).setWidth w = if b then 1 else 0 :=
    setWidth_boolWord h.le
  have hiff : (c.reservation == some (addr.setWidth 64)) = true ↔
      s.reserved = some addr := h.reserves_iff addr
  unfold executeSc
  apply RunsTo.read
  rw [id, h.rr hrs2, State.goto_reg]
  by_cases hok : (c.reservation == some (addr.setWidth 64)) = true
  · obtain ⟨-, -, hvalid⟩ := Atom.bits form
    rw [State.storeConditional, if_pos (hiff.mp hok)] at hexec
    by_cases hholds : s.Holds .store addr form.size
    · rw [if_pos hholds] at hexec
      obtain rfl := Option.some.inj hexec
      obtain ⟨x, hwrite, hx, hshows⟩ := V.store profile h.shows
        (h.covers hholds) hvalid ((s.reg r₂).setWidth 64)
      have hstored := h.stored hx hshows rfl
      rw [State.store_goto] at hstored
      rw [if_pos hok, hok]
      refine RunsTo.bind hwrite hx.still ?_
      refine RunsTo.bind (x := { x with reservation := none }) rfl
        ⟨rfl, rfl, rfl, id⟩ ?_
      exact (hstored.reserve none).wr hrd (hbool false) profile
    · rw [if_neg hholds] at hexec
      cases hexec
  · rw [State.storeConditional, if_neg fun hsame => hok (hiff.mpr hsame)]
      at hexec
    obtain rfl := Option.some.inj hexec
    have hfalse := Bool.eq_false_iff.mpr hok
    rw [if_neg hok, hfalse]
    refine RunsTo.bind (x := { c with reservation := none }) rfl
      ⟨rfl, rfl, rfl, id⟩ ?_
    exact (h.reserve none).wr hrd (hbool true) profile

theorem executeRmw_runsTo (h : Hosts V c (s.goto next))
    (hrd : (rd inst).val = r.toNat) (hrs2 : (rs2 inst).val = r₂.toNat)
    {op : AmoOp} (hop : AmoOp.ofBits (funct7 inst >>> 2) = some op)
    {form : Atom} (hfits : form.width ≤ w) {addr : BitVec w}
    (hloads : s.Holds .load addr form.size)
    (hstores : s.Holds .store addr form.size) :
    RunsTo V profile (executeRmw inst (addr.setWidth 64) form.width) c
      ((s.store addr form.size ((op.eval (s.word addr form)
        ((s.reg r₂).setWidth form.width)).setWidth w)).result r
        ((s.word addr form).signExtend w) next) := by
  obtain ⟨hwidth, hbits, hvalid⟩ := Atom.bits form
  obtain ⟨x, hread, hx, hshows⟩ :=
    V.load profile h.shows (h.covers hloads) hvalid
  rw [h.index] at hread
  have hhosts := hx.hosts h hshows
  obtain ⟨new, hnew, heval⟩ := amoOp_eval (by omega) (by omega) hop
    (s.word addr form) (x.rr (rs2 inst))
  rw [hhosts.rr hrs2, State.goto_reg, setWidth_setWidth_of_le _ h.le] at heval
  obtain ⟨y, hwrite, hy, hwritten⟩ := V.store profile hhosts.shows
    (hhosts.covers hstores) hvalid new
  have hbytes : new.setWidth (8 * form.size) =
      (((op.eval (s.word addr form) ((s.reg r₂).setWidth
        form.width)).setWidth w).setWidth 64).setWidth (8 * form.size) := by
    rw [hbits, heval, setWidth_setWidth_of_le _ h.le,
      setWidth_setWidth_of_le _ hfits, BitVec.setWidth_eq]
  have hstored := hhosts.stored hy hwritten hbytes
  rw [State.store_goto] at hstored
  unfold executeRmw
  refine RunsTo.bind hread hx.still ?_
  apply RunsTo.check (congrFun (sext_word _ (by omega) (by omega)) profile)
  apply RunsTo.read
  apply RunsTo.check (congrFun hnew profile)
  refine RunsTo.bind hwrite hy.still ?_
  have hvalue : ((s.word addr form).signExtend 64).setWidth w =
      (s.word addr form).signExtend w := setWidth_signExtend _ h.le
  exact hstored.wr hrd hvalue profile

/-- The address and the width of an atomic instruction. -/
theorem executeAmo_runsTo (h : Hosts V c (s.goto next))
    (hrs1 : (rs1 inst).val = r₁.toNat) {form : Atom}
    (hf3 : funct3 inst = form.funct3.setWidth 32)
    (hwide : form = .double → w = 64)
    (haligned : (s.reg r₁).toNat % form.size = 0)
    (hrest : RunsTo V profile
      (if funct7 inst >>> 2 = 0x02 then
        executeLr inst ((s.reg r₁).setWidth 64) form.width
      else if funct7 inst >>> 2 = 0x03 then
        executeSc inst ((s.reg r₁).setWidth 64) form.width
      else executeRmw inst ((s.reg r₁).setWidth 64) form.width) c s') :
    RunsTo V profile (executeAmo inst) c s' := by
  have hform : amoWidth (funct3 inst) c.xlen = some form.width := by
    rw [hf3]
    exact amoWidth_funct3 fun hform => h.width.trans (hwide hform)
  have hplace : ¬ ((s.reg r₁).setWidth 64).toNat % (form.width / 8) ≠ 0 := by
    rw [BitVec.toNat_setWidth_of_le h.le]
    exact not_not.mpr haligned
  unfold executeAmo
  apply RunsTo.read
  rw [id, hform, h.rr hrs1, State.goto_reg]
  refine (congrArg (fun prog => RunsTo V profile prog c s')
    (if_neg hplace)).mpr ?_
  exact hrest

end Atomics

section Forms

open Rvc.Base

theorem opImm_runsTo (h : Hosts V c (s.goto next)) {op : AluOp}
    {imm : BitVec 12} (hlegal : (Instr.opImm op r r₁ imm).Legal w) :
    RunsTo V profile (executeOpImm (Instr.opImm op r r₁ imm).encode) c
      (s.result r (op.eval (s.reg r₁) (imm.signExtend w)) next) := by
  obtain ⟨hsub, hshift⟩ := hlegal
  have hop : opcode (Instr.opImm op r r₁ imm).encode = 0x13 := opcode_encode _
  have hword : ¬ opcode (Instr.opImm op r r₁ imm).encode = 0x1b := by
    rw [hop]
    decide
  have himm : (widen (immI (Instr.opImm op r r₁ imm).encode)).setWidth w =
      imm.signExtend w := by
    rw [Instr.encode, Instr.base, immI_encode, widen_word h.le,
      signExtend_twice (by decide) h.wide]
  have hreach : RunsTo V profile (executeOpImm _) c (s.result r
      ((op.eval ((s.reg r₁).setWidth w) (imm.signExtend w)).signExtend w)
      next) :=
    executeOpImm_runsTo h (rd_encode rfl) (rs1_encode rfl)
      ((h.unitWidth fun his => absurd his hword).2.2.2 hword)
      (fun his => absurd his hword) (fun his => absurd his hshift)
      (funct3_encode _ rfl) (fun his => absurd his hshift)
      fun _ => ⟨hsub, himm⟩
  rwa [BitVec.setWidth_eq, BitVec.signExtend_eq] at hreach

theorem shiftImm_runsTo (h : Hosts V c (s.goto next)) {op : AluOp}
    {shamt : BitVec 6} (hlegal : (Instr.shiftImm op r r₁ shamt).Legal w) :
    RunsTo V profile (executeOpImm (Instr.shiftImm op r r₁ shamt).encode) c
      (s.result r (op.eval (s.reg r₁) (shamt.setWidth w)) next) := by
  obtain ⟨hshift, hshamt⟩ := hlegal
  have hop : opcode (Instr.shiftImm op r r₁ shamt).encode = 0x13 :=
    opcode_encode _
  have hword : ¬ opcode (Instr.shiftImm op r r₁ shamt).encode = 0x1b := by
    rw [hop]
    decide
  obtain ⟨hf7, hb, hamount⟩ := shift_fields 0x13 op r r₁ shamt rfl w
  have hreach : RunsTo V profile (executeOpImm _) c (s.result r
      ((op.eval ((s.reg r₁).setWidth w) (shamt.setWidth w)).signExtend w)
      next) :=
    executeOpImm_runsTo h (rd_encode rfl) (rs1_encode rfl)
      ((h.unitWidth fun his => absurd his hword).2.2.2 hword)
      (fun his => absurd his hword) (fun _ hn => hamount (hn ▸ hshamt))
      (funct3_encode _ rfl) (fun _ => ⟨hf7, hb⟩) fun hnot => absurd hshift hnot
  rwa [BitVec.setWidth_eq, BitVec.signExtend_eq] at hreach

theorem opReg_runsTo (h : Hosts V c (s.goto next)) (op : AluOp) :
    RunsTo V profile (executeOp (Instr.opReg op r r₁ r₂).encode) c
      (s.result r (op.eval (s.reg r₁) (s.reg r₂)) next) := by
  have hop : opcode (Instr.opReg op r r₁ r₂).encode = 0x33 := opcode_encode _
  have hword : ¬ opcode (Instr.opReg op r r₁ r₂).encode = 0x3b := by
    rw [hop]
    decide
  have hreach : RunsTo V profile (executeOp _) c (s.result r
      ((op.eval ((s.reg r₁).setWidth w) ((s.reg r₂).setWidth w)).signExtend w)
      next) :=
    executeOp_runsTo h (rd_encode rfl) (rs1_encode rfl) (rs2_encode rfl)
      ((h.unitWidth fun his => absurd his hword).2.2.2 hword)
      (fun his => absurd his hword) (funct3_encode _ rfl)
      (funct7_register ..)
  rwa [BitVec.setWidth_eq, BitVec.setWidth_eq, BitVec.signExtend_eq] at hreach

theorem mulDiv_runsTo (h : Hosts V c (s.goto next)) (op : MulOp) :
    RunsTo V profile (executeOp (Instr.mulDiv op r r₁ r₂).encode) c
      (s.result r (op.eval (s.reg r₁) (s.reg r₂)) next) := by
  have hop : opcode (Instr.mulDiv op r r₁ r₂).encode = 0x33 := opcode_encode _
  have hword : ¬ opcode (Instr.mulDiv op r r₁ r₂).encode = 0x3b := by
    rw [hop]
    decide
  have hreach : RunsTo V profile (executeOp _) c (s.result r
      ((op.eval ((s.reg r₁).setWidth w) ((s.reg r₂).setWidth w)).signExtend w)
      next) :=
    executeOp_muldiv_runsTo h (rd_encode rfl) (rs1_encode rfl) (rs2_encode rfl)
      ((h.unitWidth fun his => absurd his hword).2.2.2 hword)
      (fun his => absurd his hword) (funct3_encode _ rfl)
      (funct7_register ..)
  rwa [BitVec.setWidth_eq, BitVec.setWidth_eq, BitVec.signExtend_eq] at hreach

theorem addiw_runsTo (h : Hosts V c (s.goto next)) {imm : BitVec 12}
    (hwide : w = 64) :
    RunsTo V profile (executeOpImm (Instr.addiw r r₁ imm).encode) c
      (s.result r (((s.reg r₁).setWidth 32 +
        imm.signExtend 32).signExtend w) next) := by
  have hop : opcode (Instr.addiw r r₁ imm).encode = 0x1b := opcode_encode _
  have hshift : ¬ AluOp.add.IsShift := by decide
  have himm : (widen (immI (Instr.addiw r r₁ imm).encode)).setWidth 32 =
      imm.signExtend 32 := by
    rw [Instr.encode, Instr.base, immI_encode, widen_word (by decide),
      BitVec.signExtend_eq]
  have hreach : RunsTo V profile (executeOpImm _) c (s.result r
      ((AluOp.add.eval ((s.reg r₁).setWidth 32)
        (imm.signExtend 32)).signExtend w) next) :=
    executeOpImm_runsTo h (rd_encode rfl) (rs1_encode rfl)
      ((h.unitWidth fun _ => hwide).2.2.1 hop) (fun _ => hwide)
      (fun his => absurd his hshift) (funct3_encode _ rfl)
      (fun his => absurd his hshift) fun _ => ⟨AluOp.noConfusion, himm⟩
  exact hreach

theorem shiftImmWord_runsTo (h : Hosts V c (s.goto next)) {op : AluOp}
    {shamt : BitVec 6} (hlegal : (Instr.shiftImmWord op r r₁ shamt).Legal w) :
    RunsTo V profile (executeOpImm (Instr.shiftImmWord op r r₁ shamt).encode) c
      (s.result r ((op.eval ((s.reg r₁).setWidth 32)
        (shamt.setWidth 32)).signExtend w) next) := by
  obtain ⟨hwide, hshift, hshamt⟩ := hlegal
  have hop : opcode (Instr.shiftImmWord op r r₁ shamt).encode = 0x1b :=
    opcode_encode _
  obtain ⟨hf7, hb, hamount⟩ := shift_fields 0x1b op r r₁ shamt rfl 32
  exact executeOpImm_runsTo h (rd_encode rfl) (rs1_encode rfl)
    ((h.unitWidth fun _ => hwide).2.2.1 hop) (fun _ => hwide)
    (fun _ _ => hamount hshamt) (funct3_encode _ rfl) (fun _ => ⟨hf7, hb⟩)
    fun hnot => absurd hshift hnot

theorem opWord_runsTo (h : Hosts V c (s.goto next)) (hwide : w = 64)
    (op : AluOp) :
    RunsTo V profile (executeOp (Instr.opWord op r r₁ r₂).encode) c
      (s.result r ((op.eval ((s.reg r₁).setWidth 32)
        ((s.reg r₂).setWidth 32)).signExtend w) next) := by
  have hop : opcode (Instr.opWord op r r₁ r₂).encode = 0x3b := opcode_encode _
  exact executeOp_runsTo h (rd_encode rfl) (rs1_encode rfl) (rs2_encode rfl)
    ((h.unitWidth fun _ => hwide).2.2.1 hop) (fun _ => hwide)
    (funct3_encode _ rfl) (funct7_register ..)

theorem mulDivWord_runsTo (h : Hosts V c (s.goto next)) (hwide : w = 64)
    (op : MulOp) :
    RunsTo V profile (executeOp (Instr.mulDivWord op r r₁ r₂).encode) c
      (s.result r ((op.eval ((s.reg r₁).setWidth 32)
        ((s.reg r₂).setWidth 32)).signExtend w) next) := by
  have hop : opcode (Instr.mulDivWord op r r₁ r₂).encode = 0x3b :=
    opcode_encode _
  exact executeOp_muldiv_runsTo h (rd_encode rfl) (rs1_encode rfl)
    (rs2_encode rfl) ((h.unitWidth fun _ => hwide).2.2.1 hop)
    (fun _ => hwide) (funct3_encode _ rfl) (funct7_register ..)

theorem lr_runsTo (h : Hosts V c (s.goto next)) {form : Atom}
    {order : BitVec 2} (hlegal : (Instr.lr form r r₁ order).Legal w)
    (hexec : s.exec next (.lr form r r₁ order) = some s') :
    RunsTo V profile (executeAmo (Instr.lr form r r₁ order).encode) c s' := by
  have hrs1 : (rs1 (Instr.lr form r r₁ order).encode).val = r₁.toNat :=
    rs1_encode rfl
  have hf3 : funct3 (Instr.lr form r r₁ order).encode =
      form.funct3.setWidth 32 :=
    funct3_encode _ rfl
  have hf7 : funct7 (Instr.lr form r r₁ order).encode >>> 2 = 0x02 := by
    rw [Instr.encode, Instr.base, funct7_register, funct7_order]
    rfl
  have hrs2 : rs2 (Instr.lr form r r₁ order).encode = 0 :=
    Fin.ext (rs2_encode rfl)
  by_cases hholds : (s.reg r₁).toNat % form.size = 0 ∧
      s.Holds .load (s.reg r₁) form.size
  · rw [State.exec, if_pos hholds] at hexec
    obtain rfl := Option.some.inj hexec
    apply executeAmo_runsTo h hrs1 hf3 hlegal hholds.1
    rw [if_pos hf7]
    exact executeLr_runsTo h (rd_encode rfl) hrs2 hholds.2
  · rw [State.exec, if_neg hholds] at hexec
    cases hexec

theorem sc_runsTo (h : Hosts V c (s.goto next)) {form : Atom}
    {order : BitVec 2} (hlegal : (Instr.sc form r r₁ r₂ order).Legal w)
    (hexec : s.exec next (.sc form r r₁ r₂ order) = some s') :
    RunsTo V profile (executeAmo (Instr.sc form r r₁ r₂ order).encode) c s' := by
  have hrs1 : (rs1 (Instr.sc form r r₁ r₂ order).encode).val = r₁.toNat :=
    rs1_encode rfl
  have hf3 : funct3 (Instr.sc form r r₁ r₂ order).encode =
      form.funct3.setWidth 32 :=
    funct3_encode _ rfl
  have hf7 : funct7 (Instr.sc form r r₁ r₂ order).encode >>> 2 = 0x03 := by
    rw [Instr.encode, Instr.base, funct7_register, funct7_order]
    rfl
  have hother : ¬ funct7 (Instr.sc form r r₁ r₂ order).encode >>> 2 = 0x02 := by
    rw [hf7]
    decide
  by_cases haligned : (s.reg r₁).toNat % form.size = 0
  · rw [State.exec, if_pos haligned] at hexec
    apply executeAmo_runsTo h hrs1 hf3 hlegal haligned
    rw [if_neg hother, if_pos hf7]
    exact executeSc_runsTo h (rd_encode rfl) (rs2_encode rfl) hexec
  · rw [State.exec, if_neg haligned] at hexec
    cases hexec

theorem amo_runsTo (h : Hosts V c (s.goto next)) {op : AmoOp} {form : Atom}
    {order : BitVec 2} (hlegal : (Instr.amo op form r r₁ r₂ order).Legal w)
    (hexec : s.exec next (.amo op form r r₁ r₂ order) = some s') :
    RunsTo V profile (executeAmo (Instr.amo op form r r₁ r₂ order).encode) c
      s' := by
  have hrs1 : (rs1 (Instr.amo op form r r₁ r₂ order).encode).val = r₁.toNat :=
    rs1_encode rfl
  have hf3 : funct3 (Instr.amo op form r r₁ r₂ order).encode =
      form.funct3.setWidth 32 :=
    funct3_encode _ rfl
  have hf7 : funct7 (Instr.amo op form r r₁ r₂ order).encode >>> 2 =
      op.funct5.setWidth 32 := by
    rw [Instr.encode, Instr.base, funct7_register, funct7_order]
  have hlr : ¬ op.funct5.setWidth 32 = 0x02 := by cases op <;> decide
  have hsc : ¬ op.funct5.setWidth 32 = 0x03 := by cases op <;> decide
  have hfits : form.width ≤ w := by
    cases form with
    | word => exact h.wide
    | double => exact (hlegal rfl).ge
  by_cases hholds : (s.reg r₁).toNat % form.size = 0 ∧
      s.Holds .load (s.reg r₁) form.size ∧ s.Holds .store (s.reg r₁) form.size
  · obtain ⟨haligned, hloads, hstores⟩ := hholds
    rw [State.exec, if_pos ⟨haligned, hloads, hstores⟩] at hexec
    obtain rfl := Option.some.inj hexec
    apply executeAmo_runsTo h hrs1 hf3 hlegal haligned
    rw [hf7, if_neg hlr, if_neg hsc]
    exact executeRmw_runsTo h (rd_encode rfl) (rs2_encode rfl)
      (hf7 ▸ funct5_ofBits op) hfits hloads hstores
  · rw [State.exec, if_neg hholds] at hexec
    cases hexec

/-- The hart executes an encoding to where the flat machine goes. -/
theorem execute_runsTo (profile : Profile) (h : Hosts V c s)
    {instPc nextPc : BitVec 64} (hplace : instPc = s.pc.setWidth 64)
    (hclear : s.Clear) (hholds : s.Holds .fetch s.pc 4)
    (hnext : nextPc.setWidth w = next) (hnear : Near (s.goto next) nextPc)
    {i : Instr} (hlegal : i.Legal w)
    (hexec : s.exec next i = some s') :
    RunsTo V profile (execute i.encode instPc nextPc) c s' := by
  have hgo : Hosts V { c with pc := nextPc } (s.goto next) :=
    h.goto hnext hnear
  have hop : opcode i.encode = i.base.opcode.setWidth 32 := opcode_encode _
  unfold execute
  refine RunsTo.bind rfl ⟨rfl, rfl, rfl, id⟩ ?_
  rw [hop]
  cases i with
  | lui r imm =>
      obtain rfl := Option.some.inj hexec
      refine hgo.wr (rd_encode rfl) ?_ profile
      rw [Instr.encode, Instr.base, immU_encode, widen_word h.le]
  | auipc r imm =>
      obtain rfl := Option.some.inj hexec
      refine hgo.wr (rd_encode rfl) ?_ profile
      rw [Instr.encode, Instr.base, immU_encode, signExtend_sum h.le, hplace,
        setWidth_setWidth_of_le _ h.le, BitVec.setWidth_eq]
  | jal r offset =>
      obtain rfl := Option.some.inj hexec
      exact executeJal_runsTo hgo (rd_encode rfl) (immJ_encode _ hlegal)
        hplace hclear hholds hnext
  | jalr r r₁ imm =>
      obtain rfl := Option.some.inj hexec
      have hf3 : funct3 (Instr.jalr r r₁ imm).encode =
          (0 : BitVec 3).setWidth 32 := funct3_encode _ rfl
      refine (congrArg (fun prog => RunsTo V profile prog _ _)
        (if_pos (hf3.trans rfl))).mpr ?_
      exact executeJalr_runsTo hgo (rd_encode rfl) (rs1_encode rfl)
        (immI_encode ..) hnext
  | branch cond r₁ r₂ offset =>
      obtain rfl := Option.some.inj hexec
      exact executeBranch_runsTo hgo (rs1_encode rfl) (rs2_encode rfl)
        (funct3_encode _ rfl) (immB_encode _ _ _ hlegal) hplace
  | load form r r₁ imm =>
      by_cases hholds : s.Holds .load (s.reg r₁ + imm.signExtend w) form.size
      · rw [State.exec, if_pos hholds] at hexec
        obtain rfl := Option.some.inj hexec
        exact executeLoad_runsTo hgo (rd_encode rfl) (rs1_encode rfl)
          (funct3_encode _ rfl) hlegal (immI_encode ..) hholds
      · rw [State.exec, if_neg hholds] at hexec
        cases hexec
  | store form r₁ r₂ imm =>
      by_cases hholds : s.Holds .store (s.reg r₁ + imm.signExtend w) form.size
      · rw [State.exec, if_pos hholds] at hexec
        obtain rfl := Option.some.inj hexec
        exact executeStore_runsTo hgo (rs1_encode rfl) (rs2_encode rfl)
          (funct3_encode _ rfl) hlegal (immS_encode ..) hholds
      · rw [State.exec, if_neg hholds] at hexec
        cases hexec
  | opImm op r r₁ imm =>
      obtain rfl := Option.some.inj hexec
      exact opImm_runsTo hgo hlegal
  | shiftImm op r r₁ shamt =>
      obtain rfl := Option.some.inj hexec
      exact shiftImm_runsTo hgo hlegal
  | opReg op r r₁ r₂ =>
      obtain rfl := Option.some.inj hexec
      exact opReg_runsTo hgo op
  | mulDiv op r r₁ r₂ =>
      obtain rfl := Option.some.inj hexec
      exact mulDiv_runsTo hgo op
  | addiw r r₁ imm =>
      obtain rfl := Option.some.inj hexec
      exact addiw_runsTo hgo hlegal
  | shiftImmWord op r r₁ shamt =>
      obtain rfl := Option.some.inj hexec
      exact shiftImmWord_runsTo hgo hlegal
  | opWord op r r₁ r₂ =>
      obtain rfl := Option.some.inj hexec
      exact opWord_runsTo hgo hlegal.1 op
  | mulDivWord op r r₁ r₂ =>
      obtain rfl := Option.some.inj hexec
      exact mulDivWord_runsTo hgo hlegal.1 op
  | lr form r r₁ order => exact lr_runsTo hgo hlegal hexec
  | sc form r r₁ r₂ order => exact sc_runsTo hgo hlegal hexec
  | amo op form r r₁ r₂ order => exact amo_runsTo hgo hlegal hexec
  | fence f3 r r₁ imm =>
      obtain rfl := Option.some.inj hexec
      exact ⟨_, rfl, hgo, Still.refl _⟩

end Forms

end Instructions

end Cpu

end Nanoemu
