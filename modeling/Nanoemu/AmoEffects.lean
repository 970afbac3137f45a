import Nanoemu.IntegerUnits
import Nanoemu.StoreThenLoad

/-!
# What an atomic leaves

A read-modify-write replaces one word, computed at its width from the word and
the low bits of a register, and hands the word over sign-extended.  Nothing
else moves, the accessed and dirty bits of the entries apart.
-/

namespace Nanoemu

open CheckedProgram Mmu

inductive AmoOp where
  | add | swap | xor | or | and | min | max | minu | maxu
deriving DecidableEq, Repr

namespace AmoOp

/-- The operation that the upper bits of `funct7` select. -/
def ofBits (op : BitVec 32) : Option AmoOp :=
  match op.toNat with
  | 0x00 => some .add
  | 0x01 => some .swap
  | 0x04 => some .xor
  | 0x08 => some .or
  | 0x0c => some .and
  | 0x10 => some .min
  | 0x14 => some .max
  | 0x18 => some .minu
  | 0x1c => some .maxu
  | _ => none

def eval {w : ℕ} (op : AmoOp) (old operand : BitVec w) : BitVec w :=
  match op with
  | .add => old + operand
  | .swap => operand
  | .xor => old ^^^ operand
  | .or => old ||| operand
  | .and => old &&& operand
  | .min => if operand.toInt < old.toInt then operand else old
  | .max => if operand.toInt < old.toInt then old else operand
  | .minu => if operand.toNat < old.toNat then operand else old
  | .maxu => if operand.toNat < old.toNat then old else operand

end AmoOp

namespace Cpu

theorem amoOp_eval {w : ℕ} (hpos : 0 < w) (hw : w ≤ 64) {op : BitVec 32}
    {o : AmoOp} (hop : AmoOp.ofBits op = some o) (old : BitVec w)
    (b : BitVec 64) :
    ∃ new, amoOp op (old.signExtend 64) b w = pure (some new) ∧
      new.setWidth w = o.eval old (b.setWidth w) := by
  have hold := setWidth_signExtend_self hw old
  have hunsigned : ∀ x : BitVec w, (x.setWidth 64).setWidth w = x := fun x => by
    rw [FieldWords.setWidth_setWidth_of_le x hw, BitVec.setWidth_eq]
  unfold amoOp
  rw [sext_word _ hpos hw, pure_bind, trunc_word _ hw, trunc_word _ hw, hold]
  unfold AmoOp.ofBits at hop
  generalize op.toNat = m at hop ⊢
  split at hop
  all_goals cases hop
  · exact ⟨_, rfl, by simp [AmoOp.eval, BitVec.setWidth_add _ _ hw, hold]⟩
  · exact ⟨_, rfl, rfl⟩
  · exact ⟨_, rfl, by simp [AmoOp.eval, hold]⟩
  · exact ⟨_, rfl, by simp [AmoOp.eval, hold]⟩
  · exact ⟨_, rfl, by simp [AmoOp.eval, hold]⟩
  · refine ⟨_, rfl, ?_⟩
    simp [AmoOp.eval, BitVec.slt_eq_decide, BitVec.toInt_signExtend_of_le hw,
      apply_ite (BitVec.setWidth w), hold, setWidth_signExtend_self hw]
  · refine ⟨_, rfl, ?_⟩
    simp [AmoOp.eval, BitVec.slt_eq_decide, BitVec.toInt_signExtend_of_le hw,
      apply_ite (BitVec.setWidth w), hold, setWidth_signExtend_self hw]
  · refine ⟨_, rfl, ?_⟩
    simp [AmoOp.eval, BitVec.lt_def, BitVec.toNat_setWidth_of_le hw,
      apply_ite (BitVec.setWidth w), hunsigned]
  · refine ⟨_, rfl, ?_⟩
    simp [AmoOp.eval, BitVec.lt_def, BitVec.toNat_setWidth_of_le hw,
      apply_ite (BitVec.setWidth w), hunsigned]

theorem and_below {v : BitVec 64} {i k : ℕ} (hv : v.toNat % 2 ^ i = 0)
    (hk : k < 2 ^ i) : v &&& BitVec.ofNat 64 k = 0#64 := by
  apply BitVec.eq_of_getLsbD_eq
  intro j _
  rw [BitVec.getLsbD_and, BitVec.getLsbD_zero]
  by_cases hj : j < i
  · have hbit : v.getLsbD j = false := by
      rw [BitVec.getLsbD, ← Nat.div_add_mod v.toNat (2 ^ i), hv, Nat.add_zero,
        Nat.testBit_two_pow_mul]
      simp [hj]
    rw [hbit, Bool.false_and]
  · have hbit : (BitVec.ofNat 64 k).getLsbD j = false := by
      rw [BitVec.getLsbD_ofNat, Nat.testBit_lt_two_pow (hk.trans_le
        (Nat.pow_le_pow_right (by decide) (not_lt.mp hj))), Bool.and_false]
    rw [hbit, Bool.and_false]

/-- Where the word at `va` lies: in DRAM, with no part of it in an entry that
the address is translated by. -/
structure WordPlace (profile : Profile) (c : Cpu) (va : BitVec 64) (size : ℕ)
    (pa : BitVec 64) : Prop where
  sound : c.mem.Sound
  cached : ∀ access, Weaker access .store → CacheAgrees profile c va access
  maps : Maps profile c va .store pa
  inDram : c.mem.InDram pa size
  apart : ∀ addr ∈ c.entriesOf profile va .store, ∀ k < size,
    ¬ Memory.Covers addr (entrySize c.xlen) (Memory.offset pa + k)

section Place

variable {profile : Profile} {c : Cpu} {va pa : BitVec 64} {size i : ℕ}

theorem aligned_byte (hi : i ≤ 12) (haligned : va.toNat % 2 ^ i = 0) {k : ℕ}
    (hk : k < 2 ^ i) :
    va + BitVec.ofNat 64 k = va ||| BitVec.ofNat 64 k ∧
      (va + BitVec.ofNat 64 k) >>> 12 = va >>> 12 ∧
      (va + BitVec.ofNat 64 k) &&& 0xfff =
        (va &&& 0xfff) ||| BitVec.ofNat 64 k ∧
      (va + BitVec.ofNat 64 k).toNat = va.toNat + k := by
  have hsum : va + BitVec.ofNat 64 k = va ||| BitVec.ofNat 64 k :=
    BitVec.add_eq_or_of_and_eq_zero _ _ (and_below haligned hk)
  have hlt : k < 2 ^ 12 :=
    hk.trans_le (Nat.pow_le_pow_right (by decide) hi)
  have hnat : (BitVec.ofNat 64 k).toNat = k := by
    rw [BitVec.toNat_ofNat, Nat.mod_eq_of_lt (by omega)]
  have hhigh : BitVec.ofNat 64 k >>> 12 = 0#64 := by
    apply BitVec.eq_of_toNat_eq
    rw [BitVec.toNat_ushiftRight, hnat, Nat.shiftRight_eq_div_pow,
      Nat.div_eq_of_lt hlt]
    rfl
  have hlow : BitVec.ofNat 64 k &&& 0xfff = BitVec.ofNat 64 k := by
    apply BitVec.eq_of_toNat_eq
    rw [Mmu.offset_toNat, hnat]
    omega
  refine ⟨hsum, ?_, ?_, ?_⟩
  · rw [hsum, BitVec.ushiftRight_or_distrib, hhigh, BitVec.or_zero]
  · rw [hsum, BitVec.and_or_distrib_right, hlow]
  · have hbase : va.toNat = 2 ^ i * (va.toNat / 2 ^ i) := by
      have hdiv := Nat.div_add_mod va.toNat (2 ^ i)
      omega
    rw [hsum, BitVec.toNat_or, hnat, hbase, ← Nat.two_pow_add_eq_or_of_lt hk]

theorem WordPlace.range (h : WordPlace profile c va (2 ^ i) pa) (hi : i ≤ 12)
    (haligned : va.toNat % 2 ^ i = 0) :
    StoreRange profile c va (2 ^ i) fun k => pa + BitVec.ofNat 64 k := by
  obtain ⟨mem, hrun⟩ := h.maps
  have hoffset : pa &&& 0xfff = va &&& 0xfff :=
    (Mmu.translate_offset _ _ _ _ _ _ profile c.mem).ok hrun
  have hplace : pa.toNat % 4096 = va.toNat % 4096 := by
    rw [← Mmu.offset_toNat, ← Mmu.offset_toNat, hoffset]
  have hpow : 2 ^ i ∣ 4096 := pow_dvd_pow 2 hi
  have haligned' : pa.toNat % 2 ^ i = 0 := by
    rw [← Nat.mod_mod_of_dvd _ hpow, hplace, Nat.mod_mod_of_dvd _ hpow,
      haligned]
  -- Each byte is where the page of the word has it.
  have hbyte : ∀ k < 2 ^ i, ∀ access, Weaker access .store →
      Maps profile c (va + BitVec.ofNat 64 k) access
          (pa + BitVec.ofNat 64 k) ∧
        c.entriesOf profile (va + BitVec.ofNat 64 k) access =
          c.entriesOf profile va .store := by
    intro k hk access hweaker
    obtain ⟨-, hpage, hlow, -⟩ := aligned_byte hi haligned hk
    obtain ⟨hsum, -⟩ := aligned_byte hi haligned' hk
    obtain ⟨⟨after, hagain⟩, hentries⟩ := translate_kept h.inDram.1 hrun hpage
      hweaker h.sound fun addr _ => KeptAt.refl _ _ _ addr
    rw [hlow, ← BitVec.or_assoc, ← eq_of_page_and_offset rfl hoffset,
      ← hsum] at hagain
    exact ⟨⟨after, hagain⟩, hentries⟩
  have hpos := Nat.two_pow_pos i
  have hbase : DRAM_BASE.toNat ≤ pa.toNat := h.inDram.1
  have hinDram := h.inDram
  unfold Memory.InDram at hinDram
  have hnat : ∀ k < 2 ^ i, (pa + BitVec.ofNat 64 k).toNat = pa.toNat + k :=
    fun k hk => (aligned_byte hi haligned' hk).2.2.2
  constructor
  · have hlast := (aligned_byte hi haligned (k := 2 ^ i - 1) (by omega)).2.2.2
    have hlt := (va + BitVec.ofNat 64 (2 ^ i - 1)).isLt
    omega
  · exact h.sound
  · intro k hk access hweaker hhit
    obtain ⟨-, hpage, hlow, -⟩ := aligned_byte hi haligned hk
    obtain ⟨hsum, -⟩ := aligned_byte hi haligned' hk
    have hfirst := (hbyte 0 hpos access hweaker).1
    rw [add_zero_offset, add_zero_offset] at hfirst
    unfold tlbHit at hhit
    rw [tlbSlot_congr hpage, hpage] at hhit
    have hentry := hfirst.unique (h.cached access hweaker hhit)
    rw [tlbSlot_congr hpage, hlow, ← BitVec.or_assoc, hentry, ← hsum]
    exact (hbyte k hk access hweaker).1
  · exact fun k hk => (hbyte k hk .store (.same .store)).1
  · intro k hk
    unfold Memory.InDram
    rw [BitVec.le_def, hnat k hk]
    omega
  · intro j hj k hk addr haddr
    rw [(hbyte j hj .store (.same .store)).2] at haddr
    have hplace := h.apart addr haddr k hk
    unfold Memory.offset at hplace ⊢
    rw [hnat k hk, Nat.sub_add_comm hbase]
    exact hplace

theorem WordPlace.range_word {width : ℕ} (hwidth : width = 32 ∨ width = 64)
    (h : WordPlace profile c va (width / 8) pa)
    (haligned : va.toNat % (width / 8) = 0) :
    StoreRange profile c va (width / 8) fun k => pa + BitVec.ofNat 64 k := by
  rcases hwidth with rfl | rfl
  · exact WordPlace.range (i := 2) h (by decide) haligned
  · exact WordPlace.range (i := 3) h (by decide) haligned

end Place

/-! ## A read-modify-write -/

def wordAt (mem : Memory) (pa : BitVec 64) (width : ℕ) : BitVec width :=
  (mem.dram.loadLe (Memory.offset pa) (width / 8)).setWidth width

/-- What a read-modify-write of the word at `pa` leaves: the new word, the old
one in the destination, and the rest of the hart as it was. -/
structure AmoDone (profile : Profile) (c : Cpu) (inst : BitVec 32) (o : AmoOp)
    (width : ℕ) (pa nextPc : BitVec 64) (c' : Cpu) : Prop where
  word : wordAt c'.mem pa width =
    o.eval (wordAt c.mem pa width) ((c.rr (rs2 inst)).setWidth width)
  regs : ∀ r, c'.regs r =
    if r = rd inst ∧ r ≠ 0 then
      trunc ((wordAt c.mem pa width).signExtend 64) c.xbits
    else c.regs r
  pc : c'.pc = nextPc
  only : OnlyStored profile c (c.rr (rs1 inst)) (width / 8)
    (fun k => pa + BitVec.ofNat 64 k) { c' with pc := c.pc, regs := c.regs }

section Runs

variable {profile : Profile} {c c' : Cpu} {va : BitVec 64} {width : ℕ}
  {target : ℕ → BitVec 64}

theorem leByte_loadLe (dram : Dram) (index : ℕ) {count k : ℕ}
    (hcount : count ≤ 8) (hk : k < count) :
    Dram.leByte (dram.loadLe index count) k = dram.byte (index + k) := by
  apply BitVec.eq_of_getLsbD_eq
  intro j hj
  rw [Dram.getLsbD_leByte _ _ _ hj, Dram.getLsbD_loadLe _ _ _ _ hcount]
  have hlt : 8 * k + j < 8 * count := by omega
  have hbyte : (8 * k + j) / 8 = k := by omega
  have hbit : (8 * k + j) % 8 = j := by omega
  simp [hlt, hbyte, hbit]

theorem width_bits (hwidth : width = 32 ∨ width = 64) :
    8 * (width / 8) = width ∧ 0 < width ∧ width ≤ 64 ∧
      Memory.validSize (width / 8) = true := by
  rcases hwidth with rfl | rfl
  · exact ⟨rfl, by decide, by decide, rfl⟩
  · exact ⟨rfl, by decide, by decide, rfl⟩

/-- The operand is loaded, the result is stored, and then the destination is
written. -/
theorem executeRmw_serves (hwidth : width = 32 ∨ width = 64) {inst : BitVec 32}
    {o : AmoOp} (hop : AmoOp.ofBits (funct7 inst >>> 2) = some o)
    (hrange : StoreRange profile c va (width / 8) target) {index : ℕ}
    (hindex : ∀ k < width / 8, Memory.offset (target k) = index + k) :
    ∃ x, executeRmw inst va width profile c = some (.ok (),
        x.setReg (rd inst) (((c.mem.dram.loadLe index (width / 8)).setWidth
          width).signExtend 64)) ∧
      OnlyStored profile c va (width / 8) target x ∧
      (x.mem.dram.loadLe index (width / 8)).setWidth width =
        o.eval ((c.mem.dram.loadLe index (width / 8)).setWidth width)
          ((c.rr (rs2 inst)).setWidth width) := by
  obtain ⟨hbits, hpos, hle, hvalid⟩ := width_bits hwidth
  have hsize : width / 8 ≤ 8 := (Clint.validSize_range hvalid).2
  have hbytes : HoldsBytes (width / 8) target
      (c.mem.dram.loadLe index (width / 8)) c := by
    intro k hk
    rw [hindex k hk, leByte_loadLe _ _ hsize hk]
  generalize hold : c.mem.dram.loadLe index (width / 8) = old at *
  obtain ⟨y, hread, hy⟩ := hrange.serves.readMem hrange hvalid hbytes
  rw [hbits] at hread
  have hsext : sext ((old.setWidth width).setWidth 64) width =
      pure ((old.setWidth width).signExtend 64) := by
    rw [sext_word _ hpos hle, FieldWords.setWidth_setWidth_of_le _ hle,
      BitVec.setWidth_eq]
  have hrs2 : y.rr (rs2 inst) = c.rr (rs2 inst) := by
    rw [hy.frame]
    rfl
  obtain ⟨new, hnew, heval⟩ :=
    amoOp_eval hpos hle hop (old.setWidth width) (c.rr (rs2 inst))
  obtain ⟨z, hwrite, hz, hstored⟩ := hy.writeMem hrange hvalid new
  refine ⟨z, ?_, hz.toOnlyStored, ?_⟩
  · unfold executeRmw
    rw [Program.bind_run_ok hread, hsext, Program.check_pure, pure_bind,
      Program.bind_run_ok (Program.read_run _ _ _), id, hrs2, hnew,
      Program.check_pure, pure_bind]
    dsimp only
    rw [Program.bind_run_ok hwrite]
    rfl
  · have hload : z.mem.dram.loadLe index (width / 8) =
        (new.setWidth (8 * (width / 8))).setWidth 64 := by
      apply loadLe_of_bytes hsize
      intro k hk
      rw [← hindex k hk]
      exact hstored k hk
    rw [hload, hbits, FieldWords.setWidth_setWidth_of_le _ hle,
      BitVec.setWidth_eq, heval]

theorem setReg_regs (x : Cpu) (r s : Fin 32) (v : BitVec 64) :
    (x.setReg r v).regs s =
      if s = r ∧ s ≠ 0 then trunc v x.xbits else x.regs s := by
  unfold setReg
  by_cases hzero : r = 0
  · subst hzero
    rw [if_pos rfl, if_neg fun h => h.2 h.1]
  · rw [if_neg hzero]
    by_cases hsame : s = r
    · subst hsame
      simp [hzero]
    · simp [hsame]

/-- A read-modify-write that retires, of either width and of any of the nine
operations, on an aligned word. -/
theorem execute_amo {inst : BitVec 32} {o : AmoOp} {pa instPc nextPc : BitVec 64}
    (hopcode : (opcode inst).toNat = 0x2f)
    (hop : AmoOp.ofBits (funct7 inst >>> 2) = some o)
    (hwidth : amoWidth (funct3 inst) c.xlen = some width)
    (haligned : (c.rr (rs1 inst)).toNat % (width / 8) = 0)
    (hplace : WordPlace profile c (c.rr (rs1 inst)) (width / 8) pa)
    (hrun : execute inst instPc nextPc profile c = some (.ok (), c')) :
    AmoDone profile c inst o width pa nextPc c' := by
  have hcases := amoWidth_cases hwidth
  have hlr : ¬ funct7 inst >>> 2 = 0x02 := by
    intro h
    rw [h] at hop
    cases hop
  have hsc : ¬ funct7 inst >>> 2 = 0x03 := by
    intro h
    rw [h] at hop
    cases hop
  have hmoved : WordPlace profile { c with pc := nextPc } (c.rr (rs1 inst))
      (width / 8) pa :=
    ⟨hplace.sound, hplace.cached, hplace.maps, hplace.inDram, hplace.apart⟩
  have hrange := hmoved.range_word hcases haligned
  have hfits : (c.rr (rs1 inst)).toNat % 4096 + width / 8 ≤ 4096 := by
    rcases hcases with rfl | rfl <;> omega
  have hindex : ∀ k < width / 8, Memory.offset (pa + BitVec.ofNat 64 k) =
      Memory.offset pa + k := by
    intro k hk
    rw [hrange.offset_add hfits hk, add_zero_offset]
  obtain ⟨x, hrmw, honly, hword⟩ :=
    executeRmw_serves hcases hop hrange hindex
  have hamo : executeAmo inst profile { c with pc := nextPc } =
      atomicOperation inst (c.rr (rs1 inst)) width profile
        { c with pc := nextPc } :=
    executeAmo_run (c := { c with pc := nextPc }) hwidth haligned
  rw [execute_atomic ⟨hopcode, rfl⟩, hamo, atomicOperation, if_neg hlr,
    if_neg hsc, hrmw] at hrun
  cases hrun
  refine ⟨?_, fun r => ?_, ?_, ?_⟩
  · unfold wordAt
    rw [setReg_mem]
    exact hword
  · rw [setReg_regs, honly.frame]
    rfl
  · unfold setReg
    rw [honly.frame]
    split <;> rfl
  · have hframe : { x.setReg (rd inst)
          (((c.mem.dram.loadLe (Memory.offset pa) (width / 8)).setWidth
            width).signExtend 64) with pc := c.pc, regs := c.regs } =
        { c with mem := x.mem, tlb := x.tlb } := by
      unfold setReg
      rw [honly.frame]
      split <;> rfl
    rw [hframe]
    exact ⟨rfl, honly.len, honly.bytes, honly.entries⟩

/-- A hart about to run `amomax.w x6, x6, (x5)` on the word after it, which is
negative; the upper half of the operand is no part of the comparison. -/
def amomaxHart : Cpu :=
  { programmedHart .rv64 [0xa062a32f, 0x80000000] with
    regs := Function.update (Function.update (fun _ => 0) 5 0x80000004)
      6 0x8000000000000001 }

/-- The operand is stored, and its register takes the old word. -/
theorem execute_amo_max :
    ∃ c', execute 0xa062a32f 0x80000000 0x80000004 .debug amomaxHart =
        some (.ok (), c') ∧
      AmoDone .debug amomaxHart 0xa062a32f .max 32 0x80000004 0x80000004 c' ∧
      c'.regs 6 = 0xffffffff80000000 ∧ wordAt c'.mem 0x80000004 32 = 1 := by
  have hretires : (execute 0xa062a32f 0x80000000 0x80000004 .debug
      amomaxHart).map Prod.fst = some (.ok ()) := by decide +kernel
  obtain ⟨⟨outcome, c'⟩, hrun, rfl⟩ := Option.map_eq_some_iff.mp hretires
  have hplace : WordPlace .debug amomaxHart 0x80000004 4 0x80000004 := by
    refine ⟨⟨Clint.default_sound, fun _ => BitVec.zero_and⟩, ?_, ⟨_, rfl⟩,
      by decide, ?_⟩
    · intro access _ hhit
      unfold tlbHit at hhit
      exact absurd hhit Bool.false_ne_true
    · intro addr haddr
      cases haddr
  have hdone := @execute_amo .debug amomaxHart c' 32 0xa062a32f .max 0x80000004
    0x80000000 0x80000004 (by decide) (by decide) (by decide) (by decide)
    hplace hrun
  refine ⟨c', hrun, hdone, ?_, ?_⟩
  · rw [hdone.regs]
    decide +kernel
  · rw [hdone.word]
    decide +kernel

end Runs

end Cpu

end Nanoemu
