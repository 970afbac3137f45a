import Nanoemu.CsrAliases
import Nanoemu.CsrMoves
import Nanoemu.PrivilegeIsolation

/-!
# The interrupts that machine mode keeps

Supervisor mode reaches `mie` and `mip` through `sie` and `sip`.  The windows
are fixed: they show the three supervisor interrupts, delegated or not, and
never a machine interrupt.
-/

namespace Nanoemu

open CheckedProgram BitFields

namespace CsrFile

/-- SSI, STI and SEI, by their bits. -/
def supervisorInterrupts : List ℕ := [1, 5, 9]

/-- From `f` to `f'` the machine's interrupts were neither masked nor raised,
and the supervisor's windows show the three of its own and no other. -/
structure MachineInterruptsKept (f f' : CsrFile) : Prop where
  mie : ∀ i ∉ supervisorInterrupts,
    (f'.read Csr.MIE).getLsbD i = (f.read Csr.MIE).getLsbD i
  mip : ∀ i ≠ 1, (f'.read Csr.MIP).getLsbD i = (f.read Csr.MIP).getLsbD i
  sie : ∀ i, (f'.read Csr.SIE).getLsbD i =
    (decide (i ∈ supervisorInterrupts) && (f'.read Csr.MIE).getLsbD i)
  sip : ∀ i, (f'.read Csr.SIP).getLsbD i =
    (decide (i ∈ supervisorInterrupts) && (f'.read Csr.MIP).getLsbD i)

theorem visible_bit (i : ℕ) :
    IntBit.S_VISIBLE.getLsbD i = decide (i ∈ supervisorInterrupts) := by
  have hlow : ∀ i < 64,
      IntBit.S_VISIBLE.getLsbD i = decide (i ∈ supervisorInterrupts) := by
    decide
  rcases Nat.lt_or_ge i 64 with hi | hi
  · exact hlow i hi
  · have hout : i ∉ supervisorInterrupts := by
      simp only [supervisorInterrupts, List.mem_cons, List.not_mem_nil,
        or_false]
      omega
    rw [BitVec.getLsbD_of_ge _ i hi, decide_eq_false hout]

theorem software_bit (i : ℕ) : IntBit.SSIP.getLsbD i = decide (i = 1) := by
  have hpower : IntBit.SSIP = BitVec.twoPow 64 1 := by decide
  rw [hpower, BitVec.getLsbD_twoPow]
  by_cases hi : i = 1
  · simp [hi]
  · simp [hi, Ne.symm hi]

theorem read_bit_of_regs {f f' : CsrFile} {addr : BitVec 12}
    {field : BitVec 64} (hxlen : f'.xlen = f.xlen)
    (hview : ∀ g : CsrFile, g.view addr = g.regs addr)
    (h : Agree (~~~field) (f'.regs addr) (f.regs addr)) {i : ℕ}
    (hi : field.getLsbD i = false) :
    (f'.read addr).getLsbD i = (f.read addr).getLsbD i := by
  rw [read_eq, read_eq, hview, hview, hxlen]
  rcases Nat.lt_or_ge i 64 with hlt | hge
  · refine agree_iff.mp (h.and _) i ?_
    rw [BitVec.getLsbD_not, hi, decide_eq_true hlt]
    rfl
  · rw [BitVec.getLsbD_of_ge _ i hge, BitVec.getLsbD_of_ge _ i hge]

theorem read_window_bit (f : CsrFile) {window wide : BitVec 12}
    (hwindow : f.view window = f.regs wide &&& IntBit.S_VISIBLE)
    (hwide : f.view wide = f.regs wide) (i : ℕ) :
    (f.read window).getLsbD i =
      (decide (i ∈ supervisorInterrupts) && (f.read wide).getLsbD i) := by
  rw [read_eq, read_eq, hwindow, hwide, BitVec.getLsbD_and,
    BitVec.getLsbD_and, BitVec.getLsbD_and, visible_bit, Bool.and_comm
    ((f.regs wide).getLsbD i), Bool.and_assoc]

/-- Below machine mode only `sip` reaches the pending bits. -/
theorem write_pending {addr : BitVec 12} (haddr : ¬ MachineLevel addr)
    (f : CsrFile) (value : BitVec 64) :
    Agree (~~~IntBit.SSIP) ((f.write addr value).regs Csr.MIP)
      (f.regs Csr.MIP) := by
  by_cases htarget : writeTarget addr = Csr.MIP
  · have halias : (addr == Csr.SIP || addr == Csr.MIP) = true :=
      writeTarget_forall Csr.MIP (fun addr => addr == Csr.SIP ||
        addr == Csr.MIP) (by decide) htarget
    simp only [Bool.or_eq_true, beq_iff_eq] at halias
    rcases halias with rfl | rfl
    · have hwrite : (f.write Csr.SIP value).regs Csr.MIP =
          merge (f.regs Csr.MIP) IntBit.SSIP value := force_regs_same _ _ _
      rw [hwrite]
      exact Agree.merge (by decide)
    · exact absurd (by decide) haddr
  · rw [f.write_regs_other value (Ne.symm htarget)]
    exact Agree.refl _ _

theorem MachineInterruptsKept.of_regs {f f' : CsrFile}
    (hxlen : f'.xlen = f.xlen)
    (hmie : Agree (~~~IntBit.S_VISIBLE) (f'.regs Csr.MIE) (f.regs Csr.MIE))
    (hmip : Agree (~~~IntBit.SSIP) (f'.regs Csr.MIP) (f.regs Csr.MIP)) :
    MachineInterruptsKept f f' where
  mie i hi := read_bit_of_regs hxlen (fun _ => rfl) hmie (by
    rw [visible_bit, decide_eq_false hi])
  mip i hi := read_bit_of_regs hxlen (fun _ => rfl) hmip (by
    rw [software_bit, decide_eq_false hi])
  sie := read_window_bit f' rfl rfl
  sip := read_window_bit f' rfl rfl

end CsrFile

namespace Cpu

open CsrFile

variable {profile : Profile} {c c' : Cpu} {result : Except Exception Unit}
  {inst : BitVec 32}

def IsCsr (inst : BitVec 32) : Prop :=
  (opcode inst).toNat = 0x73 ∧ funct3 inst ≠ 0

/-- Whatever comes of it, a CSR instruction changes no register but by the one
write its privilege permits. -/
theorem IsCsr.csrs (hcsr : IsCsr inst) {instPc nextPc : BitVec 64}
    (hrun : execute inst instPc nextPc profile c = some (result, c')) :
    c'.csrs = c.csrs ∨ ∃ value, c.csrPermitted (csr inst) true = true ∧
      c'.csrs =
        (({ c with pc := nextPc } : Cpu).writeCsr (csr inst) value).csrs := by
  rcases execute_csr_cases hcsr.1 hcsr.2 hrun with
    ⟨-, rfl, -⟩ | ⟨value, -, -, hpermitted, rfl⟩
  · exact Or.inl rfl
  · rw [setReg_csrs]
    cases hwrites : (funct3 inst &&& 0x3 == 0x1 || rs1 inst != 0) with
    | false => exact Or.inl rfl
    | true =>
        rw [hwrites] at hpermitted
        exact Or.inr ⟨value, hpermitted, rfl⟩

/-- What a CSR instruction makes of a bit: it replaces it, sets it or clears
it. -/
def bitWritten (form : BitVec 32) (old src : Bool) : Bool :=
  match (form &&& 0x3).toNat with
  | 1 => src
  | 2 => old || src
  | _ => old && !src

/-- An instruction that names a window succeeds, and reaches the interrupts of
the supervisor behind it: all three enables, and the software interrupt. -/
structure WindowsWritten (inst : BitVec 32) (c c' : Cpu)
    (result : Except Exception Unit) : Prop where
  sie : csr inst = Csr.SIE → funct3 inst &&& 0x3 ≠ 0 →
    result = .ok () ∧ ∀ i ∈ supervisorInterrupts,
      (c'.csrs.read Csr.MIE).getLsbD i = bitWritten (funct3 inst)
        ((c.csrs.read Csr.MIE).getLsbD i) ((c.csrSource inst).getLsbD i)
  sip : csr inst = Csr.SIP → funct3 inst &&& 0x3 ≠ 0 →
    result = .ok () ∧
      (c'.csrs.read Csr.MIP).getLsbD 1 = bitWritten (funct3 inst)
        ((c.csrs.read Csr.MIP).getLsbD 1) ((c.csrSource inst).getLsbD 1)

theorem trunc_bit (v : BitVec 64) (c : Cpu) {i : ℕ} (hi : i < 32) :
    (trunc v c.xbits).getLsbD i = v.getLsbD i := by
  unfold xbits
  cases c.xlen with
  | rv64 => rfl
  | rv32 =>
      have hmask : ∀ j < 32, (0xffffffff : BitVec 64).getLsbD j = true := by
        decide
      change (v &&& 0xffffffff).getLsbD i = _
      rw [BitVec.getLsbD_and, hmask i hi, Bool.and_true]

theorem read_bit (f : CsrFile) (addr : BitVec 12) {i : ℕ} (hi : i < 32) :
    (f.read addr).getLsbD i = (f.view addr).getLsbD i := by
  have hmask : ∀ j < 32, (0xffffffff : BitVec 64).getLsbD j = true := by
    decide
  unfold CsrFile.read
  split
  · rw [BitVec.getLsbD_and, hmask i hi, Bool.and_true]
  · rfl

theorem csrNew_bit {form : BitVec 32} {old src value : BitVec 64}
    (hvalue : csrNew form old src = some value) {i : ℕ} (hi : i < 64) :
    value.getLsbD i =
      bitWritten form (old.getLsbD i) (src.getLsbD i) := by
  unfold csrNew at hvalue
  unfold bitWritten
  split at hvalue
  · next hform =>
      cases hvalue
      rw [hform]
      rfl
  · next hform =>
      cases hvalue
      rw [hform, BitVec.getLsbD_or]
      rfl
  · next hform =>
      cases hvalue
      rw [hform, BitVec.getLsbD_and, BitVec.getLsbD_not, decide_eq_true hi,
        Bool.true_and]
      rfl
  · cases hvalue

theorem csrNew_ne_none {form : BitVec 32} (hform : form &&& 0x3 ≠ 0)
    (old src : BitVec 64) : csrNew form old src ≠ none := by
  have hbound : (form &&& 0x3).toNat ≤ 3 := by
    rw [BitVec.toNat_and]
    exact Nat.and_le_right
  have hpos : (form &&& 0x3).toNat ≠ 0 := fun hzero =>
    hform (BitVec.eq_of_toNat_eq hzero)
  unfold csrNew
  obtain h | h | h : (form &&& 0x3).toNat = 1 ∨ (form &&& 0x3).toNat = 2 ∨
      (form &&& 0x3).toNat = 3 := by omega
  all_goals
    rw [h]
    exact Option.some_ne_none _

/-- Where nothing is written there is nothing to set or clear. -/
theorem bitWritten_idle
    (hidle : (funct3 inst &&& 0x3 == 0x1 || rs1 inst != 0) = false)
    (c : Cpu) (old : Bool) (i : ℕ) :
    bitWritten (funct3 inst) old ((c.csrSource inst).getLsbD i) = old := by
  simp only [Bool.or_eq_false_iff, beq_eq_false_iff_ne,
    bne_eq_false_iff_eq] at hidle
  obtain ⟨hform, hsource⟩ := hidle
  have hzero : (c.csrSource inst).getLsbD i = false := by
    have hnone : c.csrSource inst = 0 := by
      unfold csrSource
      rw [hsource]
      split <;> rfl
    rw [hnone]
    exact BitVec.getLsbD_zero
  unfold bitWritten
  rw [hzero]
  split
  · next hone => exact absurd (BitVec.eq_of_toNat_eq hone) hform
  · exact Bool.or_false old
  · exact Bool.and_true old

/-- A window is open to the supervisor, whatever is delegated. -/
theorem window_permitted (hmode : c.privMode = .supervisor)
    {window : BitVec 12} (hwindow : window = Csr.SIE ∨ window = Csr.SIP)
    (writes : Bool) : c.csrPermitted window writes = true := by
  have hexists : (CsrFile.common.contains window ||
      CsrFile.isPmp window) = true := by
    rcases hwindow with rfl | rfl <;> decide
  have haccessible : CsrFile.accessible window .supervisor writes = true := by
    rcases hwindow with rfl | rfl <;> cases writes <;> decide
  unfold csrPermitted CsrFile.existsCsr
  rw [hexists, hmode, haccessible]
  rcases hwindow with rfl | rfl <;> rfl

/-- The window `window` of `wide` is written: the bits it lets through are
those of the value. -/
theorem window_written (hcsr : IsCsr inst) (hmode : c.privMode = .supervisor)
    (hform : funct3 inst &&& 0x3 ≠ 0)
    (hwindow : csr inst = Csr.SIE ∨ csr inst = Csr.SIP)
    (wide : BitVec 12) (mask : BitVec 64) (hstatus : wide ≠ Csr.MSTATUS)
    (hview : ∀ f : CsrFile, f.view (csr inst) =
      f.regs wide &&& IntBit.S_VISIBLE)
    (hwide : ∀ f : CsrFile, f.view wide = f.regs wide)
    (hwrite : ∀ (f : CsrFile) value, (f.write (csr inst) value).regs wide =
      merge (f.regs wide) mask value)
    {instPc nextPc : BitVec 64}
    (hrun : execute inst instPc nextPc profile c = some (result, c')) :
    result = .ok () ∧ ∀ i ∈ supervisorInterrupts, mask.getLsbD i = true →
      (c'.csrs.read wide).getLsbD i = bitWritten (funct3 inst)
        ((c.csrs.read wide).getLsbD i) ((c.csrSource inst).getLsbD i) := by
  rcases execute_csr_cases hcsr.1 hcsr.2 hrun with
    ⟨-, -, hrefused | hnone⟩ | ⟨value, rfl, hvalue, -, rfl⟩
  · cases (window_permitted hmode hwindow _).symm.trans hrefused
  · exact absurd hnone (csrNew_ne_none hform _ _)
  refine ⟨rfl, fun i hi hmask => ?_⟩
  have hlow : i < 32 :=
    (by decide : ∀ j ∈ supervisorInterrupts, j < 32) i hi
  rw [setReg_csrs, read_bit _ _ hlow, read_bit _ _ hlow, hwide, hwide]
  cases hwrites : (funct3 inst &&& 0x3 == 0x1 || rs1 inst != 0) with
  | false =>
      rw [bitWritten_idle hwrites]
      rfl
  | true =>
      have hold : (c.csrs.read (csr inst)).getLsbD i =
          (c.csrs.regs wide).getLsbD i := by
        rw [read_bit _ _ hlow, hview, BitVec.getLsbD_and, visible_bit,
          decide_eq_true hi, Bool.and_true]
      rw [if_pos rfl, writeCsr_regs _ _ _ hstatus, hwrite, merge_bit,
        if_pos hmask, trunc_bit _ _ hlow, csrNew_bit hvalue (by omega), hold]

theorem IsCsr.kept (hcsr : IsCsr inst) (hmode : c.privMode = .supervisor)
    {instPc nextPc : BitVec 64}
    (hrun : execute inst instPc nextPc profile c = some (result, c')) :
    MachineInterruptsKept c.csrs c'.csrs := by
  rcases hcsr.csrs hrun with hsame | ⟨value, hpermitted, hwritten⟩
  · rw [hsame]
    exact .of_regs rfl (Agree.refl _ _) (Agree.refl _ _)
  · have hbelow : c.privMode ≠ .machine := by simp [hmode]
    have haddr : ¬ MachineLevel (csr inst) :=
      not_machineLevel_of_accessible (accessible_of_csrPermitted hpermitted)
        hbelow
    have hguarded :=
      writeCsr_guarded { c with pc := nextPc } haddr value
    rw [← hwritten] at hguarded
    refine .of_regs hguarded.xlen hguarded.mie ?_
    rw [hwritten, writeCsr_regs _ _ _ (by decide)]
    exact write_pending haddr c.csrs _

/-- In supervisor mode no CSR instruction masks or raises a machine interrupt,
and the windows show none; the interrupts of the supervisor stay in reach,
whatever is delegated. -/
theorem machine_interrupts_kept (hcsr : IsCsr inst)
    (hmode : c.privMode = .supervisor) {instPc nextPc : BitVec 64}
    (hrun : execute inst instPc nextPc profile c = some (result, c')) :
    MachineInterruptsKept c.csrs c'.csrs ∧ WindowsWritten inst c c' result := by
  refine ⟨hcsr.kept hmode hrun, fun hsie hform => ?_, fun hsip hform => ?_⟩
  · have hview : ∀ f : CsrFile, f.view (csr inst) =
        f.regs Csr.MIE &&& IntBit.S_VISIBLE := by
      rw [hsie]
      exact fun _ => rfl
    have hwrite : ∀ (f : CsrFile) value, (f.write (csr inst) value).regs
        Csr.MIE = merge (f.regs Csr.MIE) IntBit.S_VISIBLE value := by
      rw [hsie]
      exact fun f _ => force_regs_same f _ _
    obtain ⟨hok, hbits⟩ := window_written hcsr hmode hform (Or.inl hsie) _ _
      (by decide) hview (fun _ => rfl) hwrite hrun
    exact ⟨hok, fun i hi => hbits i hi (by rw [visible_bit, decide_eq_true hi])⟩
  · have hview : ∀ f : CsrFile, f.view (csr inst) =
        f.regs Csr.MIP &&& IntBit.S_VISIBLE := by
      rw [hsip]
      exact fun _ => rfl
    have hwrite : ∀ (f : CsrFile) value, (f.write (csr inst) value).regs
        Csr.MIP = merge (f.regs Csr.MIP) IntBit.SSIP value := by
      rw [hsip]
      exact fun f _ => force_regs_same f _ _
    obtain ⟨hok, hbits⟩ := window_written hcsr hmode hform (Or.inr hsip) _ _
      (by decide) hview (fun _ => rfl) hwrite hrun
    exact ⟨hok, hbits 1 (by decide) (by decide)⟩

/-- A program that enters supervisor mode with nothing delegated and sets SSIE
there. -/
def maskingHart : Cpu :=
  programmedHart .rv64
    [ -- lui t0, 1; srli t0, t0, 1; csrrw x0, mstatus, t0
      0x000012b7, 0x0012d293, 0x30029073,
      -- auipc t1, 0; addi t1, t1, 16; csrrw x0, mepc, t1; mret
      0x00000317, 0x01030313, 0x34131073, 0x30200073,
      -- csrrsi x0, sie, 2
      0x10416073]

theorem maskingHart_run :
    Reachable .debug (Started .debug) ((stepped .debug)^[7] maskingHart) := by
  refine ⟨maskingHart, Or.inl (programmedHart_loaded .debug .rv64 (by decide)),
    Run.iterate ?_ fun _ _ => trivial⟩
  decide +kernel

/-- The software interrupt is not delegated, and the enable it sets is the one
that changes. -/
theorem machine_interrupts_kept_undelegated :
    ∃ c result c', c.privMode = .supervisor ∧ c.csrs.read Csr.MIDELEG = 0 ∧
      execute 0x10416073 c.pc (c.pc + 4) .debug c = some (result, c') ∧
      (c.csrs.read Csr.MIE).getLsbD 1 = false ∧
      (c'.csrs.read Csr.MIE).getLsbD 1 = true ∧
      MachineInterruptsKept c.csrs c'.csrs ∧
      WindowsWritten 0x10416073 c c' result := by
  have hmode : ((stepped .debug)^[7] maskingHart).privMode = .supervisor := by
    decide +kernel
  have hset : (execute 0x10416073 ((stepped .debug)^[7] maskingHart).pc
      (((stepped .debug)^[7] maskingHart).pc + 4) .debug
      ((stepped .debug)^[7] maskingHart)).map
        (fun run => (run.2.csrs.read Csr.MIE).getLsbD 1) = some true := by
    decide +kernel
  obtain ⟨⟨result, c'⟩, hrun, hbit⟩ := Option.map_eq_some_iff.mp hset
  have hcsr : IsCsr 0x10416073 := ⟨by decide, by decide⟩
  obtain ⟨hkept, hwritten⟩ := machine_interrupts_kept hcsr hmode hrun
  exact ⟨_, result, c', hmode, by decide +kernel, hrun, by decide +kernel, hbit,
    hkept, hwritten⟩

/-- Supervisor code sees and unmasks its software interrupt, which machine
mode has not delegated. -/
theorem undelegated_interrupt_unmasked :
    ∃ c, Reachable .debug (Started .debug) c ∧ c.privMode = .supervisor ∧
      c.retiredInst .debug = some 0x10416073 ∧ IsCsr 0x10416073 ∧
      c.csrs.read Csr.MIDELEG = 0 ∧ c.csrs.read Csr.MIE = 0 ∧
      (stepped .debug c).csrs.read Csr.MIE = IntBit.SSIP ∧
      (stepped .debug c).csrs.read Csr.SIE = IntBit.SSIP :=
  ⟨_, maskingHart_run, by decide +kernel, by decide +kernel,
    ⟨by decide, by decide⟩, by decide +kernel, by decide +kernel,
    by decide +kernel, by decide +kernel⟩

end Cpu

end Nanoemu
