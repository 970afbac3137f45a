import Nanoemu.FreshHart
import Nanoemu.StepOutcome

/-!
# Precise exceptions

A step that takes an exception leaves the registers and every CSR outside the
trap registers of the entered mode as they were, and the trap registers name
the instruction that raised it.
-/

namespace Nanoemu

open CheckedProgram BitFields

namespace CsrFile

def source (addr : BitVec 12) : BitVec 12 :=
  if addr = Csr.FFLAGS ∨ addr = Csr.FRM then Csr.FCSR
  else if addr = Csr.SSTATUS ∨ addr = Csr.MSTATUSH then Csr.MSTATUS
  else if addr = Csr.SIE then Csr.MIE
  else if addr = Csr.SIP then Csr.MIP
  else if addr = Csr.CYCLE ∨ addr = Csr.CYCLEH ∨ addr = Csr.MCYCLEH then
    Csr.MCYCLE
  else if addr = Csr.INSTRET ∨ addr = Csr.INSTRETH ∨ addr = Csr.MINSTRETH then
    Csr.MINSTRET
  else if addr = Csr.TIMEH then Csr.TIME
  else addr

theorem status_congr {f f' : CsrFile}
    (h : f'.regs Csr.MSTATUS = f.regs Csr.MSTATUS) : f'.status = f.status := by
  rw [status, status, h]

theorem view_congr {f f' : CsrFile} {addr : BitVec 12}
    (h : f'.regs (source addr) = f.regs (source addr)) :
    f'.view addr = f.view addr := by
  by_cases h₁ : addr = Csr.FFLAGS
  · subst h₁
    exact congrArg (fun word => word &&& Fcsr.FLAGS) h
  by_cases h₂ : addr = Csr.FRM
  · subst h₂
    exact congrArg (fun word => (word &&& Fcsr.RM) >>> Fcsr.RM_SHIFT) h
  by_cases h₃ : addr = Csr.SSTATUS
  · subst h₃
    exact congrArg (fun word => word &&& Mstatus.S_VISIBLE)
      (status_congr h)
  by_cases h₄ : addr = Csr.MSTATUS
  · subst h₄
    exact status_congr h
  by_cases h₅ : addr = Csr.SIE
  · subst h₅
    exact congrArg (fun word => word &&& IntBit.S_VISIBLE) h
  by_cases h₆ : addr = Csr.SIP
  · subst h₆
    exact congrArg (fun word => word &&& IntBit.S_VISIBLE) h
  by_cases h₇ : addr = Csr.CYCLE
  · subst h₇
    exact h
  by_cases h₈ : addr = Csr.INSTRET
  · subst h₈
    exact h
  by_cases h₉ : addr = Csr.CYCLEH
  · subst h₉
    exact congrArg (fun word : BitVec 64 => word >>> 32) h
  by_cases h₁₀ : addr = Csr.TIMEH
  · subst h₁₀
    exact congrArg (fun word : BitVec 64 => word >>> 32) h
  by_cases h₁₁ : addr = Csr.INSTRETH
  · subst h₁₁
    exact congrArg (fun word : BitVec 64 => word >>> 32) h
  by_cases h₁₂ : addr = Csr.MCYCLEH
  · subst h₁₂
    exact congrArg (fun word : BitVec 64 => word >>> 32) h
  by_cases h₁₃ : addr = Csr.MINSTRETH
  · subst h₁₃
    exact congrArg (fun word : BitVec 64 => word >>> 32) h
  by_cases h₁₄ : addr = Csr.MSTATUSH
  · subst h₁₄
    exact congrArg (fun word : BitVec 64 => word >>> 32) (status_congr h)
  have hown : source addr = addr := by
    simp only [source, h₁, h₂, h₃, h₅, h₆, h₇, h₈, h₉, h₁₀, h₁₁, h₁₂, h₁₃, h₁₄, or_self,
      if_false]
  rw [hown] at h
  simp only [view, h₁, h₂, h₃, h₄, h₅, h₆, h₇, h₈, h₉, h₁₀, h₁₁, h₁₂, h₁₃, h₁₄, if_false, h]

theorem read_congr {f f' : CsrFile} {addr : BitVec 12}
    (hxlen : f'.xlen = f.xlen)
    (h : f'.regs (source addr) = f.regs (source addr)) :
    f'.read addr = f.read addr := by
  rw [read, read, hxlen, view_congr h]

theorem read_mstatus (f : CsrFile) :
    f.read Csr.MSTATUS =
      if f.xlen = .rv32 then f.status &&& 0xffffffff else f.status := rfl

theorem read_sstatus (f : CsrFile) :
    f.read Csr.SSTATUS = f.read Csr.MSTATUS &&& Mstatus.S_VISIBLE := by
  rw [read_mstatus]
  change (if f.xlen = .rv32 then (f.status &&& Mstatus.S_VISIBLE) &&& 0xffffffff
    else f.status &&& Mstatus.S_VISIBLE) = _
  split
  · rw [BitVec.and_assoc, BitVec.and_assoc,
      BitVec.and_comm Mstatus.S_VISIBLE]
  · rfl

def Dirty (word : BitVec 64) : Prop :=
  word &&& Mstatus.FS = Mstatus.FS ∨ word &&& Mstatus.XS = Mstatus.XS

theorem status_of_dirty {f : CsrFile} (h : Dirty (f.regs Csr.MSTATUS)) :
    f.status = f.regs Csr.MSTATUS ||| Mstatus.SD :=
  if_pos h

theorem status_of_not_dirty {f : CsrFile} (h : ¬ Dirty (f.regs Csr.MSTATUS)) :
    f.status = f.regs Csr.MSTATUS &&& ~~~Mstatus.SD :=
  if_neg h

theorem Dirty.congr {word word' : BitVec 64}
    (hfs : Agree Mstatus.FS word' word) (hxs : Agree Mstatus.XS word' word) :
    Dirty word' ↔ Dirty word := by
  rw [Dirty, Dirty, show word' &&& Mstatus.FS = word &&& Mstatus.FS from hfs,
    show word' &&& Mstatus.XS = word &&& Mstatus.XS from hxs]

/-- The bits of `mstatus` that say when SD is set, and SD. -/
def extension : BitVec 64 := Mstatus.FS ||| Mstatus.XS ||| Mstatus.SD

/-- A status word that was read keeps its SD bit when it is stored and read
again, as long as the bits that decide it are the same. -/
theorem status_stored {f : CsrFile} {word : BitVec 64}
    (hword : Agree extension word f.status) (f' : CsrFile)
    (hf' : f'.regs Csr.MSTATUS = word) : f'.status = word := by
  have hfs : Agree Mstatus.FS word (f.regs Csr.MSTATUS) :=
    (hword.mono (by decide)).trans (status_agree (by decide) f)
  have hxs : Agree Mstatus.XS word (f.regs Csr.MSTATUS) :=
    (hword.mono (by decide)).trans (status_agree (by decide) f)
  have hsd : Agree Mstatus.SD word f.status := hword.mono (by decide)
  by_cases hdirty : Dirty (f.regs Csr.MSTATUS)
  · have hdirty' : Dirty (f'.regs Csr.MSTATUS) :=
      hf'.symm ▸ (Dirty.congr hfs hxs).mpr hdirty
    have hset : f.status &&& Mstatus.SD = Mstatus.SD := by
      rw [status_of_dirty hdirty]
      apply BitVec.eq_of_getLsbD_eq
      intro i _
      rw [BitVec.getLsbD_and, BitVec.getLsbD_or]
      cases Mstatus.SD.getLsbD i <;> simp
    rw [status_of_dirty hdirty', hf']
    apply or_eq_self
    rw [BitVec.and_comm]
    exact Eq.trans hsd hset
  · have hdirty' : ¬ Dirty (f'.regs Csr.MSTATUS) := by
      rw [hf', Dirty.congr hfs hxs]
      exact hdirty
    have hclear : f.status &&& Mstatus.SD = 0 := by
      rw [status_of_not_dirty hdirty, BitVec.and_assoc,
        show ~~~Mstatus.SD &&& Mstatus.SD = 0#64 from rfl, BitVec.and_zero]
      rfl
    rw [status_of_not_dirty hdirty', hf']
    exact and_not_eq_self (Eq.trans hsd hclear)

theorem read_mstatus_stored {f f' : CsrFile} {word field : BitVec 64}
    (hxlen : f'.xlen = f.xlen) (hf' : f'.regs Csr.MSTATUS = word)
    (hextension : Agree extension word (f.read Csr.MSTATUS))
    (hfield : Agree field word (f.read Csr.MSTATUS)) :
    Agree field (f'.read Csr.MSTATUS) (f.read Csr.MSTATUS) := by
  rw [read_mstatus] at hextension hfield
  rw [read_mstatus, read_mstatus, hxlen]
  split at hextension
  · next hnarrow =>
      rw [if_pos hnarrow] at hfield
      rw [if_pos hnarrow, if_pos hnarrow, agree_and]
      have hsd : Disjoint (field &&& 0xffffffff) Mstatus.SD := by
        rw [BitFields.Disjoint, BitVec.and_assoc,
          show (0xffffffff : BitVec 64) &&& Mstatus.SD = 0#64 from rfl,
          BitVec.and_zero]
        rfl
      have hlow : Within (field &&& 0xffffffff) 0xffffffff := by
        rw [Within, BitVec.and_assoc, BitVec.and_self]
      calc f'.status &&& (field &&& 0xffffffff)
          = f'.regs Csr.MSTATUS &&& (field &&& 0xffffffff) :=
            status_agree hsd f'
        _ = word &&& (field &&& 0xffffffff) := by rw [hf']
        _ = (f.status &&& 0xffffffff) &&& (field &&& 0xffffffff) :=
            hfield.mono within_and_left
        _ = f.status &&& (field &&& 0xffffffff) := Agree.and_mask hlow
  · next hwide =>
      rw [if_neg hwide] at hfield
      rw [if_neg hwide, if_neg hwide, status_stored hextension f' hf']
      exact hfield

def aliases : List (BitVec 12) :=
  [Csr.FFLAGS, Csr.FRM, Csr.SSTATUS, Csr.MSTATUSH, Csr.SIE, Csr.SIP,
    Csr.CYCLE, Csr.CYCLEH, Csr.MCYCLEH, Csr.INSTRET, Csr.INSTRETH,
    Csr.MINSTRETH, Csr.TIMEH]

theorem source_of_not_alias {addr : BitVec 12} (h : addr ∉ aliases) :
    source addr = addr := by
  simp only [aliases, List.mem_cons, List.not_mem_nil, or_false,
    not_or] at h
  obtain ⟨h₁, h₂, h₃, h₄, h₅, h₆, h₇, h₈, h₉, h₁₀, h₁₁, h₁₂, h₁₃⟩ := h
  simp only [source, h₁, h₂, h₃, h₄, h₅, h₆, h₇, h₈, h₉, h₁₀, h₁₁, h₁₂, h₁₃,
    or_self, if_false]

end CsrFile

namespace Cpu

/-- A tick leaves what is read of the other registers. -/
theorem Ticked.read {c c' : Cpu} (h : Ticked c c') {addr : BitVec 12}
    (haddr : CsrFile.source addr ∉ tickedCsrs) :
    c'.csrs.read addr = c.csrs.read addr :=
  CsrFile.read_congr h.xlen (h.csrs _ haddr)

/-- The fields of `mstatus` that a trap into a mode writes: SIE, SPIE and SPP
are its bits 1, 5 and 8; MIE, MPIE and MPP its bits 3, 7 and 11 to 12. -/
def trapFields (mode : Priv) : BitVec 64 :=
  if mode = .supervisor then 0x122 else 0x1888

theorem trapStatus_agree {entered : Priv} {field : BitVec 64}
    (hfield : Disjoint field (trapFields entered)) (status : BitVec 64)
    (mode : Priv) : Agree field (trapStatus entered status mode) status := by
  rw [trapFields] at hfield
  rw [trapStatus]
  split
  · next hentered =>
      rw [if_pos hentered] at hfield
      have hclear : Agree field
          (status &&& ~~~(Mstatus.SPIE ||| Mstatus.SIE ||| Mstatus.SPP))
          status := Agree.and_not (hfield.mono (by decide))
      have hpie : BitFields.Disjoint field Mstatus.SPIE :=
        hfield.mono (by decide)
      have hpp : BitFields.Disjoint field Mstatus.SPP :=
        hfield.mono (by decide)
      exact (Agree.ite_or hpp).trans ((Agree.ite_or hpie).trans hclear)
  · next hentered =>
      rw [if_neg hentered] at hfield
      have hclear : Agree field
          (status &&& ~~~(Mstatus.MPIE ||| Mstatus.MIE ||| Mstatus.MPP))
          status := Agree.and_not (hfield.mono (by decide))
      have hpie : BitFields.Disjoint field Mstatus.MPIE :=
        hfield.mono (by decide)
      have hpp : BitFields.Disjoint field
          (mode.toBits <<< Mstatus.MPP_SHIFT) :=
        hfield.mono (by cases mode <;> decide)
      exact (Agree.or_right hpp).trans ((Agree.ite_or hpie).trans hclear)

/-- The numbers whose value a trap into a mode may change: the trap registers
of the mode, the status registers, and what the tick moves. -/
def movedBy (mode : Priv) : List (BitVec 12) :=
  [trapEpc mode, trapCause mode, trapTval mode, Csr.MSTATUS, Csr.SSTATUS,
    Csr.MSTATUSH, Csr.MCYCLE, Csr.MCYCLEH, Csr.CYCLE, Csr.CYCLEH, Csr.TIME,
    Csr.TIMEH, Csr.MIP, Csr.SIP]

/-- The registers a step that traps into a mode writes. -/
def writtenBy (mode : Priv) : List (BitVec 12) :=
  [trapEpc mode, trapCause mode, trapTval mode, Csr.MSTATUS] ++ tickedCsrs

theorem source_not_written {mode : Priv} {addr : BitVec 12}
    (haddr : addr ∉ movedBy mode) : CsrFile.source addr ∉ writtenBy mode := by
  by_cases halias : addr ∈ CsrFile.aliases
  · have hall : CsrFile.aliases.all (fun addr => (movedBy mode).contains addr ||
        !(writtenBy mode).contains (CsrFile.source addr)) = true := by
      cases mode <;> decide
    have hone := List.all_eq_true.mp hall addr halias
    simpa [haddr] using hone
  · rw [CsrFile.source_of_not_alias halias]
    intro hwritten
    have hwithin : ∀ mode, writtenBy mode ⊆ movedBy mode := by
      intro mode
      cases mode <;> decide
    exact haddr (hwithin mode hwritten)

theorem trapCsrs_regs_other {c : Cpu} {entered : Priv} {addr : BitVec 12}
    (haddr : addr ∉ writtenBy entered) (word tval epc : BitVec 64) :
    (c.trapCsrs entered word tval epc).regs addr = c.csrs.regs addr := by
  simp only [writtenBy, List.cons_append, List.mem_cons, not_or] at haddr
  obtain ⟨hepc, hcause, htval, hstatus, -⟩ := haddr
  rw [trapCsrs, CsrFile.force_regs_other _ _ hstatus,
    CsrFile.force_regs_other _ _ htval, CsrFile.force_regs_other _ _ hcause,
    CsrFile.force_regs_other _ _ hepc]

theorem trapCsrs_regs (c : Cpu) (entered : Priv) (word tval epc : BitVec 64) :
    (c.trapCsrs entered word tval epc).regs (trapEpc entered) = epc ∧
      (c.trapCsrs entered word tval epc).regs (trapCause entered) = word ∧
      (c.trapCsrs entered word tval epc).regs (trapTval entered) = tval := by
  cases entered <;> refine ⟨?_, ?_, ?_⟩ <;>
    simp [trapCsrs, CsrFile.force, trapEpc, trapCause, trapTval,
      Csr.SEPC, Csr.SCAUSE, Csr.STVAL, Csr.MEPC,
      Csr.MCAUSE, Csr.MTVAL, Csr.MSTATUS]

theorem trapCsrs_status (c : Cpu) (entered : Priv)
    (word tval epc : BitVec 64) :
    Agree (~~~trapFields entered)
      ((c.trapCsrs entered word tval epc).read Csr.MSTATUS)
      (c.csrs.read Csr.MSTATUS) := by
  have hstored : (c.trapCsrs entered word tval epc).regs Csr.MSTATUS =
      trapStatus entered (c.csrs.read Csr.MSTATUS) c.privMode :=
    CsrFile.force_regs_same _ _ _
  refine CsrFile.read_mstatus_stored rfl hstored ?_ ?_
  · apply trapStatus_agree
    cases entered <;> decide
  · apply trapStatus_agree
    cases entered <;> decide

/-! ## The state after an exception -/

/-- What a handler is told of an exception that was raised in a mode: the cause
and the value that the specification gives it. -/
inductive Told : Exception → Priv → BitVec 64 → BitVec 64 → Prop where
  | instructionAddressMisaligned (addr : BitVec 64) (mode : Priv) :
      Told (.instructionAddressMisaligned addr) mode 0 addr
  | instructionAccessFault (addr : BitVec 64) (mode : Priv) :
      Told (.instructionAccessFault addr) mode 1 addr
  | illegalInstruction (inst : BitVec 32) (mode : Priv) :
      Told (.illegalInstruction inst) mode 2 (inst.setWidth 64)
  | breakpoint (mode : Priv) : Told .breakpoint mode 3 0
  | loadAddressMisaligned (addr : BitVec 64) (mode : Priv) :
      Told (.loadAddressMisaligned addr) mode 4 addr
  | loadAccessFault (addr : BitVec 64) (mode : Priv) :
      Told (.loadAccessFault addr) mode 5 addr
  | storeAddressMisaligned (addr : BitVec 64) (mode : Priv) :
      Told (.storeAddressMisaligned addr) mode 6 addr
  | storeAccessFault (addr : BitVec 64) (mode : Priv) :
      Told (.storeAccessFault addr) mode 7 addr
  | userCall : Told .environmentCall .user 8 0
  | supervisorCall : Told .environmentCall .supervisor 9 0
  | machineCall : Told .environmentCall .machine 11 0
  | instructionPageFault (addr : BitVec 64) (mode : Priv) :
      Told (.instructionPageFault addr) mode 12 addr
  | loadPageFault (addr : BitVec 64) (mode : Priv) :
      Told (.loadPageFault addr) mode 13 addr
  | storePageFault (addr : BitVec 64) (mode : Priv) :
      Told (.storePageFault addr) mode 15 addr

theorem told (e : Exception) (mode : Priv) :
    Told e mode (BitVec.ofNat 64 (e.cause mode)) e.tval := by
  cases e with
  | environmentCall => cases mode <;> constructor
  | _ => constructor

/-- The hart after the exception `e` of the instruction at `c.pc`, against the
hart before the step. -/
structure Precise (c : Cpu) (e : Exception) (c' : Cpu) : Prop where
  regs : c'.regs = c.regs
  fregs : c'.fregs = c.fregs
  reservation : c'.reservation = c.reservation
  fcsr : c'.csrs.read Csr.FCSR = c.csrs.read Csr.FCSR
  csrs : ∀ addr ∉ movedBy c'.privMode,
    c'.csrs.read addr = c.csrs.read addr
  mstatus : Agree (~~~trapFields c'.privMode)
    (c'.csrs.read Csr.MSTATUS) (c.csrs.read Csr.MSTATUS)
  sstatus : Agree (~~~trapFields c'.privMode)
    (c'.csrs.read Csr.SSTATUS) (c.csrs.read Csr.SSTATUS)
  epc : c'.csrs.regs (trapEpc c'.privMode) = c.pc
  told : Told e c.privMode (c'.csrs.regs (trapCause c'.privMode))
    (c'.csrs.regs (trapTval c'.privMode))

theorem Accessed.registers {c c₁ : Cpu} (h : Accessed c.ticked c₁) :
    c₁.regs = c.regs ∧ c₁.fregs = c.fregs ∧
      c₁.reservation = c.reservation ∧ c₁.privMode = c.privMode ∧
      c₁.csrs = c.ticked.csrs := by
  obtain ⟨c₂, mem, hwalked, -, rfl⟩ := h
  have hticked := (ticked_ticked c).frame
  refine ⟨?_, ?_, ?_, ?_, hwalked.csrs⟩
  · exact (congrArg Cpu.regs hwalked.frame :).trans
      (congrArg Cpu.regs hticked :)
  · exact (congrArg Cpu.fregs hwalked.frame :).trans
      (congrArg Cpu.fregs hticked :)
  · exact (congrArg Cpu.reservation hwalked.frame :).trans
      (congrArg Cpu.reservation hticked :)
  · exact hwalked.privMode.trans (ticked_ticked c).privMode

/-- Exceptions are precise. -/
theorem exception_precise {profile : Profile} {c c' : Cpu} {e : Exception}
    (hstep : step profile c = some (.error e, c')) : Precise c e c' := by
  cases step_stepped hstep with
  | @exception _ c₁ _ _ haccessed _ htrap =>
      obtain ⟨hregs, hfregs, hreservation, hmode, hcsrs⟩ :=
        haccessed.registers
      have hticked := ticked_ticked c
      have hfile : ∀ addr ∉ tickedCsrs,
          c₁.csrs.regs addr = c.csrs.regs addr := fun addr haddr =>
        (congrArg (·.regs addr) hcsrs).trans (hticked.csrs addr haddr)
      have hxlen : c₁.csrs.xlen = c.csrs.xlen :=
        (congrArg CsrFile.xlen hcsrs).trans hticked.xlen
      have hstatus : c₁.csrs.read Csr.MSTATUS = c.csrs.read Csr.MSTATUS :=
        CsrFile.read_congr hxlen (hfile _ (by decide))
      have hpc : c.ticked.pc = c.pc := (congrArg Cpu.pc hticked.frame :)
      have hword : c₁.causeValue (e.cause c₁.privMode) false =
          BitVec.ofNat 64 (e.cause c.privMode) := by
        rw [causeValue, hmode, if_neg Bool.false_ne_true]
        exact BitVec.or_zero
      obtain ⟨entered, pc, -, rfl⟩ := htrap.spec
      rw [hword, hpc]
      obtain ⟨hepc, hcause, htval⟩ := trapCsrs_regs c₁ entered
        (BitVec.ofNat 64 (e.cause c.privMode)) e.tval c.pc
      have hother : ∀ addr ∉ movedBy entered,
          (c₁.trapCsrs entered (BitVec.ofNat 64 (e.cause c.privMode)) e.tval
            c.pc).read addr = c.csrs.read addr := by
        intro addr haddr
        have hsource := source_not_written haddr
        refine CsrFile.read_congr (Eq.trans rfl hxlen) ?_
        rw [trapCsrs_regs_other hsource]
        exact hfile _ fun hmember =>
          hsource (List.mem_append_right _ hmember)
      have hagree := trapCsrs_status c₁ entered
        (BitVec.ofNat 64 (e.cause c.privMode)) e.tval c.pc
      rw [hstatus] at hagree
      exact
        { regs := hregs
          fregs := hfregs
          reservation := hreservation
          fcsr := hother Csr.FCSR (by cases entered <;> decide)
          csrs := hother
          mstatus := hagree
          sstatus := by
            rw [CsrFile.read_sstatus, CsrFile.read_sstatus]
            exact hagree.and _
          epc := hepc
          told := by
            rw [hcause, htval]
            exact told e c.privMode }

/-- The first step from an address that is not mapped. -/
theorem exception_precise_unmapped :
    ∃ c', step .debug { blankHart with pc := 0x10000 } =
        some (.error (.instructionAccessFault 0x10000), c') ∧
      (c'.privMode = .machine ∧ c'.csrs.regs Csr.MEPC = 0x10000 ∧
        c'.csrs.regs Csr.MCAUSE = 1 ∧ c'.csrs.regs Csr.MTVAL = 0x10000) ∧
      Precise { blankHart with pc := 0x10000 }
        (.instructionAccessFault 0x10000) c' := by
  have hfails : (step .debug { blankHart with pc := 0x10000 }).map
      (fun (result, c') => (result, c'.privMode, c'.csrs.regs Csr.MEPC,
        c'.csrs.regs Csr.MCAUSE, c'.csrs.regs Csr.MTVAL)) =
      some (.error (.instructionAccessFault 0x10000), .machine, 0x10000, 1,
        0x10000) := by
    decide +kernel
  obtain ⟨⟨result, c'⟩, hstep, hresult⟩ := Option.map_eq_some_iff.mp hfails
  simp only [Prod.mk.injEq] at hresult
  obtain ⟨rfl, hregs⟩ := hresult
  exact ⟨c', hstep, hregs, exception_precise hstep⟩

end Cpu

end Nanoemu
