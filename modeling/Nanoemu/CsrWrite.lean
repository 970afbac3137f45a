import Nanoemu.InstructionPhases

/-!
# What a CSR write replaces

A register number that is written stands for one register of the file.  Twenty
numbers are treated specially; every other one is stored as it comes.
-/

namespace Nanoemu

namespace CsrFile

def writeTarget (addr : BitVec 12) : BitVec 12 :=
  if addr = Csr.FFLAGS ∨ addr = Csr.FRM then Csr.FCSR
  else if addr = Csr.SSTATUS ∨ addr = Csr.MSTATUSH then Csr.MSTATUS
  else if addr = Csr.SIE then Csr.MIE
  else if addr = Csr.SIP then Csr.MIP
  else if addr = Csr.CYCLE ∨ addr = Csr.MCYCLEH then Csr.MCYCLE
  else if addr = Csr.INSTRET ∨ addr = Csr.MINSTRETH then Csr.MINSTRET
  else addr

def masked : List (BitVec 12) :=
  [Csr.FCSR, Csr.FFLAGS, Csr.FRM, Csr.MSTATUS, Csr.SSTATUS, Csr.SIE, Csr.MIE,
    Csr.SIP, Csr.MIP, Csr.MEPC, Csr.SEPC, Csr.MTVEC, Csr.STVEC, Csr.MISA,
    Csr.SATP, Csr.MCYCLEH, Csr.MINSTRETH, Csr.CYCLE, Csr.INSTRET, Csr.MSTATUSH]

theorem write_of_not_masked {addr : BitVec 12} (h : addr ∉ masked) (f : CsrFile)
    (value : BitVec 64) : f.write addr value = f.force addr value := by
  simp only [masked, List.mem_cons, List.not_mem_nil, or_false, not_or] at h
  obtain ⟨h₁, h₂, h₃, h₄, h₅, h₆, h₇, h₈, h₉, h₁₀, h₁₁, h₁₂, h₁₃, h₁₄, h₁₅, h₁₆,
    h₁₇, h₁₈, h₁₉, h₂₀⟩ := h
  simp only [write, h₁, h₂, h₃, h₄, h₅, h₆, h₇, h₈, h₉, h₁₀, h₁₁, h₁₂, h₁₃, h₁₄,
    h₁₅, h₁₆, h₁₇, h₁₈, h₁₉, h₂₀, or_self, if_false]

theorem writeTarget_of_not_masked {addr : BitVec 12} (h : addr ∉ masked) :
    writeTarget addr = addr := by
  simp only [masked, List.mem_cons, List.not_mem_nil, or_false, not_or] at h
  obtain ⟨h₁, h₂, h₃, h₄, h₅, h₆, h₇, h₈, h₉, h₁₀, h₁₁, h₁₂, h₁₃, h₁₄, h₁₅, h₁₆,
    h₁₇, h₁₈, h₁₉, h₂₀⟩ := h
  simp only [writeTarget, h₂, h₃, h₅, h₆, h₈, h₁₆, h₁₇, h₁₈, h₁₉, h₂₀, or_self,
    if_false]

theorem write_satp (f : CsrFile) (value : BitVec 64) :
    f.write Csr.SATP value =
      if satpSupported f.xlen value then f.force Csr.SATP value else f := rfl

theorem write_cases (f : CsrFile) (addr : BitVec 12) (value : BitVec 64) :
    f.write addr value = f ∨
      ∃ word, f.write addr value = f.force (writeTarget addr) word := by
  by_cases hmasked : addr ∈ masked
  · by_cases hsatp : addr = Csr.SATP
    · subst hsatp
      rw [write_satp]
      split
      · exact Or.inr ⟨value, rfl⟩
      · exact Or.inl rfl
    by_cases hmisa : addr = Csr.MISA
    · subst hmisa
      exact Or.inl rfl
    · simp only [masked, List.mem_cons, List.not_mem_nil, or_false, hsatp,
        hmisa, false_or] at hmasked
      rcases hmasked with rfl | rfl | rfl | rfl | rfl | rfl | rfl | rfl |
        rfl | rfl | rfl | rfl | rfl | rfl | rfl | rfl | rfl | rfl <;>
          exact Or.inr ⟨_, rfl⟩
  · rw [write_of_not_masked hmasked, writeTarget_of_not_masked hmasked]
    exact Or.inr ⟨value, rfl⟩

theorem write_regs_other (f : CsrFile) {addr other : BitVec 12}
    (value : BitVec 64) (hother : other ≠ writeTarget addr) :
    (f.write addr value).regs other = f.regs other := by
  rcases f.write_cases addr value with hsame | ⟨word, hforce⟩
  · rw [hsame]
  · rw [hforce, force_regs_other _ _ hother]

theorem write_xlen (f : CsrFile) (addr : BitVec 12) (value : BitVec 64) :
    (f.write addr value).xlen = f.xlen := by
  rcases f.write_cases addr value with hsame | ⟨word, hforce⟩
  · rw [hsame]
  · rw [hforce, force_xlen]

theorem mem_of_writeTarget {addr target : BitVec 12}
    (h : writeTarget addr = target) : addr ∈ target :: masked := by
  by_cases hmasked : addr ∈ masked
  · exact List.mem_cons_of_mem _ hmasked
  · rw [writeTarget_of_not_masked hmasked] at h
    exact h ▸ List.mem_cons_self

/-- What holds of every number that reaches a register, when it is checked on
the register's own and the special ones. -/
theorem writeTarget_forall (target : BitVec 12) (test : BitVec 12 → Bool)
    (hall : (target :: masked).all (fun addr =>
      writeTarget addr != target || test addr) = true)
    {addr : BitVec 12} (h : writeTarget addr = target) : test addr = true := by
  have hone := List.all_eq_true.mp hall addr (mem_of_writeTarget h)
  rw [h, bne_self_eq_false, Bool.false_or] at hone
  exact hone

end CsrFile

namespace Cpu

theorem writeCsr_frame (c : Cpu) (addr : BitVec 12) (value : BitVec 64) :
    c.writeCsr addr value = { c with
      csrs := (c.writeCsr addr value).csrs
      wroteInstret := (c.writeCsr addr value).wroteInstret } := by
  rw [writeCsr]
  dsimp only
  split <;> split <;> rfl

/-- Outside `mstatus`, which the access to a floating-point register marks
dirty, the CSRs are those of the write. -/
theorem writeCsr_regs (c : Cpu) (addr : BitVec 12) (value : BitVec 64)
    {other : BitVec 12} (hother : other ≠ Csr.MSTATUS) :
    (c.writeCsr addr value).csrs.regs other =
      (c.csrs.write addr (trunc value c.xbits)).regs other := by
  rw [writeCsr]
  dsimp only
  split
  · rw [dirtyFp]
    dsimp only
    rw [CsrFile.force_regs_other _ _ hother]
    split <;> rfl
  · split <;> rfl

end Cpu

end Nanoemu
