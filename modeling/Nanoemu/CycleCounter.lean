import Nanoemu.CsrMoves
import Nanoemu.DeviceScan

/-!
# The cycle counter

The hart counts its steps in a field of its own and copies the count onto the
counter in every step.  What an instruction writes to the counter is therefore
gone by the next step, unless it is the count itself.
-/

namespace Nanoemu

open CheckedProgram

namespace CsrFile

/-- Every number of the counter reads `count`, whole or in halves. -/
structure CounterReads (f : CsrFile) (count : BitVec 64) : Prop where
  mcycle : f.read Csr.MCYCLE = trunc count f.xlen.bits
  cycle : f.read Csr.CYCLE = trunc count f.xlen.bits
  high : f.xlen = .rv32 →
    f.read Csr.MCYCLEH = count >>> 32 ∧ f.read Csr.CYCLEH = count >>> 32

theorem high_half_fits (word : BitVec 64) :
    word >>> 32 &&& (0xffffffff : BitVec 64) = word >>> 32 := by
  have hmask : ∀ j < 64, (0xffffffff : BitVec 64).getLsbD j = decide (j < 32) := by
    decide
  apply BitVec.eq_of_getLsbD_eq
  intro i hi
  rw [BitVec.getLsbD_and, BitVec.getLsbD_ushiftRight, hmask i hi]
  by_cases hlow : i < 32
  · simp [hlow]
  · simp [BitVec.getLsbD_of_ge word (32 + i) (by omega)]

theorem counterReads_iff (f : CsrFile) (count : BitVec 64) :
    f.CounterReads count ↔ f.regs Csr.MCYCLE = count := by
  cases hxlen : f.xlen with
  | rv64 =>
      have hread : f.read Csr.MCYCLE = f.regs Csr.MCYCLE :=
        if_neg (by rw [hxlen]; decide)
      have hcount : trunc count f.xlen.bits = count := by
        rw [hxlen]
        rfl
      constructor
      · intro hreads
        rw [← hread, hreads.mcycle, hcount]
      · intro hregs
        have hmcycle : f.read Csr.MCYCLE = trunc count f.xlen.bits := by
          rw [hread, hcount, hregs]
        exact ⟨hmcycle, hmcycle, fun hnarrow => by
          rw [hxlen] at hnarrow
          cases hnarrow⟩
  | rv32 =>
      have hlow : f.read Csr.MCYCLE = f.regs Csr.MCYCLE &&& 0xffffffff :=
        if_pos hxlen
      have hhigh : f.read Csr.MCYCLEH =
          f.regs Csr.MCYCLE >>> 32 &&& 0xffffffff := if_pos hxlen
      have hcount : trunc count f.xlen.bits = count &&& 0xffffffff := by
        rw [hxlen]
        rfl
      constructor
      · intro hreads
        have hmcycle := hreads.mcycle
        have hmcycleh := (hreads.high hxlen).1
        rw [hlow, hcount] at hmcycle
        rw [hhigh] at hmcycleh
        rw [← Cpu.halves_join (f.regs Csr.MCYCLE), hmcycle, hmcycleh,
          ← high_half_fits count]
        exact Cpu.halves_join count
      · intro hregs
        have hmcycle : f.read Csr.MCYCLE = trunc count f.xlen.bits := by
          rw [hlow, hcount, hregs]
        have hmcycleh : f.read Csr.MCYCLEH = count >>> 32 := by
          rw [hhigh, hregs, high_half_fits]
        exact ⟨hmcycle, hmcycle, fun _ => ⟨hmcycleh, hmcycleh⟩⟩

end CsrFile

namespace Cpu

variable {profile : Profile} {c c' : Cpu} {outcome : Except Exception Unit}

theorem reflect_counter (f : CsrFile) (bit : BitVec 64) (condition : Bool) :
    (reflect f bit condition).regs Csr.MCYCLE = f.regs Csr.MCYCLE := by
  unfold reflect
  split <;> exact CsrFile.force_regs_other _ _ (by decide)

theorem tickClint_counter (c : Cpu) :
    c.tickClint.csrs.regs Csr.MCYCLE = c.csrs.regs Csr.MCYCLE := by
  have htime : ∀ mtime, (c.csrs.force Csr.TIME mtime).regs Csr.MCYCLE =
      c.csrs.regs Csr.MCYCLE :=
    fun _ => CsrFile.force_regs_other _ _ (by decide)
  unfold tickClint
  dsimp only
  rw [reflect_counter]
  split
  · split
    · exact (CsrFile.force_regs_other _ _ (by decide)).trans (htime _)
    · exact htime _
  · rw [reflect_counter]
    exact htime _

theorem scanDevices_counter (c : Cpu) :
    c.scanDevices.csrs.regs Csr.MCYCLE = c.csrs.regs Csr.MCYCLE := by
  unfold scanDevices
  dsimp only
  rw [reflect_counter, reflect_counter]

theorem ticked_count (c : Cpu) :
    c.ticked.cycle = c.cycle + 1 ∧
      c.ticked.csrs.regs Csr.MCYCLE = c.cycle + 1 := by
  have hcounted : c.counted.csrs.regs Csr.MCYCLE = c.cycle + 1 :=
    CsrFile.force_regs_same _ _ _
  by_cases hscans : Scans c
  · rw [ticked_of_scans hscans]
    exact ⟨(tickClint_kept c.counted).2, by
      rw [scanDevices_counter, tickClint_counter, hcounted]⟩
  · rw [(ticked_of_not_scans hscans).1]
    exact ⟨(tickClint_kept c.counted).2, by rw [tickClint_counter, hcounted]⟩

theorem Command.cycle {start : Cpu} {inst : BitVec 32}
    (h : Command start inst c c') : c'.cycle = c.cycle := by
  cases h with
  | csr value _ _ => rw [writeCsr_frame]
  | _ => rfl

theorem Effect.cycle {start : Cpu} {inst : BitVec 32} {instPc : BitVec 64}
    (h : Effect start inst instPc c c') : c'.cycle = c.cycle := by
  cases h with
  | register r v =>
      unfold setReg
      split <;> rfl
  | flags raised _ =>
      unfold setFflags
      split <;> rfl
  | _ => rfl

theorem Executed.cycle {start : Cpu} {inst : BitVec 32} {instPc : BitVec 64}
    (h : Executed start inst instPc c c') : c'.cycle = c.cycle := by
  have htouch : ∀ {x : Cpu}, Touched c x → x.cycle = c.cycle :=
    fun htouched => (congrArg Cpu.cycle htouched.frame :)
  exact h.induction htouch
    (fun hcommand hsame => hcommand.cycle.trans hsame)
    fun heffect hsame => heffect.cycle.trans hsame

theorem step_cycle (hstep : step profile c = some (outcome, c')) :
    c'.cycle = c.cycle + 1 := by
  have hreached : ∀ {x : Cpu}, Reached c x → x.cycle = c.cycle + 1 :=
    fun hx => (congrArg Cpu.cycle hx.frame :).trans (ticked_count c).1
  cases step_outline hstep with
  | @trapped x _ _ _ _ hx htrap =>
      obtain ⟨entered, word, pc, -, -, rfl⟩ :=
        (takeTrap_enters _ _ _ _ profile x).ok htrap
      have hkept : x.cycle = c.cycle + 1 := hreached hx
      exact hkept
  | @retired inst len c₁ c₂ hx _ _ _ hexecuted =>
      have hkept : c₂.cycle = c₁.cycle := hexecuted.cycle
      unfold retire
      split
      · exact hkept.trans (hreached hx)
      · exact hkept.trans (hreached hx)
  | @answered x _ hx hanswer =>
      have hanswered := (answerCall_answers profile x).ok hanswer
      have hkept : c'.cycle = x.cycle := (congrArg Cpu.cycle hanswered.frame :)
      exact hkept.trans (hreached hx)

theorem History.cycle {c₀ : Cpu} {past : List Cpu}
    (hrun : History profile c₀ past c) :
    c.cycle = c₀.cycle + BitVec.ofNat 64 past.length := by
  induction hrun with
  | start => simp
  | step _ hstep ih =>
      rw [step_cycle hstep, ih, List.length_cons, BitVec.ofNat_add,
        BitVec.add_assoc]
      rfl
  | input bytes _ ih => exact ih

/-! ## Writing the counter -/

/-- The step from `c` retires an instruction that sets the counter to `count`.
On RV32 one number replaces the high half only; the other is taken to clear the
high half, as it does here, or to keep it. -/
inductive CycleWrite (profile : Profile) (c : Cpu) : BitVec 64 → Prop where
  | whole {value : BitVec 64} : WritesNow profile c Csr.MCYCLE value →
      CycleWrite profile c value
  | low {value : BitVec 64} : c.xlen = .rv32 →
      WritesNow profile c Csr.MCYCLE value →
      CycleWrite profile c
        ((c.ticked.csrs.regs Csr.MCYCLE &&& ~~~0xffffffff) ||| value)
  | high {value : BitVec 64} : c.xlen = .rv32 →
      WritesNow profile c Csr.MCYCLEH value →
      CycleWrite profile c
        ((value <<< 32) ||| (c.ticked.csrs.regs Csr.MCYCLE &&& 0xffffffff))

/-- After a write of the counter, each later step reads what was written and
the steps since, if and only if the count of the step that wrote it was
written. -/
theorem cycle_write_iff (hstep : step profile c = some (outcome, c'))
    {past : List Cpu} {x : Cpu} (hlater : History profile c' past x) :
    ∀ count, CycleWrite profile c count →
      (x.ticked.csrs.CounterReads
          (count + BitVec.ofNat 64 (past.length + 1)) ↔
        count = c.cycle + 1) := by
  intro count _
  have hcount : x.ticked.csrs.regs Csr.MCYCLE =
      c.cycle + 1 + BitVec.ofNat 64 (past.length + 1) := by
    rw [(ticked_count x).2, hlater.cycle, step_cycle hstep, BitVec.ofNat_add,
      BitVec.add_assoc _ (BitVec.ofNat 64 past.length)]
    rfl
  rw [CsrFile.counterReads_iff, hcount, BitVec.add_left_inj]
  exact eq_comm

/-- A program whose first instruction sets the counter to a small number:
`csrrwi x0, mcycle, count`, then no-ops. -/
def countingHart (count : BitVec 32) : Cpu :=
  programmedHart .rv64 [0xb0005073 ||| (count <<< 15), 0x00000013, 0x00000013]

theorem countingHart_first :
    step .debug (countingHart 1) =
      some (.ok (), stepped .debug (countingHart 1)) :=
  step_eq_stepped (by decide +kernel)

theorem countingHart_writes :
    CycleWrite .debug (countingHart 1) 1 ∧
      CycleWrite .debug (countingHart 5) 5 := by
  constructor
  · exact .whole ⟨0xb000d073, by decide +kernel, by decide, by decide,
      by decide +kernel⟩
  · exact .whole ⟨0xb002d073, by decide +kernel, by decide, by decide,
      by decide +kernel⟩

/-- In the first step the count is one, and writing one is right. -/
theorem cycle_write_one :
    (stepped .debug (countingHart 1)).ticked.csrs.CounterReads 2 :=
  (cycle_write_iff countingHart_first .start 1 countingHart_writes.1).mpr
    (by decide +kernel)

/-- Anything else is lost: five and the one step since are not six. -/
theorem cycle_write_lost :
    ∃ c c' x past count, Started .debug c ∧
      step .debug c = some (.ok (), c') ∧ History .debug c' past x ∧
      CycleWrite .debug c count ∧
      ¬ x.ticked.csrs.CounterReads
        (count + BitVec.ofNat 64 (past.length + 1)) := by
  have hstep : step .debug (countingHart 5) =
      some (.ok (), stepped .debug (countingHart 5)) :=
    step_eq_stepped (by decide +kernel)
  have hstart : Started .debug (countingHart 5) :=
    Or.inl (programmedHart_loaded .debug .rv64 (by decide))
  refine ⟨_, _, _, [], 5, hstart, hstep, .start, countingHart_writes.2, ?_⟩
  intro hreads
  exact absurd hreads.mcycle (by decide +kernel)

end Cpu

end Nanoemu
