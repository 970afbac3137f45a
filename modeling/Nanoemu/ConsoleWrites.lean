import Nanoemu.ConsoleStreams

/-!
# Writing to the debug console

A kernel hands the firmware a buffer of physical memory to print.  The loop of
the firmware goes byte by byte and gives up at the end of DRAM, so it prints the
part of the buffer that is there, and says how long that is.
-/

namespace Nanoemu

open CheckedProgram

/-- How much of a stretch of addresses lies in DRAM, if its start does. -/
def Memory.present (mem : Memory) (addr : BitVec 64) (len : ℕ) : ℕ :=
  min len (mem.dram.len - Memory.offset addr)

/-- What is there of it. -/
def Memory.text (mem : Memory) (addr : BitVec 64) (len : ℕ) :
    List (BitVec 8) :=
  (List.range' (Memory.offset addr) (mem.present addr len)).map mem.dram.byte

namespace Cpu

variable {profile : Profile} {c c' : Cpu} {outcome : Except Exception Unit}

/-- The console has printed some bytes. -/
def printing (c : Cpu) (bytes : List (BitVec 8)) : Cpu :=
  { c with
    mem := { c.mem with
      uart := { c.mem.uart with tx := c.mem.uart.tx ++ bytes } } }

@[simp] theorem printing_nil (c : Cpu) : c.printing [] = c := by
  simp [printing]

@[simp] theorem printing_printing (c : Cpu) (first second : List (BitVec 8)) :
    (c.printing first).printing second = c.printing (first ++ second) := by
  simp [printing]

section Byte

variable {addr : BitVec 64}

theorem loadLe_byte (dram : Dram) (i : ℕ) :
    (dram.loadLe i 1).setWidth 8 = dram.byte i := by
  simp [Dram.loadLe]

theorem putchar_run (byte : BitVec 8) :
    (onUart fun uart => uart.putchar byte) profile c =
      some (.ok (), c.printing [byte]) :=
  rfl

theorem tryRead_present (hin : c.mem.InDram addr 1) :
    tryRead addr 1 profile c =
      some (.ok (.ok (c.mem.dram.loadLe (Memory.offset addr) 1)), c) := by
  apply Program.attempt_run_some
  unfold onMemory Program.zoom
  rw [Memory.read_inDram hin rfl]

theorem tryRead_absent (hbase : DRAM_BASE ≤ addr)
    (hout : ¬ c.mem.InDram addr 1) :
    tryRead addr 1 profile c = some (.ok (.error .unmapped), c) := by
  have hread : Memory.read addr 1 profile c.mem =
      some (.error .unmapped, c.mem) := by
    rw [Memory.read, if_pos hbase,
      Program.bind_run_ok (Program.read_run _ _ _),
      Memory.index_of_not_inDram hout]
    rfl
  apply Program.attempt_run_some
  unfold onMemory Program.zoom
  rw [hread]

theorem inDram_byte_iff (hbase : DRAM_BASE ≤ addr) (mem : Memory) :
    mem.InDram addr 1 ↔ Memory.offset addr < mem.dram.len := by
  have hlt := addr.isLt
  have hdram : DRAM_BASE.toNat = 0x80000000 := rfl
  unfold Memory.InDram Memory.offset
  rw [BitVec.le_def] at *
  omega

end Byte

theorem present_next {mem : Memory} {addr : BitVec 64} {remaining : ℕ}
    (hthere : Memory.offset addr < mem.dram.len)
    (hnext : Memory.offset (addr + 1) = Memory.offset addr + 1) :
    mem.present addr (remaining + 1) =
      mem.present (addr + 1) remaining + 1 := by
  unfold Memory.present
  rw [hnext]
  omega

theorem text_next {mem : Memory} {addr : BitVec 64} {remaining : ℕ}
    (hthere : Memory.offset addr < mem.dram.len)
    (hnext : Memory.offset (addr + 1) = Memory.offset addr + 1) :
    mem.text addr (remaining + 1) =
      [mem.dram.byte (Memory.offset addr)] ++
        mem.text (addr + 1) remaining := by
  unfold Memory.text
  rw [present_next hthere hnext, List.range'_succ, List.map_cons, hnext]
  rfl

theorem count_next (i : BitVec 64) (n : ℕ) :
    i + 1 + BitVec.ofNat 64 n = i + BitVec.ofNat 64 (n + 1) := by
  rw [Nat.add_comm n, BitVec.ofNat_add, BitVec.add_assoc]
  rfl

/-- From byte `i` on the loop prints what is there of the rest of the
buffer. -/
theorem consoleWrite_run (profile : Profile) (c : Cpu)
    {buffer i : BitVec 64} {remaining : ℕ} (hbase : DRAM_BASE ≤ buffer)
    (hroom : buffer.toNat + i.toNat + remaining < 2 ^ 64) :
    consoleWrite buffer remaining i profile c =
      some (.ok (i + BitVec.ofNat 64 (c.mem.present (buffer + i) remaining)),
        c.printing (c.mem.text (buffer + i) remaining)) := by
  induction remaining generalizing i c with
  | zero => simp [consoleWrite, Memory.present, Memory.text]
  | succ remaining ih =>
      have hsum : (buffer + i).toNat = buffer.toNat + i.toNat := by
        rw [BitVec.toNat_add, Nat.mod_eq_of_lt (by omega)]
      have hone : (1 : BitVec 64).toNat = 1 := rfl
      have hnext : (i + 1).toNat = i.toNat + 1 := by
        rw [BitVec.toNat_add, hone, Nat.mod_eq_of_lt (by omega)]
      have hlow : DRAM_BASE ≤ buffer + i := by
        rw [BitVec.le_def] at hbase ⊢
        omega
      have hadd : Checked.add buffer i = pure (buffer + i) :=
        Checked.add_eq_pure (by omega)
      have hcount : Checked.add i 1 = pure (i + 1) :=
        Checked.add_eq_pure (by omega)
      rw [consoleWrite, hadd, Program.check_pure, pure_bind]
      by_cases hin : c.mem.InDram (buffer + i) 1
      · have hthere := (inDram_byte_iff hlow c.mem).mp hin
        have hoffset : Memory.offset (buffer + i + 1) =
            Memory.offset (buffer + i) + 1 := by
          unfold Memory.offset
          rw [BitVec.toNat_add, hone, hsum, Nat.mod_eq_of_lt (by omega)]
          rw [BitVec.le_def] at hlow
          omega
        rw [Program.bind_run_ok (tryRead_present hin)]
        dsimp only
        rw [Program.bind_run_ok (putchar_run _), hcount, Program.check_pure,
          pure_bind, loadLe_byte]
        have hrest := ih (i := i + 1)
          (c.printing [c.mem.dram.byte (Memory.offset (buffer + i))]) (by omega)
        rw [← BitVec.add_assoc, printing_printing, count_next] at hrest
        rw [text_next hthere hoffset, present_next hthere hoffset]
        exact hrest
      · have hnone := mt (inDram_byte_iff hlow c.mem).mpr hin
        have hempty : c.mem.present (buffer + i) (remaining + 1) = 0 := by
          unfold Memory.present
          omega
        rw [Program.bind_run_ok (tryRead_absent hlow hin)]
        simp [Memory.text, hempty]

/-! ## The call -/

theorem answerCall_prints (profile : Profile)
    (hconsole : c.regs 17 = Sbi.EXT_DBCN)
    (hwrite : c.regs 16 = 0) (hbase : DRAM_BASE ≤ c.regs a1)
    (hroom : (c.regs a1).toNat + (c.regs a0).toNat < 2 ^ 64) :
    answerCall profile c = some (.ok (),
      { c.printing (c.mem.text (c.regs a1) (c.regs a0).toNat) with
        regs := Function.update (Function.update c.regs a0 0) a1
          (BitVec.ofNat 64
            (c.mem.present (c.regs a1) (c.regs a0).toNat)) }) := by
  have hstart : (c.regs a1).toNat + (0 : BitVec 64).toNat +
      (c.regs a0).toNat < 2 ^ 64 := by simpa using hroom
  have hloop : consoleWrite (c.regs a1) (c.regs a0).toNat 0 profile c =
      some (.ok (BitVec.ofNat 64
        (c.mem.present (c.regs a1) (c.regs a0).toNat)),
          c.printing (c.mem.text (c.regs a1) (c.regs a0).toNat)) := by
    simpa using consoleWrite_run profile c hbase hstart
  have hextension : handleExtension Sbi.EXT_DBCN 0 (c.regs a0) (c.regs a1)
      profile c = some (.ok (some (Sbi.Ret.ok (BitVec.ofNat 64
        (c.mem.present (c.regs a1) (c.regs a0).toNat)))),
          c.printing (c.mem.text (c.regs a1) (c.regs a0).toNat)) := by
    rw [handleExtension, if_neg (by decide), if_neg (by decide),
      if_neg (by decide), if_neg (by decide), if_neg (by decide),
      if_neg (by decide), if_pos ⟨rfl, rfl⟩, Program.bind_run_ok hloop]
    rfl
  have hsbi : handleSbi profile c = some (.ok true,
      { c.printing (c.mem.text (c.regs a1) (c.regs a0).toNat) with
        regs := Function.update (Function.update c.regs a0 0) a1
          (BitVec.ofNat 64
            (c.mem.present (c.regs a1) (c.regs a0).toNat)) }) := by
    rw [handleSbi, Program.bind_run_ok (Program.read_run _ _ _), id]
    dsimp only
    rw [hconsole, hwrite, if_neg (by decide), Program.bind_run_ok hextension]
    rfl
  rw [answerCall, Program.bind_run_ok hsbi]
  rfl

/-- The whole of what the call does, from the fetch of the ECALL on. -/
theorem step_prints (hcalls : Calls profile c)
    (hconsole : c.regs 17 = Sbi.EXT_DBCN) (hwrite : c.regs 16 = 0)
    (hbase : DRAM_BASE ≤ c.regs a1)
    (hroom : (c.regs a1).toNat + (c.regs a0).toNat < 2 ^ 64)
    (hstep : step profile c = some (outcome, c')) :
    ∃ inst c₁, fetch profile c.fetching = some (.ok (inst, 4), c₁) ∧
      c' = { c₁.printing (c₁.mem.text (c.regs a1) (c.regs a0).toNat) with
        pc := c.pc + 4
        regs := Function.update (Function.update c.regs a0 0) a1
          (BitVec.ofNat 64
            (c₁.mem.present (c.regs a1) (c.regs a0).toNat)) } := by
  obtain ⟨inst, c₁, hfetch, hanswer⟩ := hcalls.answered hstep
  have hregs : c₁.regs = c.regs :=
    (congrArg Cpu.regs (fetched_touched hfetch).frame :).trans
      (congrArg Cpu.regs (ticked_ticked c).frame :)
  rw [← hregs] at hconsole hwrite hbase hroom ⊢
  have hprints := answerCall_prints (c := { c₁ with pc := c.pc + 4 }) profile
    hconsole hwrite hbase hroom
  cases hanswer.symm.trans hprints
  exact ⟨inst, c₁, hfetch, rfl⟩

/-- A kernel about to print sixteen bytes from four before the end of DRAM. -/
def printingHart : Cpu :=
  (stepped .debug)^[2]
    -- lui a7, 0x44424; addi a7, a7, 0x34e; ecall
    ((programmedHart .rv64 [0x444248b7, 0x34e88893, 0x00000073]).bootSupervisor
      DRAM_BASE 16 0x80000ffc)

theorem step_prints_truncated :
    ∃ inst c₁, fetch .debug printingHart.fetching =
        some (.ok (inst, 4), c₁) ∧
      stepped .debug printingHart =
        { c₁.printing (c₁.mem.text (printingHart.regs a1)
            (printingHart.regs a0).toNat) with
          pc := printingHart.pc + 4
          regs := Function.update (Function.update printingHart.regs a0 0) a1
            (BitVec.ofNat 64 (c₁.mem.present (printingHart.regs a1)
              (printingHart.regs a0).toNat)) } := by
  have hstep : step .debug printingHart =
      some (.ok (), stepped .debug printingHart) :=
    step_eq_stepped (by decide +kernel)
  exact step_prints (calls_iff.mpr (by decide +kernel)) (by decide +kernel)
    (by decide +kernel) (by decide +kernel) (by decide +kernel) hstep

/-- It prints the four. -/
example : (stepped .debug printingHart).regs a1 = 4 ∧
    (stepped .debug printingHart).mem.uart.tx = [0, 0, 0, 0] := by
  decide +kernel

end Cpu

end Nanoemu
