import Nanoemu.ElfFormat
import Nanoemu.ElfParse

/-!
# Fields of any file

A number that is not all in the file reads as zero.  So the reader finds a
value in every field of a record, wherever the record is said to lie; in a
record that lies in the file it finds what is there.
-/

namespace Nanoemu

open CheckedProgram RecordLayout ElfFormat

namespace Elf

section Numbers

variable {b : Elf.Bytes} {n off : ℕ}

theorem get_slice {start len : ℕ} (hin : start + len ≤ b.length) :
    get b start (start + len) = some (slice b start len) := by
  unfold get slice
  rw [if_pos ⟨Nat.le_add_right _ _, hin⟩, Nat.add_sub_cancel_left]

theorem get_outside {start stop : ℕ} (hout : ¬ (start ≤ stop ∧ stop ≤ b.length)) :
    get b start stop = none := by
  unfold get
  rw [if_neg hout]

/-- The number in the `n` bytes at `off`; zero if the file ends before. -/
def numberAt (n : ℕ) (b : Elf.Bytes) (off : ℕ) : ℕ :=
  ((get b off (off + n)).map fromLe).getD 0

theorem numberAt_slice (hin : off + n ≤ b.length) :
    numberAt n b off = fromLe (slice b off n) := by
  unfold numberAt
  rw [get_slice hin]
  rfl

theorem numberAt_outside (hout : b.length < off + n) :
    numberAt n b off = 0 := by
  unfold numberAt
  rw [get_outside (by omega)]
  rfl

/-- A number that is not zero is in the file. -/
theorem inside_of_numberAt (h : numberAt n b off ≠ 0) :
    off + n ≤ b.length := by
  by_contra hout
  exact h (numberAt_outside (by omega))

theorem numberAt_lt (n : ℕ) (b : Elf.Bytes) (off : ℕ) :
    numberAt n b off < 256 ^ n := by
  by_cases hin : off + n ≤ b.length
  · have hlt := fromLe_lt (slice b off n)
    rw [slice_length hin] at hlt
    rwa [numberAt_slice hin]
  · rw [numberAt_outside (by omega)]
    positivity

theorem scalarLe_run (h : off + n < 2 ^ 64) :
    scalarLe n b off = pure (numberAt n b off) := by
  have hstop : Checked.uadd 64 off n = pure (off + n) :=
    Checked.uadd_eq_pure h
  unfold scalarLe
  rw [hstop, pure_bind]
  rfl

end Numbers

section Records

variable {F : Type} [DecidableEq F] {layout : List (F × ℕ)} {b : Elf.Bytes}
  {base : ℕ} {f : F}

def found (layout : List (F × ℕ)) (b : Elf.Bytes) (base : ℕ) (f : F) : ℕ :=
  numberAt (width layout f) b (base + offset layout f)

theorem found_lt (layout : List (F × ℕ)) (b : Elf.Bytes) (base : ℕ) (f : F) :
    found layout b base f < 256 ^ width layout f :=
  numberAt_lt _ _ _

theorem found_eq_field (hin : base + size layout ≤ b.length) (f : F) :
    found layout b base f = field layout b base f := by
  have hfield := offset_add_width_le layout f
  unfold found field
  exact numberAt_slice (by omega)

variable (hin : base + size layout < 2 ^ 64)

include hin

theorem readAt_found {n off : ℕ} (hoff : offset layout f = off)
    (hwidth : width layout f = n) :
    readAt (scalarLe n) b base off = pure (found layout b base f) := by
  have hfield := offset_add_width_le layout f
  have hbase : Checked.uadd 64 base off = pure (base + off) :=
    Checked.uadd_eq_pure (by omega)
  unfold readAt found
  rw [hbase, pure_bind, scalarLe_run (by omega), hoff, hwidth]

theorem first_found {n : ℕ} (hoff : offset layout f = 0)
    (hwidth : width layout f = n) :
    scalarLe n b base = pure (found layout b base f) := by
  have hfield := offset_add_width_le layout f
  unfold found
  rw [hoff, hwidth, Nat.add_zero]
  exact scalarLe_run (by omega)

theorem word_found (cls : FileClass) {off32 off64 : ℕ}
    (hoff : offset layout f = if cls.is64 then off64 else off32)
    (hwidth : width layout f = cls.word) :
    word cls.is64 b off32 off64 base = pure (found layout b base f) := by
  unfold word
  cases cls with
  | elf32 => exact readAt_found hin hoff hwidth
  | elf64 => exact readAt_found hin hoff hwidth

end Records

section Phdr

variable {cls : FileClass} {b : Elf.Bytes} {ph : ℕ}

theorem phdr_size_le (cls : FileClass) : size (phdr cls) ≤ 56 := by
  cases cls <;> decide

theorem phdrType_found (hin : ph + size (phdr cls) < 2 ^ 64) :
    u32le b ph = pure (found (phdr cls) b ph .type) :=
  first_found hin (by cases cls <;> rfl) (by cases cls <;> rfl)

theorem segmentFields_found (hin : ph + size (phdr cls) < 2 ^ 64) :
    segmentFields cls.is64 b ph =
      pure (found (phdr cls) b ph .offset, found (phdr cls) b ph .paddr,
        found (phdr cls) b ph .filesz, found (phdr cls) b ph .memsz) := by
  have hread : ∀ f n off, offset (phdr cls) f = off →
      width (phdr cls) f = n →
      readAt (scalarLe n) b ph off = pure (found (phdr cls) b ph f) :=
    fun _ _ _ hoff hwidth => readAt_found hin hoff hwidth
  unfold segmentFields u32le u64le
  cases cls with
  | elf32 =>
      rw [FileClass.is64_elf32, if_neg Bool.false_ne_true,
        hread .offset 4 4 rfl rfl, pure_bind,
        hread .paddr 4 12 rfl rfl, pure_bind,
        hread .filesz 4 16 rfl rfl, pure_bind,
        hread .memsz 4 20 rfl rfl, pure_bind]
  | elf64 =>
      rw [FileClass.is64_elf64, if_pos rfl,
        hread .offset 8 8 rfl rfl, pure_bind,
        hread .paddr 8 24 rfl rfl, pure_bind,
        hread .filesz 8 32 rfl rfl, pure_bind,
        hread .memsz 8 40 rfl rfl, pure_bind]

end Phdr

section Header

variable (cls : FileClass) (b : Elf.Bytes)

def ehdrFound (f : EhdrField) : ℕ :=
  found (ehdr cls) b 0 f

variable {cls b}

theorem ehdr_in : 0 + size (ehdr cls) < 2 ^ 64 := by
  cases cls <;> decide

theorem ehdrFound_eq_header (hin : size (ehdr cls) ≤ b.length)
    (f : EhdrField) : ehdrFound cls b f = header cls b f := by
  unfold ehdrFound header
  exact found_eq_field (by omega) f

theorem ehdr_half {f : EhdrField} (hwidth : width (ehdr cls) f = 2) :
    u16le b (offset (ehdr cls) f) = pure (ehdrFound cls b f) := by
  have hin := offset_add_width_le (ehdr cls) f
  have hsize := @ehdr_in cls
  unfold u16le ehdrFound found
  rw [Nat.zero_add, hwidth]
  exact scalarLe_run (by omega)

theorem ehdr_word {f : EhdrField} {off32 off64 : ℕ}
    (hoff : offset (ehdr cls) f = if cls.is64 then off64 else off32)
    (hwidth : width (ehdr cls) f = cls.word) :
    word cls.is64 b off32 off64 0 = pure (ehdrFound cls b f) :=
  word_found ehdr_in cls hoff hwidth

theorem parseTables_found :
    parseTables cls.is64 b =
      (parseSegments cls.is64 b (ehdrFound cls b .phoff)
          (ehdrFound cls b .phentsize) (ehdrFound cls b .phnum) 0 >>=
        fun segments => Program.check (parseSections cls.is64 b
          (ehdrFound cls b .shoff) (ehdrFound cls b .shentsize)
          (ehdrFound cls b .shnum) 0 fun _ => none) >>=
        fun symbols => pure
          { segments := segments
            entry := BitVec.ofNat 64 (ehdrFound cls b .entry)
            symbols := symbols
            is64 := cls.is64 }) := by
  have hoffsets : tableOffsets cls.is64 =
      (offset (ehdr cls) .phentsize, offset (ehdr cls) .phnum,
        offset (ehdr cls) .shentsize, offset (ehdr cls) .shnum) := by
    cases cls <;> rfl
  have hentry : word cls.is64 b 24 24 0 = pure (ehdrFound cls b .entry) :=
    ehdr_word (by cases cls <;> rfl) (by cases cls <;> rfl)
  have hphoff : word cls.is64 b 28 32 0 = pure (ehdrFound cls b .phoff) :=
    ehdr_word (by cases cls <;> rfl) (by cases cls <;> rfl)
  have hshoff : word cls.is64 b 32 40 0 = pure (ehdrFound cls b .shoff) :=
    ehdr_word (by cases cls <;> rfl) (by cases cls <;> rfl)
  unfold parseTables
  rw [hentry, Program.check_pure, pure_bind, hphoff, Program.check_pure,
    pure_bind, hshoff, Program.check_pure, pure_bind, hoffsets]
  dsimp only
  rw [ehdr_half rfl, Program.check_pure, pure_bind,
    ehdr_half rfl, Program.check_pure, pure_bind,
    ehdr_half rfl, Program.check_pure, pure_bind,
    ehdr_half rfl, Program.check_pure, pure_bind]

end Header

/-! ## The identification -/

/-- What is checked before the tables are read. -/
structure Identified (cls : FileClass) (b : Elf.Bytes) : Prop where
  length : 52 ≤ b.length
  magic : b.take 4 = [0x7f, 0x45, 0x4c, 0x46]
  classByte : b[4]? = some cls.code
  dataByte : b[5]? = some 1
  machine : ehdrFound cls b .machine = EM_RISCV
  type : ehdrFound cls b .type = ET_EXEC

section Identification

variable {cls : FileClass} {b : Elf.Bytes}

theorem ehdr_machine (cls : FileClass) (b : Elf.Bytes) :
    u16le b 18 = pure (ehdrFound cls b .machine) := by
  have hhalf := @ehdr_half cls b .machine rfl
  rwa [show offset (ehdr cls) .machine = 18 from rfl] at hhalf

theorem ehdr_type (cls : FileClass) (b : Elf.Bytes) :
    u16le b 16 = pure (ehdrFound cls b .type) := by
  have hhalf := @ehdr_half cls b .type rfl
  rwa [show offset (ehdr cls) .type = 16 from rfl] at hhalf

theorem parseClass_run (hclass : b[4]? = some cls.code) :
    parseClass b = pure cls.is64 := by
  unfold parseClass byteAt
  rw [hclass]
  cases cls with
  | elf32 => rfl
  | elf64 => rfl

theorem parse_identified (h : Identified cls b) :
    parse b = parseTables cls.is64 b := by
  have hdata : byteAt b 5 = pure 1 := by
    unfold byteAt
    rw [h.dataByte]
  have hlength := h.length
  unfold parse
  rw [if_neg (by omega), if_neg (not_not.mpr h.magic),
    parseClass_run h.classByte, pure_bind, hdata, Program.check_pure,
    pure_bind, if_neg (not_not.mpr rfl), ehdr_machine cls, Program.check_pure,
    pure_bind, h.machine, if_neg (not_not.mpr rfl), ehdr_type cls,
    Program.check_pure, pure_bind, h.type, if_neg (not_not.mpr rfl)]

end Identification

end Elf

end Nanoemu
