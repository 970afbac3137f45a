import Nanoemu.Load
import Nanoemu.LossyUtf8
import Nanoemu.RecordLayout

/-!
# A minimal ELF reader

Both classes, just enough to load a test binary and to find the `tohost`
symbol it reports results through.  Reads outside the file yield zero, and the
segments are the only part whose absence is an error.
-/

namespace Nanoemu

open CheckedProgram

inductive ElfError where
  | tooShort
  | notElf
  | badClass
  | notLittleEndian
  | notRiscv
  | notExecutable
deriving DecidableEq, Repr

namespace Elf

def PT_LOAD : ℕ := 1
def SHT_SYMTAB : ℕ := 2
def EM_RISCV : ℕ := 243
def ET_EXEC : ℕ := 2

abbrev Bytes := List (BitVec 8)

/-- The bytes from `start` up to `stop`, if they are in the file. -/
def get (b : Bytes) (start stop : ℕ) : Option Bytes :=
  if start ≤ stop ∧ stop ≤ b.length then
    some ((b.drop start).take (stop - start))
  else none

/-- A little-endian read of `n` bytes; out of range it yields 0. -/
def scalarLe (n : ℕ) (b : Bytes) (off : ℕ) : Checked ℕ := do
  let stop ← Checked.uadd 64 off n
  pure (((get b off stop).map RecordLayout.fromLe).getD 0)

def u16le : Bytes → ℕ → Checked ℕ := scalarLe 2
def u32le : Bytes → ℕ → Checked ℕ := scalarLe 4
def u64le : Bytes → ℕ → Checked ℕ := scalarLe 8

/-- A read relative to the start of a table entry. -/
def readAt (read : Bytes → ℕ → Checked ℕ) (b : Bytes) (base off : ℕ) :
    Checked ℕ := do
  let off ← Checked.uadd 64 base off
  read b off

/-- A word that is 4 bytes in ELF32 and 8 in ELF64. -/
def word (is64 : Bool) (b : Bytes) (off32 off64 base : ℕ) : Checked ℕ :=
  if is64 then readAt u64le b base off64 else readAt u32le b base off32

def entryAt (table entsize i : ℕ) : Checked ℕ := do
  let skip ← Checked.umul 64 i entsize
  Checked.uadd 64 table skip

def byteAt (b : Bytes) (i : ℕ) : Checked (BitVec 8) :=
  match b[i]? with
  | none => Checked.panic
  | some byte => pure byte

/-- A parser has no state but the file. -/
abbrev Parser (α : Type) := Program Unit ElfError α

/-- Offset in the file, physical address, size in the file and in memory. -/
def segmentFields (is64 : Bool) (b : Bytes) (ph : ℕ) :
    Checked (ℕ × ℕ × ℕ × ℕ) :=
  if is64 then do
    let offset ← readAt u64le b ph 8
    let paddr ← readAt u64le b ph 24
    let filesz ← readAt u64le b ph 32
    let memsz ← readAt u64le b ph 40
    pure (offset, paddr, filesz, memsz)
  else do
    let offset ← readAt u32le b ph 4
    let paddr ← readAt u32le b ph 12
    let filesz ← readAt u32le b ph 16
    let memsz ← readAt u32le b ph 20
    pure (offset, paddr, filesz, memsz)

/-- The segment of a program header, if it is to be loaded. -/
def segmentAt (is64 : Bool) (b : Bytes) (ph : ℕ) : Parser (Option Segment) := do
  let type ← Program.check (u32le b ph)
  if type ≠ PT_LOAD then pure none
  else do
    let (offset, paddr, filesz, memsz) ← Program.check (segmentFields is64 b ph)
    let stop ← Program.check (Checked.uadd 64 offset filesz)
    match get b offset stop with
    | none => Program.fail .tooShort
    | some data =>
        pure (some
          { addr := BitVec.ofNat 64 paddr
            data := data
            zeroLen := BitVec.ofNat 64 (memsz - filesz) })

def parseSegments (is64 : Bool) (b : Bytes) (phoff phentsize : ℕ) :
    (remaining i : ℕ) → Parser (List Segment)
  | 0, _ => pure []
  | remaining + 1, i => do
      let ph ← Program.check (entryAt phoff phentsize i)
      let seg ← segmentAt is64 b ph
      let rest ← parseSegments is64 b phoff phentsize remaining (i + 1)
      pure (seg.toList ++ rest)

abbrev Symbols := String → Option (BitVec 64)

/-- A name runs up to the first NUL; a symbol without one is left out. -/
def insertSymbol (b : Bytes) (nameOff value : ℕ) (symbols : Symbols) :
    Symbols :=
  if nameOff ≤ b.length then
    let rest := b.drop nameOff
    let len := (rest.findIdx? fun c => c = 0).getD 0
    if 0 < len then
      Function.update symbols (LossyUtf8.text (rest.take len))
        (some (BitVec.ofNat 64 value))
    else symbols
  else symbols

def symbolValue (is64 : Bool) (b : Bytes) (sym : ℕ) : Checked ℕ :=
  if is64 then readAt u64le b sym 8 else readAt u32le b sym 4

def symbolAt (is64 : Bool) (b : Bytes) (strtab sym : ℕ) (symbols : Symbols) :
    Checked Symbols := do
  let name ← u32le b sym
  let nameOff ← Checked.uadd 64 strtab name
  let value ← symbolValue is64 b sym
  pure (insertSymbol b nameOff value symbols)

def parseSymbols (is64 : Bool) (b : Bytes) (strtab symoff entsize : ℕ) :
    (remaining s : ℕ) → Symbols → Checked Symbols
  | 0, _, symbols => pure symbols
  | remaining + 1, s, symbols => do
      let sym ← Checked.uadd 64 symoff (s * entsize)
      let symbols ← symbolAt is64 b strtab sym symbols
      parseSymbols is64 b strtab symoff entsize remaining (s + 1) symbols

/-- Where `sh_offset`, `sh_size`, `sh_link` and `sh_entsize` lie. -/
def sectionOffsets (is64 : Bool) : ℕ × ℕ × ℕ × ℕ :=
  if is64 then (24, 32, 40, 56) else (16, 20, 24, 36)

def sectionAt (is64 : Bool) (b : Bytes) (shoff shentsize sh : ℕ)
    (symbols : Symbols) : Checked Symbols := do
  let (offO, sizeO, linkO, entsizeO) := sectionOffsets is64
  let type ← readAt u32le b sh 4
  if type ≠ SHT_SYMTAB then pure symbols
  else do
    let symoff ← word is64 b offO offO sh
    let symsize ← word is64 b sizeO sizeO sh
    let entsize ← word is64 b entsizeO entsizeO sh
    let strtabIdx ← readAt u32le b sh linkO
    let strtabSh ← entryAt shoff shentsize strtabIdx
    let strtab ← word is64 b offO offO strtabSh
    if entsize = 0 then pure symbols
    else
      parseSymbols is64 b strtab symoff entsize
        ((symsize + entsize - 1) / entsize) 0 symbols

def parseSections (is64 : Bool) (b : Bytes) (shoff shentsize : ℕ) :
    (remaining i : ℕ) → Symbols → Checked Symbols
  | 0, _, symbols => pure symbols
  | remaining + 1, i, symbols => do
      let sh ← entryAt shoff shentsize i
      let symbols ← sectionAt is64 b shoff shentsize sh symbols
      parseSections is64 b shoff shentsize remaining (i + 1) symbols

/-! ## The file -/

/-- Where `e_phentsize`, `e_phnum`, `e_shentsize` and `e_shnum` lie. -/
def tableOffsets (is64 : Bool) : ℕ × ℕ × ℕ × ℕ :=
  if is64 then (54, 56, 58, 60) else (42, 44, 46, 48)

def parseClass (b : Bytes) : Parser Bool := do
  let byte ← Program.check (byteAt b 4)
  if byte = 1 then pure false
  else if byte = 2 then pure true
  else Program.fail .badClass

/-- The tables of a file whose identification has been checked. -/
def parseTables (is64 : Bool) (b : Bytes) : Parser Elf := do
  let entry ← Program.check (word is64 b 24 24 0)
  let phoff ← Program.check (word is64 b 28 32 0)
  let shoff ← Program.check (word is64 b 32 40 0)
  let (phentsizeOff, phnumOff, shentsizeOff, shnumOff) := tableOffsets is64
  let phentsize ← Program.check (u16le b phentsizeOff)
  let phnum ← Program.check (u16le b phnumOff)
  let shentsize ← Program.check (u16le b shentsizeOff)
  let shnum ← Program.check (u16le b shnumOff)
  let segments ← parseSegments is64 b phoff phentsize phnum 0
  let symbols ← Program.check
    (parseSections is64 b shoff shentsize shnum 0 fun _ => none)
  pure
    { segments := segments
      entry := BitVec.ofNat 64 entry
      symbols := symbols
      is64 := is64 }

def parse (b : Bytes) : Parser Elf := do
  if b.length < 52 then Program.fail .tooShort
  else if b.take 4 ≠ [0x7f, 0x45, 0x4c, 0x46] then Program.fail .notElf
  else do
    let is64 ← parseClass b
    let data ← Program.check (byteAt b 5)
    if data ≠ 1 then Program.fail .notLittleEndian
    else do
      let machine ← Program.check (u16le b 18)
      if machine ≠ EM_RISCV then Program.fail .notRiscv
      else do
        let type ← Program.check (u16le b 16)
        if type ≠ ET_EXEC then Program.fail .notExecutable
        else parseTables is64 b

end Elf

end Nanoemu
