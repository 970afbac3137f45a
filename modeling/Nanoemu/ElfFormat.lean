import Nanoemu.Load
import Nanoemu.MemoryAccess
import Nanoemu.RecordLayout

/-!
# The executable format

What a file of either class holds, by the order of the fields in its records:
the header, the two tables it leads to, the symbols and their names.  A file
is well formed if all of it lies inside, and what loading it must leave in a
hart is said in these terms.
-/

namespace Nanoemu

open RecordLayout

namespace ElfFormat

inductive FileClass where
  | elf32
  | elf64
deriving DecidableEq, Repr

namespace FileClass

def word : FileClass → ℕ
  | elf32 => 4
  | elf64 => 8

def code : FileClass → BitVec 8
  | elf32 => 1
  | elf64 => 2

def xlen : FileClass → Xlen
  | elf32 => .rv32
  | elf64 => .rv64

def is64 : FileClass → Bool
  | elf32 => false
  | elf64 => true

@[simp] theorem is64_elf32 : is64 elf32 = false := rfl

@[simp] theorem is64_elf64 : is64 elf64 = true := rfl

end FileClass

inductive EhdrField where
  | ident | type | machine | version | entry | phoff | shoff | flags
  | ehsize | phentsize | phnum | shentsize | shnum | shstrndx
deriving DecidableEq, Repr

def ehdr (cls : FileClass) : List (EhdrField × ℕ) :=
  [(.ident, 16), (.type, 2), (.machine, 2), (.version, 4),
    (.entry, cls.word), (.phoff, cls.word), (.shoff, cls.word), (.flags, 4),
    (.ehsize, 2), (.phentsize, 2), (.phnum, 2), (.shentsize, 2), (.shnum, 2),
    (.shstrndx, 2)]

inductive PhdrField where
  | type | flags | offset | vaddr | paddr | filesz | memsz | align
deriving DecidableEq, Repr

/-- The two classes order the fields of a program header differently. -/
def phdr : FileClass → List (PhdrField × ℕ)
  | .elf32 =>
      [(.type, 4), (.offset, 4), (.vaddr, 4), (.paddr, 4), (.filesz, 4),
        (.memsz, 4), (.flags, 4), (.align, 4)]
  | .elf64 =>
      [(.type, 4), (.flags, 4), (.offset, 8), (.vaddr, 8), (.paddr, 8),
        (.filesz, 8), (.memsz, 8), (.align, 8)]

inductive ShdrField where
  | name | type | flags | addr | offset | size | link | info | addralign
  | entsize
deriving DecidableEq, Repr

def shdr (cls : FileClass) : List (ShdrField × ℕ) :=
  [(.name, 4), (.type, 4), (.flags, cls.word), (.addr, cls.word),
    (.offset, cls.word), (.size, cls.word), (.link, 4), (.info, 4),
    (.addralign, cls.word), (.entsize, cls.word)]

inductive SymField where
  | name | value | size | info | other | shndx
deriving DecidableEq, Repr

/-- So does a symbol. -/
def sym : FileClass → List (SymField × ℕ)
  | .elf32 =>
      [(.name, 4), (.value, 4), (.size, 4), (.info, 1), (.other, 1),
        (.shndx, 2)]
  | .elf64 =>
      [(.name, 4), (.info, 1), (.other, 1), (.shndx, 2), (.value, 8),
        (.size, 8)]

section File

variable (cls : FileClass) (bytes : Bytes)

def header (f : EhdrField) : ℕ :=
  field (ehdr cls) bytes 0 f

def phdrBase (i : ℕ) : ℕ :=
  header cls bytes .phoff + i * size (phdr cls)

def phdrField (i : ℕ) (f : PhdrField) : ℕ :=
  field (phdr cls) bytes (phdrBase cls bytes i) f

def shdrBase (i : ℕ) : ℕ :=
  header cls bytes .shoff + i * size (shdr cls)

def shdrField (i : ℕ) (f : ShdrField) : ℕ :=
  field (shdr cls) bytes (shdrBase cls bytes i) f

def symBase (i k : ℕ) : ℕ :=
  shdrField cls bytes i .offset + k * size (sym cls)

def symField (i k : ℕ) (f : SymField) : ℕ :=
  field (sym cls) bytes (symBase cls bytes i k) f

def loads : List ℕ :=
  (List.range (header cls bytes .phnum)).filter fun i =>
    phdrField cls bytes i .type = 1

def symtabs : List ℕ :=
  (List.range (header cls bytes .shnum)).filter fun i =>
    shdrField cls bytes i .type = 2

variable {cls bytes} in
theorem mem_loads {i : ℕ} : i ∈ loads cls bytes ↔
    i < header cls bytes .phnum ∧ phdrField cls bytes i .type = 1 := by
  simp [loads]

variable {cls bytes} in
theorem mem_symtabs {i : ℕ} : i ∈ symtabs cls bytes ↔
    i < header cls bytes .shnum ∧ shdrField cls bytes i .type = 2 := by
  simp [symtabs]

def symCount (i : ℕ) : ℕ :=
  shdrField cls bytes i .size / size (sym cls)

/-- The records of one symbol table, each by its section and its number. -/
def recordsOf (i : ℕ) : List (ℕ × ℕ) :=
  (List.range (symCount cls bytes i)).map fun k => (i, k)

def records : List (ℕ × ℕ) :=
  (symtabs cls bytes).flatMap (recordsOf cls bytes)

/-- Where the name of a symbol starts, in the string table that its section is
linked to. -/
def nameBase (r : ℕ × ℕ) : ℕ :=
  shdrField cls bytes (shdrField cls bytes r.1 .link) .offset +
    symField cls bytes r.1 r.2 .name

/-- The name of a symbol, up to the NUL. -/
def nameOf (r : ℕ × ℕ) : Bytes :=
  (bytes.drop (nameBase cls bytes r)).takeWhile (· ≠ 0)

def valueOf (r : ℕ × ℕ) : BitVec 64 :=
  BitVec.ofNat 64 (symField cls bytes r.1 r.2 .value)

def tohostName : Bytes := [0x74, 0x6f, 0x68, 0x6f, 0x73, 0x74]

/-- A symbol table with its string table. -/
structure SymtabOk (i : ℕ) : Prop where
  entsize : shdrField cls bytes i .entsize = size (sym cls)
  whole : size (sym cls) ∣ shdrField cls bytes i .size
  inside : shdrField cls bytes i .offset + shdrField cls bytes i .size ≤
    bytes.length
  link : shdrField cls bytes i .link < header cls bytes .shnum
  strings : shdrField cls bytes (shdrField cls bytes i .link) .offset +
    shdrField cls bytes (shdrField cls bytes i .link) .size ≤ bytes.length
  terminated : ∃ n,
    shdrField cls bytes (shdrField cls bytes i .link) .size = n + 1 ∧
      bytes[shdrField cls bytes (shdrField cls bytes i .link) .offset + n]? =
        some 0
  names : ∀ k < symCount cls bytes i, symField cls bytes i k .name <
    shdrField cls bytes (shdrField cls bytes i .link) .size

/-- A little-endian RISC-V executable of the class, all of it in the file. -/
structure WellFormed : Prop where
  /-- No byte array is longer. -/
  length : bytes.length < 2 ^ 63
  ehdr : size (ehdr cls) ≤ bytes.length
  magic : bytes.take 4 = [0x7f, 0x45, 0x4c, 0x46]
  classByte : bytes[4]? = some cls.code
  dataByte : bytes[5]? = some 1
  type : header cls bytes .type = 2
  machine : header cls bytes .machine = 243
  phentsize : 0 < header cls bytes .phnum →
    header cls bytes .phentsize = size (phdr cls)
  phdrs : ∀ i < header cls bytes .phnum,
    phdrBase cls bytes i + size (phdr cls) ≤ bytes.length
  shentsize : 0 < header cls bytes .shnum →
    header cls bytes .shentsize = size (shdr cls)
  shdrs : ∀ i < header cls bytes .shnum,
    shdrBase cls bytes i + size (shdr cls) ≤ bytes.length
  files : ∀ i ∈ loads cls bytes, phdrField cls bytes i .offset +
    phdrField cls bytes i .filesz ≤ bytes.length
  sizes : ∀ i ∈ loads cls bytes,
    phdrField cls bytes i .filesz ≤ phdrField cls bytes i .memsz
  tables : ∀ i ∈ symtabs cls bytes, SymtabOk cls bytes i

/-! ## Loading -/

def paddr (i : ℕ) : BitVec 64 :=
  BitVec.ofNat 64 (phdrField cls bytes i .paddr)

def start (i : ℕ) : ℕ :=
  Memory.offset (paddr cls bytes i)

def Covers (i a : ℕ) : Prop :=
  start cls bytes i ≤ a ∧ a < start cls bytes i + phdrField cls bytes i .memsz

/-- The segments lie in DRAM and apart from each other. -/
structure Fits (mem : Memory) : Prop where
  /-- DRAM is a byte array, too. -/
  length : mem.dram.len < 2 ^ 63
  inDram : ∀ i ∈ loads cls bytes,
    mem.InDram (paddr cls bytes i) (phdrField cls bytes i .memsz)
  apart : ∀ i ∈ loads cls bytes, ∀ j ∈ loads cls bytes, i ≠ j →
    ∀ a, ¬ (Covers cls bytes i a ∧ Covers cls bytes j a)

/-- What loading the file makes of a hart. -/
structure Placed (c c' : Cpu) : Prop where
  pc : c'.pc = BitVec.ofNat 64 (header cls bytes .entry)
  xlen : c'.xlen = cls.xlen
  csrs : c'.csrs.xlen = cls.xlen
  length : c'.mem.dram.len = c.mem.dram.len
  file : ∀ i ∈ loads cls bytes, ∀ k < phdrField cls bytes i .filesz,
    bytes[phdrField cls bytes i .offset + k]? =
      some (c'.mem.dram.byte (start cls bytes i + k))
  zero : ∀ i ∈ loads cls bytes, ∀ k, phdrField cls bytes i .filesz ≤ k →
    k < phdrField cls bytes i .memsz →
    c'.mem.dram.byte (start cls bytes i + k) = 0
  others : ∀ a, (∀ i ∈ loads cls bytes, ¬ Covers cls bytes i a) →
    c'.mem.dram.byte a = c.mem.dram.byte a
  tohost : c'.mem.tohost = ((records cls bytes).filter fun r =>
    nameOf cls bytes r = tohostName).getLast?.map (valueOf cls bytes)

end File

end ElfFormat

end Nanoemu
