import Nanoemu.CompressedStep
import Nanoemu.FloatingContext
import Nanoemu.FormatRoundTrip
import Nanoemu.PageOffset
import Nanoemu.ReadWidth

/-!
# The encoding that an illegal instruction leaves

A compressed instruction is replaced by its expansion at the fetch, and the
hart rejects instructions by name of the word it executes.  The base
instructions of the C extension are all accepted, except that the
floating-point loads and stores ask FS: only these leave the expansion in place
of the halfword that was fetched.
-/

namespace Nanoemu

open CheckedProgram

namespace Rvc

open FieldWords

namespace Base

def IsFloat : Base → Prop
  | .i opcode f3 _ _ _ => opcode = 0x07 ∧ (f3 = 2 ∨ f3 = 3)
  | .s opcode f3 _ _ _ => opcode = 0x27 ∧ (f3 = 2 ∨ f3 = 3)
  | _ => False

theorem IsFloat.fields {b : Base} (h : b.IsFloat) :
    (b.opcode = 0x07 ∨ b.opcode = 0x27) ∧
      (Nanoemu.funct3 b.encode = 2 ∨ Nanoemu.funct3 b.encode = 3) := by
  have hsel : ∀ {f3 : BitVec 3}, b.funct3 = some f3 → f3 = 2 ∨ f3 = 3 →
      Nanoemu.funct3 b.encode = 2 ∨ Nanoemu.funct3 b.encode = 3 := by
    intro f3 hfield hf3
    rw [b.funct3_encode hfield]
    rcases hf3 with rfl | rfl
    · exact Or.inl rfl
    · exact Or.inr rfl
  cases b with
  | i opcode f3 rd rs1 imm => exact ⟨Or.inl h.1, hsel rfl h.2⟩
  | s opcode f3 rs1 rs2 imm => exact ⟨Or.inr h.1, hsel rfl h.2⟩
  | r | b | u | j => exact h.elim

/-- The integer instructions of the table, none of which a hart of the width
rejects. -/
inductive Accepted (xlen : Xlen) : Base → Prop where
  | immediate {f3 : BitVec 3} (hf3 : f3 = 0 ∨ f3 = 7) (rd rs1 : BitVec 5)
      (imm : BitVec 12) : Accepted xlen (.i 0x13 f3 rd rs1 imm)
  | shift {base : BitVec 5 → BitVec 5 → BitVec 6 → Base}
      (hbase : base = .slli ∨ base = .srli ∨ base = .srai) (rd : BitVec 5)
      (shamt : BitVec 6) (hnarrow : xlen = .rv32 → shamt.getLsbD 5 = false) :
      Accepted xlen (base rd rd shamt)
  | immediateWord (hwide : xlen = .rv64) (rd rs1 : BitVec 5)
      (imm : BitVec 12) : Accepted xlen (.addiw rd rs1 imm)
  | register {f3 : BitVec 3} {f7 : BitVec 7} (hf : f7 = 0 ∨ f7 = 0x20 ∧ f3 = 0)
      (rd rs1 rs2 : BitVec 5) : Accepted xlen (.r 0x33 f3 f7 rd rs1 rs2)
  | registerWord (hwide : xlen = .rv64) {f7 : BitVec 7}
      (hf7 : f7 = 0 ∨ f7 = 0x20) (rd rs1 rs2 : BitVec 5) :
      Accepted xlen (.r 0x3b 0 f7 rd rs1 rs2)
  | lui (rd : BitVec 5) (imm : BitVec 20) : Accepted xlen (.lui rd imm)
  | jal (rd : BitVec 5) (offset : BitVec 21) : Accepted xlen (.jal rd offset)
  | jalr (rd rs1 : BitVec 5) (imm : BitVec 12) :
      Accepted xlen (.jalr rd rs1 imm)
  | branch {f3 : BitVec 3} (hf3 : f3 = 0 ∨ f3 = 1) (rs1 rs2 : BitVec 5)
      (offset : BitVec 13) : Accepted xlen (.b f3 rs1 rs2 offset)
  | ebreak : Accepted xlen .ebreak
  | load {f3 : BitVec 3} (hf3 : f3 = 2 ∨ f3 = 3 ∧ xlen = .rv64)
      (rd rs1 : BitVec 5) (imm : BitVec 12) :
      Accepted xlen (.i 0x03 f3 rd rs1 imm)
  | store {f3 : BitVec 3} (hf3 : f3 = 2 ∨ f3 = 3 ∧ xlen = .rv64)
      (rs1 rs2 : BitVec 5) (imm : BitVec 12) :
      Accepted xlen (.s 0x23 f3 rs1 rs2 imm)

end Base

/-! ## The table -/

def Meaning.IsFloat : Meaning → Prop
  | .plain b => b.IsFloat
  | .reserved | .hint _ => False

/-- What the table has is accepted, or it is a floating-point access. -/
def Meaning.Sorted (xlen : Xlen) : Meaning → Prop
  | .reserved => True
  | .plain b => b.IsFloat ∨ b.Accepted xlen
  | .hint b => b.Accepted xlen

section Table

variable (xlen : Xlen) (h : BitVec 16)

theorem byWidth_sorted {narrow wide : Meaning}
    (hnarrow : xlen = .rv32 → narrow.Sorted xlen)
    (hwide : xlen = .rv64 → wide.Sorted xlen) :
    (byWidth xlen narrow wide).Sorted xlen := by
  cases xlen with
  | rv32 => exact hnarrow rfl
  | rv64 => exact hwide rfl

theorem shift_sorted (rd : BitVec 5)
    {base : BitVec 5 → BitVec 5 → BitVec 6 → Base}
    (hbase : base = .slli ∨ base = .srli ∨ base = .srai) :
    (shift xlen h rd base).Sorted xlen := by
  unfold shift
  split
  · trivial
  · next hkept =>
      have haccepted : (base rd rd (ciImm h)).Accepted xlen := by
        apply Base.Accepted.shift hbase
        intro hxlen
        exact Bool.eq_false_iff.mpr fun hbit => hkept ⟨hxlen, hbit⟩
      split
      · exact haccepted
      · exact Or.inr haccepted

theorem meaning0_sorted : (meaning0 xlen h).Sorted xlen := by
  unfold meaning0
  dsimp only
  split
  · split
    · trivial
    · exact Or.inr (.immediate (Or.inl rfl) _ _ _)
  · exact Or.inl ⟨rfl, Or.inr rfl⟩
  · exact Or.inr (.load (Or.inl rfl) _ _ _)
  · apply byWidth_sorted
    · exact fun _ => Or.inl ⟨rfl, Or.inl rfl⟩
    · exact fun hwide => Or.inr (.load (Or.inr ⟨rfl, hwide⟩) _ _ _)
  · exact Or.inl ⟨rfl, Or.inr rfl⟩
  · exact Or.inr (.store (Or.inl rfl) _ _ _)
  · apply byWidth_sorted
    · exact fun _ => Or.inl ⟨rfl, Or.inl rfl⟩
    · exact fun hwide => Or.inr (.store (Or.inr ⟨rfl, hwide⟩) _ _ _)
  · trivial

theorem meaning1Alu_sorted : (meaning1Alu xlen h).Sorted xlen := by
  unfold meaning1Alu
  dsimp only
  split
  · exact shift_sorted xlen h _ (Or.inr (Or.inl rfl))
  · exact shift_sorted xlen h _ (Or.inr (Or.inr rfl))
  · exact Or.inr (.immediate (Or.inr rfl) _ _ _)
  · split
    · exact Or.inr (.register (Or.inr ⟨rfl, rfl⟩) _ _ _)
    · exact Or.inr (.register (Or.inl rfl) _ _ _)
    · exact Or.inr (.register (Or.inl rfl) _ _ _)
    · exact Or.inr (.register (Or.inl rfl) _ _ _)
    · exact byWidth_sorted xlen (fun _ => trivial) fun hwide =>
        Or.inr (.registerWord hwide (Or.inr rfl) _ _ _)
    · exact byWidth_sorted xlen (fun _ => trivial) fun hwide =>
        Or.inr (.registerWord hwide (Or.inl rfl) _ _ _)
    · trivial

theorem meaning1_sorted : (meaning1 xlen h).Sorted xlen := by
  unfold meaning1
  dsimp only
  split
  · split
    · exact Or.inr (.immediate (Or.inl rfl) _ _ _)
    · exact .immediate (Or.inl rfl) _ _ _
  · apply byWidth_sorted
    · exact fun _ => Or.inr (.jal _ _)
    · intro hwide
      split
      · trivial
      · exact Or.inr (.immediateWord hwide _ _ _)
  · split
    · exact .immediate (Or.inl rfl) _ _ _
    · exact Or.inr (.immediate (Or.inl rfl) _ _ _)
  · split
    · split
      · trivial
      · exact Or.inr (.immediate (Or.inl rfl) _ _ _)
    · split
      · trivial
      · split
        · exact .lui _ _
        · exact Or.inr (.lui _ _)
  · exact meaning1Alu_sorted xlen h
  · exact Or.inr (.jal _ _)
  · exact Or.inr (.branch (Or.inl rfl) _ _ _)
  · exact Or.inr (.branch (Or.inr rfl) _ _ _)

theorem meaning2Move_sorted : (meaning2Move h).Sorted xlen := by
  unfold meaning2Move
  split
  · split
    · split
      · trivial
      · exact Or.inr (.jalr _ _ _)
    · split
      · exact .register (Or.inl rfl) _ _ _
      · exact Or.inr (.register (Or.inl rfl) _ _ _)
  · split
    · split
      · exact Or.inr .ebreak
      · exact Or.inr (.jalr _ _ _)
    · split
      · exact .register (Or.inl rfl) _ _ _
      · exact Or.inr (.register (Or.inl rfl) _ _ _)

theorem meaning2_sorted : (meaning2 xlen h).Sorted xlen := by
  unfold meaning2
  split
  · exact shift_sorted xlen h _ (Or.inl rfl)
  · exact Or.inl ⟨rfl, Or.inr rfl⟩
  · split
    · trivial
    · exact Or.inr (.load (Or.inl rfl) _ _ _)
  · apply byWidth_sorted
    · exact fun _ => Or.inl ⟨rfl, Or.inl rfl⟩
    · intro hwide
      split
      · trivial
      · exact Or.inr (.load (Or.inr ⟨rfl, hwide⟩) _ _ _)
  · exact meaning2Move_sorted xlen h
  · exact Or.inl ⟨rfl, Or.inr rfl⟩
  · exact Or.inr (.store (Or.inl rfl) _ _ _)
  · apply byWidth_sorted
    · exact fun _ => Or.inl ⟨rfl, Or.inl rfl⟩
    · exact fun hwide => Or.inr (.store (Or.inr ⟨rfl, hwide⟩) _ _ _)

theorem meaning_sorted : (meaning xlen h).Sorted xlen := by
  unfold meaning
  split
  · exact meaning0_sorted xlen h
  · exact meaning1_sorted xlen h
  · exact meaning2_sorted xlen h
  · trivial

end Table

end Rvc

namespace Cpu

/-! ## Accepted instructions -/

def Legal (prog : Hart Unit) (profile : Profile) (c : Cpu) : Prop :=
  prog.Ensures profile c (fun _ _ => True)
    fun e _ => ∀ word, e ≠ .illegalInstruction word

section Legal

variable {profile : Profile} {c : Cpu} {inst : BitVec 32}

theorem Legal.of_run {prog : Hart Unit} {c' : Cpu}
    (hrun : prog profile c = some (.ok (), c')) : Legal prog profile c := by
  intro outcome c₁ hrun'
  rw [hrun] at hrun'
  cases hrun'
  trivial

theorem Legal.of_raises {prog : Hart Unit}
    (hraises : prog.Raises (anyFrame Cpu)
      fun e => ∀ word, e ≠ .illegalInstruction word) :
    Legal prog profile c :=
  (hraises profile c).mono (fun _ _ _ => trivial) fun _ _ h => h.2

theorem execute_legal (prog : Hart Unit) {instPc nextPc : BitVec 64}
    (hexecute : execute inst instPc nextPc =
      (setPc nextPc >>= fun _ => prog))
    (hprog : Legal prog profile { c with pc := nextPc }) :
    Legal (execute inst instPc nextPc) profile c := by
  rw [hexecute]
  apply Program.Ensures.bind
  exact Program.Ensures.update hprog

theorem integer_legal (hop : IsIntegerOpcode inst)
    (haccepts : Accepts c.xlen inst) (instPc nextPc : BitVec 64) :
    Legal (execute inst instPc nextPc) profile c := by
  obtain ⟨c', hrun⟩ := (execute_decides hop instPc nextPc profile c).1 haccepts
  exact Legal.of_run hrun

theorem executeLoad_legal (hform : (loadForm (funct3 inst) c.xlen).isSome) :
    Legal (executeLoad inst) profile c := by
  obtain ⟨form, hsome⟩ := Option.isSome_iff_exists.mp hform
  unfold executeLoad
  apply Program.Ensures.bind
  apply Program.Ensures.read
  dsimp only [id]
  rw [hsome]
  apply Legal.of_raises
  apply Program.Raises.bind
    (anyFrame_carries.readMem (fun _ _ => nofun) (fun _ => nofun) form.1)
  intro v
  exact Program.Raises.bind (Program.Raises.check _) fun v => raises_update _

theorem executeStore_legal (hsize : (storeSize (funct3 inst) c.xlen).isSome) :
    Legal (executeStore inst) profile c := by
  obtain ⟨size, hsome⟩ := Option.isSome_iff_exists.mp hsize
  unfold executeStore
  apply Program.Ensures.bind
  apply Program.Ensures.read
  dsimp only [id]
  rw [hsome]
  apply Legal.of_raises
  exact anyFrame_carries.writeMem (fun _ _ => nofun) (fun _ => nofun) size _

theorem executeFpMem_legal (hon : c.fpEnabled = true)
    (hf3 : funct3 inst = 2 ∨ funct3 inst = 3) :
    Legal (executeFpMem inst) profile c := by
  have hstore : ∀ va size value, Legal (writeMem va size value) profile c :=
    fun va size value => Legal.of_raises
      (anyFrame_carries.writeMem (fun _ _ => nofun) (fun _ => nofun) size value)
  have hload : ∀ va size (form : BitVec 64 → BitVec 64), Legal (do
      let v ← readMem va size
      fw (Nanoemu.rd inst) (form v)) profile c := by
    intro va size form
    apply Legal.of_raises
    apply Program.Raises.bind
      (anyFrame_carries.readMem (fun _ _ => nofun) (fun _ => nofun) size)
    exact fun v => raises_update _
  unfold executeFpMem
  apply Program.Ensures.bind
  apply Program.Ensures.read
  dsimp only [id]
  rw [hon, if_neg (by decide)]
  rcases hf3 with hf3 | hf3
  · rw [if_pos hf3]
    exact Program.Ensures.ite (fun _ => hstore _ _ _)
      fun _ => hload _ _ box32
  · rw [hf3, if_neg (by decide), if_pos rfl]
    exact Program.Ensures.ite (fun _ => hstore _ _ _) fun _ => hload _ _ id

theorem executeBranch_legal (hf3 : funct3 inst = 0 ∨ funct3 inst = 1)
    (instPc : BitVec 64) : Legal (executeBranch inst instPc) profile c := by
  apply Legal.of_raises
  apply Program.Raises.bind (Program.Raises.read _)
  intro c
  apply Program.Raises.bind (Program.Raises.check _)
  intro sa
  apply Program.Raises.bind (Program.Raises.check _)
  intro sb
  rcases hf3 with hf3 | hf3 <;> rw [hf3] <;>
    exact Program.Raises.ite (raises_update _) (Program.Raises.pure _)

theorem accepts_immediate {xlen : Xlen}
    (hop : opcode inst = 0x13 ∨ opcode inst = 0x1b ∧ xlen = .rv64)
    (hf3 : ¬ IsShift inst) : Accepts xlen inst := by
  rcases hop with hop | ⟨hop, hwide⟩
  · simp [Accepts, hop, hf3]
  · simp [Accepts, hop, hf3, hwide]

theorem accepts_register {xlen : Xlen}
    (hop : opcode inst = 0x33 ∨ opcode inst = 0x3b ∧ xlen = .rv64)
    (hf : AluAccepts (funct3 inst) (funct7 inst)) : Accepts xlen inst := by
  rcases hop with hop | ⟨hop, hwide⟩
  · simp [Accepts, hop, hf]
  · simp [Accepts, hop, hf, hwide]

theorem accepts_shift {xlen : Xlen} (hop : opcode inst = 0x13)
    (hlow : xlen = .rv32 → funct7 inst &&& 1 = 0)
    (hf : AluAccepts (funct3 inst) (funct7 inst &&& ~~~1)) :
    Accepts xlen inst := by
  unfold Accepts
  rw [hop, if_neg (by decide)]
  refine ⟨fun h => absurd h (by decide), fun _ => ⟨?_, hf⟩⟩
  rintro (h | hxlen)
  · exact absurd h (by decide)
  · exact hlow hxlen

theorem shamt_fields {kind : BitVec 6}
    (hkind : kind = 0b000000 ∨ kind = 0b010000) (shamt : BitVec 6) :
    (shamt.getLsbD 5 = false →
        ((kind ++ shamt).extractLsb' 5 7).setWidth 32 &&& 1#32 = 0) ∧
      (((kind ++ shamt).extractLsb' 5 7).setWidth 32 &&& ~~~1#32 = 0 ∨
        kind = 0b010000 ∧
          ((kind ++ shamt).extractLsb' 5 7).setWidth 32 &&& ~~~1#32 =
            0x20) := by
  revert shamt
  rcases hkind with rfl | rfl <;> decide

theorem shift_legal {f3 : BitVec 3} {kind : BitVec 6}
    (hkind : kind = 0b000000 ∨ kind = 0b010000)
    (hf3 : kind = 0b010000 → f3 = 5) (rd : BitVec 5) (shamt : BitVec 6)
    (hnarrow : c.xlen = .rv32 → shamt.getLsbD 5 = false)
    (instPc nextPc : BitVec 64) :
    Legal (execute (Rvc.Base.i 0x13 f3 rd rd (kind ++ shamt)).encode instPc
      nextPc) profile c := by
  obtain ⟨hlow, hhigh⟩ := shamt_fields hkind shamt
  rw [← Rvc.Base.funct7_immediate 0x13 f3 rd rd] at hlow hhigh
  have hop := Rvc.Base.opcode_encode (.i 0x13 f3 rd rd (kind ++ shamt))
  apply integer_legal (Or.inr (Or.inr (Or.inl hop)))
  apply accepts_shift hop (fun hxlen => hlow (hnarrow hxlen))
  rcases hhigh with hzero | ⟨hother, harithmetic⟩
  · exact Or.inl hzero
  · have hsel := Rvc.Base.funct3_encode (.i 0x13 f3 rd rd (kind ++ shamt)) rfl
    rw [hf3 hother] at hsel ⊢
    rw [hf3 hother] at harithmetic
    exact Or.inr ⟨harithmetic, Or.inr hsel⟩

theorem accepted_legal {b : Rvc.Base} (h : b.Accepted c.xlen)
    (instPc nextPc : BitVec 64) :
    Legal (execute b.encode instPc nextPc) profile c := by
  have hop := Rvc.Base.opcode_encode b
  cases h with
  | @immediate f3 hf3 rd rs1 imm =>
      have hsel := Rvc.Base.funct3_encode (.i 0x13 f3 rd rs1 imm) rfl
      apply integer_legal (Or.inr (Or.inr (Or.inl hop)))
      apply accepts_immediate (Or.inl hop)
      unfold IsShift
      rw [hsel]
      rcases hf3 with rfl | rfl <;> decide
  | shift hbase rd shamt hnarrow =>
      rcases hbase with rfl | rfl | rfl
      · exact shift_legal (Or.inl rfl) (fun h => absurd h (by decide)) rd shamt
          hnarrow instPc nextPc
      · exact shift_legal (Or.inl rfl) (fun _ => rfl) rd shamt hnarrow instPc
          nextPc
      · exact shift_legal (Or.inr rfl) (fun _ => rfl) rd shamt hnarrow instPc
          nextPc
  | immediateWord hwide rd rs1 imm =>
      have hsel := Rvc.Base.funct3_encode (.addiw rd rs1 imm) rfl
      apply integer_legal (Or.inr (Or.inr (Or.inr hop)))
      apply accepts_immediate (Or.inr ⟨hop, hwide⟩)
      unfold IsShift
      rw [hsel]
      decide
  | @register f3 f7 hf rd rs1 rs2 =>
      have hsel := Rvc.Base.funct3_encode (.r 0x33 f3 f7 rd rs1 rs2) rfl
      have hf7 := Rvc.Base.funct7_register 0x33 f3 rd rs1 rs2 f7
      apply integer_legal (Or.inl hop)
      apply accepts_register (Or.inl hop)
      unfold AluAccepts
      rw [hsel, hf7]
      rcases hf with rfl | ⟨rfl, rfl⟩
      · exact Or.inl rfl
      · exact Or.inr ⟨rfl, Or.inl rfl⟩
  | @registerWord hwide f7 hf7 rd rs1 rs2 =>
      have hsel := Rvc.Base.funct3_encode (.r 0x3b 0 f7 rd rs1 rs2) rfl
      have hf7' := Rvc.Base.funct7_register 0x3b 0 rd rs1 rs2 f7
      apply integer_legal (Or.inr (Or.inl hop))
      apply accepts_register (Or.inr ⟨hop, hwide⟩)
      unfold AluAccepts
      rw [hsel, hf7']
      rcases hf7 with rfl | rfl <;> decide
  | lui rd imm =>
      apply execute_legal (wr (Nanoemu.rd _) (widen (immU _)))
      · unfold execute
        rw [hop]
        rfl
      · exact Legal.of_run rfl
  | jal rd offset =>
      apply execute_legal (executeJal _ instPc nextPc)
      · unfold execute
        rw [hop]
        rfl
      · exact Legal.of_run rfl
  | jalr rd rs1 imm =>
      have hsel := Rvc.Base.funct3_encode (.jalr rd rs1 imm) rfl
      apply execute_legal (executeJalr _ nextPc)
      · unfold execute
        rw [hop, hsel]
        rfl
      · exact Legal.of_run rfl
  | @branch f3 hf3 rs1 rs2 offset =>
      have hsel := Rvc.Base.funct3_encode (.b f3 rs1 rs2 offset) rfl
      apply execute_legal (executeBranch _ instPc)
      · unfold execute
        rw [hop]
        rfl
      · apply executeBranch_legal
        rw [hsel]
        rcases hf3 with rfl | rfl
        · exact Or.inl rfl
        · exact Or.inr rfl
  | ebreak =>
      apply execute_legal (executePriv _)
      · unfold execute
        rw [hop]
        rfl
      · unfold executePriv
        apply Program.Ensures.bind
        apply Program.Ensures.read
        exact Program.Ensures.fail fun word => nofun
  | @load f3 hf3 rd rs1 imm =>
      have hsel := Rvc.Base.funct3_encode (.i 0x03 f3 rd rs1 imm) rfl
      apply execute_legal (executeLoad _)
      · unfold execute
        rw [hop]
        rfl
      · apply executeLoad_legal
        rw [hsel]
        rcases hf3 with rfl | ⟨rfl, hwide⟩
        · rfl
        · change (loadForm _ c.xlen).isSome
          rw [hwide]
          rfl
  | @store f3 hf3 rs1 rs2 imm =>
      have hsel := Rvc.Base.funct3_encode (.s 0x23 f3 rs1 rs2 imm) rfl
      apply execute_legal (executeStore _)
      · unfold execute
        rw [hop]
        rfl
      · apply executeStore_legal
        rw [hsel]
        rcases hf3 with rfl | ⟨rfl, hwide⟩
        · rfl
        · change (storeSize _ c.xlen).isSome
          rw [hwide]
          rfl

end Legal

/-! ## The encoding at the program counter -/

/-- A word that starts with a compressed encoding stands for that encoding,
with zeros above it. -/
def encodingOf (word : BitVec 32) : BitVec 32 :=
  if word &&& 0x3 ≠ 0x3 then word &&& 0xffff else word

/-- The encoding that the pc addresses, read where the fetch reads it. -/
def encodingAt : Hart (BitVec 32) := do
  let pc ← Program.read Cpu.pc
  if pc &&& 0x1 ≠ 0 then Program.fail (.instructionAddressMisaligned pc)
  else if pc &&& 0xfff ≤ 0xffc then do
    let pa ← translate pc .fetch
    let word ← physRead (.instructionAccessFault pc) pa 4
    pure (encodingOf (word.setWidth 32))
  else do
    let lo ← fetchHalf pc
    let lo : BitVec 32 := lo.setWidth 32
    if lo &&& 0x3 ≠ 0x3 then pure (encodingOf lo)
    else do
      let next ← Program.check (Checked.add pc 2)
      let hi ← fetchHalf next
      let hi : BitVec 32 := hi.setWidth 32
      pure ((hi <<< 16) ||| lo)

/-- A compressed encoding is expanded, any other is executed as it is. -/
def decoded (word : BitVec 32) : Hart (BitVec 32 × BitVec 64) :=
  if word &&& 0x3 ≠ 0x3 then expand word else pure (word, 4)

section Encoding

variable {profile : Profile} {c : Cpu}

theorem low_bits_joined (hi : BitVec 32) {lo : BitVec 32}
    (h : lo &&& 0x3 = 0x3) : ((hi <<< 16) ||| lo) &&& 0x3 = 0x3 := by
  have hshift : (hi <<< 16) &&& 0x3 = 0 := by
    apply BitVec.eq_of_getLsbD_eq
    intro i hi'
    by_cases hlow : i < 16
    · simp [hlow]
    · have hmask : (0x3 : BitVec 32).getLsbD i = false :=
        Nat.testBit_lt_two_pow (lt_of_lt_of_le (by decide : 3 < 2 ^ 16)
          (Nat.pow_le_pow_right (by decide) (not_lt.mp hlow)))
      rw [BitVec.getLsbD_and, hmask, Bool.and_false]
      simp
  rw [BitVec.and_or_distrib_right, hshift, h]
  rfl

/-- No 32-bit register of the interrupt controller lies in the last halfword
of a page. -/
theorem not_wideAt_last {pa page va : BitVec 64}
    (hpa : pa = page ||| (va &&& 0xfff)) (hva : va &&& 0xfff = 0xffe) :
    ¬ Memory.WideAt pa := by
  have hlow : 0xffe ≤ pa.toNat % 2 ^ 12 := by
    rw [hpa, hva, BitVec.toNat_or, Nat.or_mod_two_pow]
    exact Nat.right_le_or
  rintro ⟨hbase, -, hregister⟩
  have hconst : Plic.PLIC_BASE.toNat = 0xC000000 := by decide
  have hle : Plic.PLIC_BASE.toNat ≤ pa.toNat := hbase
  have hoffset : (pa - Plic.PLIC_BASE).toNat = pa.toNat - 0xC000000 := by
    rw [BitVec.toNat_sub_of_le hle, hconst]
  unfold Plic.WideRegister at hregister
  rw [hoffset] at hregister
  omega

theorem last_half {pc : BitVec 64} (heven : ¬ (pc &&& 0x1 ≠ 0))
    (hlast : ¬ (pc &&& 0xfff ≤ 0xffc)) : pc &&& 0xfff = 0xffe := by
  have hmask : pc &&& 0x1 = (pc &&& 0xfff) &&& 0x1 := by
    rw [BitVec.and_assoc]
    rfl
  have hle : (pc &&& 0xfff).toNat < 4096 := by
    rw [Mmu.offset_toNat]
    exact Nat.mod_lt _ (by decide)
  rw [hmask, not_not] at heven
  have hbit : (pc &&& 0xfff).toNat % 2 = 0 := by
    have hzero := congrArg BitVec.toNat heven
    rw [BitVec.toNat_and] at hzero
    exact (Nat.and_two_pow_sub_one_eq_mod _ 1).symm.trans hzero
  have hlt : 0xffc < (pc &&& 0xfff).toNat := not_le.mp hlast
  apply BitVec.eq_of_toNat_eq
  change _ = 0xffe
  omega

theorem fetchHalf_fits {va v : BitVec 64} {x : Cpu}
    (hva : va &&& 0xfff = 0xffe)
    (hrun : fetchHalf va profile c = some (.ok v, x)) :
    (v.setWidth 32) &&& 0xffff = v.setWidth 32 := by
  unfold fetchHalf at hrun
  obtain ⟨pa, c₁, htranslate, hread⟩ := Program.bind_ok hrun
  obtain ⟨page, hpa⟩ := (translate_offset va .fetch profile c).ok htranslate
  have hnarrow : ¬ (2 < 4 ∧ Memory.WideAt pa) :=
    fun h => not_wideAt_last hpa hva h.2
  have hlt : v.toNat < 2 ^ (8 * 2) := physRead_fits rfl hnarrow hread
  have hmask : v.setWidth 32 &&& 0xffff =
      ((v.setWidth 32).setWidth 16).setWidth 32 :=
    FieldWords.and_ones (k := 16) _ (by decide)
  rw [hmask]
  apply BitVec.eq_of_toNat_eq
  simp only [BitVec.toNat_setWidth]
  omega

/-- The fetch is the reading of an encoding and its expansion. -/
theorem fetch_eq (profile : Profile) (c : Cpu) :
    fetch profile c = (encodingAt >>= decoded : Hart _) profile c := by
  unfold fetch encodingAt
  rw [Program.bind_run_ok (Program.read_run _ _ _), bind_assoc,
    Program.bind_run_ok (Program.read_run _ _ _)]
  by_cases hodd : c.pc &&& 0x1 ≠ 0
  · rw [if_pos hodd, if_pos hodd]
    rfl
  rw [if_neg hodd, if_neg hodd]
  by_cases hword : c.pc &&& 0xfff ≤ 0xffc
  · rw [if_pos hword, if_pos hword, bind_assoc]
    apply Program.bind_congr
    intro pa c₁ _
    rw [bind_assoc]
    apply Program.bind_congr
    intro word c₂ _
    rw [pure_bind]
    by_cases hshort : (word.setWidth 32) &&& 0x3 ≠ 0x3
    · have hhalf : ((word.setWidth 32) &&& 0xffff) &&& 0x3 ≠ (0x3 : BitVec 32) := by
        rwa [Rvc.low_bits_half]
      rw [if_pos hshort, decoded, encodingOf, if_pos hshort, if_pos hhalf]
    · rw [if_neg hshort, decoded, encodingOf, if_neg hshort, if_neg hshort]
  · rw [if_neg hword, if_neg hword, bind_assoc]
    apply Program.bind_congr
    intro lo c₁ hlo
    dsimp only
    have hfits := fetchHalf_fits (last_half hodd hword) hlo
    split
    · next hshort =>
        unfold decoded encodingOf
        rw [pure_bind, if_pos hshort, hfits, if_pos hshort]
    · next hlong =>
        rw [bind_assoc]
        apply Program.bind_congr
        intro next c₂ _
        rw [bind_assoc]
        apply Program.bind_congr
        intro hi c₃ _
        rw [pure_bind]
        unfold decoded
        rw [if_neg (not_not.mpr (low_bits_joined _ (not_not.mp hlong)))]

theorem low_bits_encode {b : Rvc.Base} (hfloat : b.IsFloat) :
    b.encode &&& 0x3 = 0x3 := by
  have hop := Rvc.Base.opcode_encode b
  have hmask : b.encode &&& 0x3 = Nanoemu.opcode b.encode &&& 0x3 := by
    rw [Nanoemu.opcode, BitVec.and_assoc]
    rfl
  rw [hmask, hop]
  rcases hfloat.fields.1 with hfloat | hfloat <;> rw [hfloat] <;> rfl

theorem float_isFloating {b : Rvc.Base} (hfloat : b.IsFloat) :
    IsFloating b.encode := by
  left
  rw [Rvc.Base.opcode_encode]
  rcases hfloat.fields.1 with hfloat | hfloat <;> rw [hfloat] <;> decide

theorem float_legal {b : Rvc.Base} (hfloat : b.IsFloat)
    (hon : c.fpEnabled = true) (instPc nextPc : BitVec 64) :
    Legal (execute b.encode instPc nextPc) profile c := by
  have hop := Rvc.Base.opcode_encode b
  obtain ⟨hopcode, hf3⟩ := hfloat.fields
  apply execute_legal (executeFpMem b.encode)
  · unfold execute
    rw [hop]
    rcases hopcode with hopcode | hopcode <;> rw [hopcode] <;> rfl
  · exact executeFpMem_legal hon hf3

theorem translateFetch_raises (va : BitVec 64) :
    (translate va .fetch).Raises (anyFrame Cpu)
      fun e => ∀ word, e ≠ .illegalInstruction word :=
  anyFrame_carries.translate fun _ => nofun

theorem fetchHalf_raises (va : BitVec 64) :
    (fetchHalf va).Raises (anyFrame Cpu)
      fun e => ∀ word, e ≠ .illegalInstruction word :=
  Program.Raises.bind (translateFetch_raises va) fun pa =>
    anyFrame_carries.physRead (fun _ => nofun) pa 2

/-- Reading an encoding rejects none, and a compressed one comes back with
zeros above it. -/
theorem encodingAt_ensures (profile : Profile) (c : Cpu) :
    encodingAt.Ensures profile c
      (fun word _ => word &&& 0x3 ≠ 0x3 →
        (word.setWidth 16).setWidth 32 = word)
      (fun e _ => ∀ word, e ≠ .illegalInstruction word) := by
  have hshort : ∀ word : BitVec 32, encodingOf word &&& 0x3 ≠ 0x3 →
      ((encodingOf word).setWidth 16).setWidth 32 = encodingOf word := by
    intro word hlow
    unfold encodingOf at hlow ⊢
    split
    · have hhalf : word &&& 0xffff = (word.setWidth 16).setWidth 32 :=
        FieldWords.and_ones (k := 16) word (by decide)
      rw [hhalf, FieldWords.setWidth_setWidth_of_le (word.setWidth 16)
        (by decide : 16 ≤ 32), BitVec.setWidth_eq]
    · next hlong => exact absurd (by rwa [if_neg hlong] at hlow) hlong
  have hread : ∀ {prog : Hart (BitVec 64)} {next : BitVec 64 → Hart (BitVec 32)}
      (c : Cpu), prog.Raises (anyFrame Cpu)
        (fun e => ∀ word, e ≠ .illegalInstruction word) →
      (∀ v c', (next v).Ensures profile c'
        (fun word _ => word &&& 0x3 ≠ 0x3 →
          (word.setWidth 16).setWidth 32 = word)
        (fun e _ => ∀ word, e ≠ .illegalInstruction word)) →
      (prog >>= next).Ensures profile c
        (fun word _ => word &&& 0x3 ≠ 0x3 →
          (word.setWidth 16).setWidth 32 = word)
        (fun e _ => ∀ word, e ≠ .illegalInstruction word) := by
    intro prog next c hprog hnext
    apply Program.Ensures.bind
    exact (hprog profile c).mono (fun v c' _ => hnext v c') fun _ _ h => h.2
  unfold encodingAt
  apply Program.Ensures.bind
  apply Program.Ensures.read
  apply Program.Ensures.ite
  · intro _
    apply Program.Ensures.fail
    exact fun _ => nofun
  intro _
  apply Program.Ensures.ite
  · intro _
    apply hread c (translateFetch_raises _)
    intro pa c₁
    have hword : (physRead (.instructionAccessFault c.pc) pa 4).Raises
        (anyFrame Cpu) fun e => ∀ word, e ≠ .illegalInstruction word :=
      anyFrame_carries.physRead (fun _ => nofun) pa 4
    exact hread c₁ hword fun word c₂ => Program.Ensures.pure (hshort _)
  · intro _
    apply hread c (fetchHalf_raises _)
    intro lo c₁
    apply Program.Ensures.ite
    · exact fun _ => Program.Ensures.pure (hshort _)
    · intro hlong
      apply Program.Ensures.bind
      apply Program.Ensures.check
      intro next _
      apply hread c₁ (fetchHalf_raises next)
      intro hi c₂
      apply Program.Ensures.pure
      intro hlow
      exact absurd (low_bits_joined _ (not_not.mp hlong)) hlow

theorem decoded_short {word : BitVec 32} (hlow : word &&& 0x3 ≠ 0x3)
    (hhalf : (word.setWidth 16).setWidth 32 = word) :
    decoded word profile c = some (c.expanded (word.setWidth 16), c) := by
  rw [decoded, if_pos hlow]
  have hrun := expand_run profile c (word.setWidth 16)
  rwa [hhalf] at hrun

theorem decoded_long {word : BitVec 32} (hlow : ¬ (word &&& 0x3 ≠ 0x3)) :
    decoded word profile c = some (.ok (word, 4), c) := by
  rw [decoded, if_neg hlow]
  rfl

/-- An encoding is expanded to a base instruction that is accepted, or to a
floating-point access. -/
theorem expanded_sorted {h : BitVec 16} {inst : BitVec 32} {len : BitVec 64}
    (hok : c.expanded h = .ok (inst, len)) :
    ∃ b : Rvc.Base, b.encode = inst ∧
      ((Rvc.meaning c.xlen h).IsFloat ∧ b.IsFloat ∨ b.Accepted c.xlen) := by
  have hsorted := Rvc.meaning_sorted c.xlen h
  unfold expanded at hok
  rw [Rvc.decompress_eq] at hok
  split at hok
  · cases hok
  · next hsome =>
      split at hsome
      · cases hsome
      cases hmeaning : Rvc.meaning c.xlen h with
      | reserved =>
          rw [hmeaning] at hsome
          cases hsome
      | plain b =>
          rw [hmeaning] at hsome hsorted
          cases hsome
          cases hok
          rcases hsorted with hfloat | haccepted
          · exact ⟨b, rfl, Or.inl ⟨hfloat, hfloat⟩⟩
          · exact ⟨b, rfl, Or.inr haccepted⟩
      | hint b =>
          rw [hmeaning] at hsome hsorted
          cases hsome
          cases hok
          exact ⟨b, rfl, Or.inr hsorted⟩

theorem expanded_float {h : BitVec 16}
    (hfloat : (Rvc.meaning c.xlen h).IsFloat) :
    ∃ b : Rvc.Base, b.IsFloat ∧ c.expanded h = .ok (b.encode, 2) := by
  cases hmeaning : Rvc.meaning c.xlen h with
  | reserved =>
      rw [hmeaning] at hfloat
      exact hfloat.elim
  | hint b =>
      rw [hmeaning] at hfloat
      exact hfloat.elim
  | plain b =>
      rw [hmeaning] at hfloat
      have hkept : ¬ Rvc.DroppedHint h := by
        intro hdropped
        obtain ⟨b', hhint⟩ := dropped_hint c.xlen hdropped
        cases hmeaning.symm.trans hhint
      refine ⟨b, hfloat, ?_⟩
      unfold expanded
      rw [Rvc.decompress_eq, if_neg hkept, hmeaning]
      rfl

/-- A step that traps with an exception leaves its value in the register of
the mode it enters. -/
theorem step_tval {e : Exception} {c' : Cpu}
    (hstep : step profile c = some (.error e, c')) :
    c'.csrs.regs (trapTval c'.privMode) = e.tval := by
  cases step_stepped hstep with
  | @exception _ c₁ _ _ _ _ htrap =>
      obtain ⟨entered, pc, -, rfl⟩ := htrap.spec
      exact (trapCsrs_regs c₁ entered _ e.tval _).2.2

end Encoding

/-- An illegal instruction leaves its encoding in the trap value register of
the mode that handles it. -/
def ReportsEncoding (profile : Profile) (c : Cpu) : Prop :=
  ∀ word c', step profile c = some (.error (.illegalInstruction word), c') →
    ∃ encoding x, encodingAt profile c.fetching = some (.ok encoding, x) ∧
      c'.csrs.regs (trapTval c'.privMode) = encoding.setWidth 64

/-- A step executes a compressed floating-point load or store while FS is
off. -/
structure GatedFloat (profile : Profile) (c : Cpu) : Prop where
  takes : TakesInstruction profile c
  off : c.csrs.read Csr.MSTATUS &&& Mstatus.FS = 0
  encoding : ∃ word x, encodingAt profile c.fetching = some (.ok word, x) ∧
    word &&& 0x3 ≠ 0x3 ∧ (Rvc.meaning c.xlen (word.setWidth 16)).IsFloat

section Reports

variable {profile : Profile} {c : Cpu}

/-- An expansion that is rejected is a floating-point access, with the unit
off. -/
theorem expanded_rejected {h : BitVec 16} {inst word : BitVec 32}
    {len instPc nextPc : BitVec 64} {c' : Cpu}
    (hexpanded : c.expanded h = .ok (inst, len))
    (hexecute : execute inst instPc nextPc profile c =
      some (.error (.illegalInstruction word), c')) :
    (Rvc.meaning c.xlen h).IsFloat ∧ c.fpEnabled = false := by
  obtain ⟨b, rfl, ⟨hmeaning, hfloat⟩ | haccepted⟩ := expanded_sorted hexpanded
  · refine ⟨hmeaning, Bool.eq_false_iff.mpr fun hon => ?_⟩
    exact absurd rfl
      ((float_legal hfloat hon instPc nextPc).error hexecute word)
  · exact absurd rfl
      ((accepted_legal haccepted instPc nextPc).error hexecute word)

theorem encodingAt_touched {word : BitVec 32} {x : Cpu}
    (hread : encodingAt profile c = some (.ok word, x)) : Touched c x := by
  have hends : ∃ outcome, fetch profile c = some (outcome, x) := by
    rw [fetch_eq, Program.bind_run_ok hread]
    by_cases hlow : word &&& 0x3 ≠ 0x3
    · exact ⟨_, decoded_short hlow
        ((encodingAt_ensures profile c).ok hread hlow)⟩
    · exact ⟨_, decoded_long hlow⟩
  obtain ⟨outcome, hfetch⟩ := hends
  cases outcome with
  | ok fetched => exact ((fetch_ensures profile c).ok hfetch).1
  | error e => exact ((fetch_ensures profile c).error hfetch).1

theorem GatedFloat.not_reports (h : GatedFloat profile c) :
    ¬ ReportsEncoding profile c := by
  intro hreports
  obtain ⟨word, x, hread, hlow, hfloat⟩ := h.encoding
  have htouched := encodingAt_touched hread
  have hxlen : x.xlen = c.xlen :=
    htouched.sameWidth.xlen.trans (ticked_sameWidth c).xlen
  have hhalf := (encodingAt_ensures profile c.fetching).ok hread hlow
  rw [← hxlen] at hfloat
  obtain ⟨b, hbase, hexpanded⟩ := expanded_float hfloat
  have hfetch : fetch profile c.fetching = some (.ok (b.encode, 2), x) := by
    rw [fetch_eq, Program.bind_run_ok hread, decoded_short hlow hhalf,
      hexpanded]
  have hpc : x.pc = c.pc :=
    (congrArg Cpu.pc htouched.frame :).trans (fetching_pc c)
  have hoff : x.fpEnabled = false := by
    rw [fpEnabled, htouched.reached.csrs, (ticked_marked c).2.2, h.off]
    rfl
  have hstep := step_decoded h.takes hfetch hpc
  unfold runDecoded at hstep
  rw [Program.bind_run_ok (Program.attempt_run_some
    (execute_gated hoff (float_isFloating hbase) _ _))] at hstep
  have hcall : Exception.illegalInstruction b.encode ≠ .environmentCall := by
    intro hsame
    cases hsame
  obtain ⟨c', hconclude⟩ := conclude_error hcall c.pc profile
    { x with pc := c.pc + 2 }
  rw [hconclude] at hstep
  obtain ⟨encoding, x', hread', htval⟩ := hreports _ _ hstep
  rw [hread] at hread'
  cases hread'
  rw [step_tval hstep] at htval
  have hsame : b.encode = word :=
    (FieldWords.setWidth_inj (by decide)).mp htval
  rw [← hsame] at hlow
  exact hlow (low_bits_encode hbase)

/-- An encoding whose instruction is rejected is reported, unless it is a
gated access. -/
theorem reports_of_not_gated (hnot : ¬ GatedFloat profile c) :
    ReportsEncoding profile c := by
  intro word c' hstep
  have htval : c'.csrs.regs (trapTval c'.privMode) = word.setWidth 64 :=
    step_tval hstep
  rw [htval]
  have hcounts : (countCycle profile c).isSome = true := by
    rcases hcount : countCycle profile c with _ | result
    · rw [show step profile c = none from Program.bind_run_none hcount] at hstep
      cases hstep
    · rfl
  cases step_course hstep with
  | @exception _ c₁ _ hpending hfail _ _ =>
      rcases Program.bind_cases hfail with
        ⟨e, hfetch, herror⟩ | ⟨⟨inst, len⟩, x, hfetch, hexecute⟩
      · obtain rfl := Except.error.inj herror
        rw [fetch_eq] at hfetch
        rcases Program.bind_cases hfetch with
          ⟨e, hread, herror⟩ | ⟨encoding, x, hread, hdecoded⟩
        · cases herror
          exact absurd rfl ((encodingAt_ensures profile _).error hread word)
        · refine ⟨encoding, x, hread, ?_⟩
          by_cases hlow : encoding &&& 0x3 ≠ 0x3
          · have hhalf := (encodingAt_ensures profile _).ok hread hlow
            rw [decoded_short hlow hhalf, expanded] at hdecoded
            split at hdecoded
            · cases hdecoded
              rw [hhalf]
            · cases hdecoded
          · rw [decoded_long hlow] at hdecoded
            cases hdecoded
      · have hname := ((execute_raises _ _ _ profile x).error hexecute).2.word
        subst hname
        rw [fetch_eq] at hfetch
        obtain ⟨encoding, x', hread, hdecoded⟩ := Program.bind_ok hfetch
        refine ⟨encoding, x', hread, ?_⟩
        by_cases hlow : encoding &&& 0x3 ≠ 0x3
        · exfalso
          have hhalf := (encodingAt_ensures profile _).ok hread hlow
          rw [decoded_short hlow hhalf] at hdecoded
          obtain ⟨hexpanded, rfl⟩ := Prod.mk.inj (Option.some.inj hdecoded)
          have htouched := encodingAt_touched hread
          have hxlen : x'.xlen = c.xlen :=
            htouched.sameWidth.xlen.trans (ticked_sameWidth c).xlen
          obtain ⟨hmeaning, hoff⟩ := expanded_rejected hexpanded hexecute
          rw [hxlen] at hmeaning
          rw [fpEnabled, htouched.reached.csrs, (ticked_marked c).2.2,
            bne_eq_false_iff_eq] at hoff
          exact hnot ⟨⟨hcounts, hpending⟩, hoff, encoding, x', hread, hlow,
            hmeaning⟩
        · rw [decoded_long hlow] at hdecoded
          cases hdecoded
          rfl

end Reports

/-- The trap value is the encoding at the program counter exactly where the
step does not execute a compressed floating-point load or store with FS
off. -/
theorem reportsEncoding_iff (profile : Profile) (c : Cpu) :
    ReportsEncoding profile c ↔ ¬ GatedFloat profile c :=
  ⟨fun hreports hgated => hgated.not_reports hreports, reports_of_not_gated⟩

/-- A C.FLD right after reset, where FS is off, reports an FLD. -/
theorem not_reportsEncoding_fld :
    ¬ ReportsEncoding .debug (compressedHart 0x2000) := by
  have htakes : TakesInstruction .debug (compressedHart 0x2000) :=
    ⟨by decide, by decide⟩
  have hread : encodingAt .debug (compressedHart 0x2000).fetching =
      some (.ok 0x2000, located .debug (compressedHart 0x2000).fetching) :=
    rfl
  have hfloat : (Rvc.meaning (compressedHart 0x2000).xlen 0x2000).IsFloat :=
    ⟨rfl, Or.inr rfl⟩
  exact GatedFloat.not_reports
    ⟨htakes, by decide, 0x2000, _, hread, by decide, hfloat⟩

end Cpu

end Nanoemu
