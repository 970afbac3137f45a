import Nanoemu.StepOutcome

/-!
# What an access touches

A fetch, a load or a store moves memory and the translation cache and nothing
else.  A device register that it reads or writes is noted in the dirty flag,
and the only exceptions it raises are page faults and access faults.
-/

namespace Nanoemu

open CheckedProgram

namespace Memory

/-- The interrupt sources keep their state unless the dirty flag says so. -/
def Noted (mem mem' : Memory) : Prop :=
  mem'.devicesDirty = true ∨
    mem'.plic = mem.plic ∧ mem'.uart = mem.uart ∧
      mem'.devicesDirty = mem.devicesDirty

theorem Noted.refl (mem : Memory) : Noted mem mem :=
  Or.inr ⟨rfl, rfl, rfl⟩

theorem Noted.trans {mem mem' mem'' : Memory} (hfirst : Noted mem mem')
    (hsecond : Noted mem' mem'') : Noted mem mem'' := by
  rcases hsecond with hdirty | ⟨hplic, huart, hflag⟩
  · exact Or.inl hdirty
  rcases hfirst with hdirty | ⟨hplic', huart', hflag'⟩
  · exact Or.inl (hflag.trans hdirty)
  · exact Or.inr
      ⟨hplic.trans hplic', huart.trans huart', hflag.trans hflag'⟩

def notedFrame : Frame Memory where
  rel := Noted
  refl := Noted.refl
  trans := Noted.trans

theorem read_noted (addr : BitVec 64) (size : ℕ) :
    (Memory.read addr size).Keeps notedFrame := by
  apply Program.Keeps.intro
  intro profile mem outcome mem' hrun
  cases read_course hrun with
  | dram | outside => exact Noted.refl mem
  | clint | plic | uart | unmapped => exact Or.inl rfl

theorem noteTohost_noted (mem : Memory) (addr value : BitVec 64) :
    Noted mem (noteTohost mem addr value) := by
  rw [noteTohost]
  split
  · exact Or.inr ⟨rfl, rfl, rfl⟩
  · exact Noted.refl mem

theorem write_noted (addr : BitVec 64) (size : ℕ) (value : BitVec 64) :
    (Memory.write addr size value).Keeps notedFrame := by
  apply Program.Keeps.intro
  intro profile mem outcome mem' hrun
  cases write_course hrun with
  | dram =>
      have hstored : Noted mem
          { mem with dram := mem.dram.storeLe (offset addr) size value } :=
        Or.inr ⟨rfl, rfl, rfl⟩
      exact hstored.trans (noteTohost_noted _ _ _)
  | outside => exact Noted.refl mem
  | clint | plic | uart | unmapped => exact Or.inl rfl

end Memory

/-- What an access to memory can raise. -/
def Exception.IsFault : Exception → Prop
  | instructionPageFault _ | loadPageFault _ | storePageFault _
  | instructionAccessFault _ | loadAccessFault _ | storeAccessFault _ => True
  | _ => False

theorem Exception.pageFault_isFault (access : Access) (va : BitVec 64) :
    (pageFault access va).IsFault := by
  cases access <;> trivial

namespace Cpu

/-- Only memory and the translation cache have moved. -/
structure Touched (c c' : Cpu) : Prop where
  frame : c' = { c with mem := c'.mem, tlb := c'.tlb }
  noted : Memory.Noted c.mem c'.mem

namespace Touched

variable {c c' c'' : Cpu}

theorem refl (c : Cpu) : Touched c c :=
  ⟨rfl, Memory.Noted.refl _⟩

theorem trans (hfirst : Touched c c') (hsecond : Touched c' c'') :
    Touched c c'' := by
  refine ⟨?_, hfirst.noted.trans hsecond.noted⟩
  rw [hsecond.frame, hfirst.frame]

end Touched

def touchFrame : Frame Cpu where
  rel := Touched
  refl := Touched.refl
  trans := Touched.trans

/-- Accesses memory and does nothing else. -/
abbrev Touches {α : Type} (prog : Hart α) : Prop :=
  prog.Raises touchFrame Exception.IsFault

theorem touchFrame_carries : Carries Memory.notedFrame touchFrame where
  read := Memory.read_noted
  write := Memory.write_noted
  mem _ _ hnoted := ⟨rfl, hnoted⟩
  tlb _ _ _ _ := ⟨rfl, Memory.Noted.refl _⟩

theorem translate_touches (va : BitVec 64) (access : Access) :
    Touches (translate va access) :=
  touchFrame_carries.translate (Exception.pageFault_isFault access va)

theorem physRead_touches (fault : Exception) (hfault : fault.IsFault)
    (pa : BitVec 64) (size : ℕ) : Touches (physRead fault pa size) :=
  touchFrame_carries.physRead hfault pa size

theorem readMem_touches (va : BitVec 64) (size : ℕ) :
    Touches (readMem va size) :=
  touchFrame_carries.readMem (fun _ => trivial) trivial size

theorem writeMem_touches (va : BitVec 64) (size : ℕ) (value : BitVec 64) :
    Touches (writeMem va size value) :=
  touchFrame_carries.writeMem (fun _ => trivial) trivial size value

/-! ## Fetching -/

/-- Touches memory only, gives a length of two or four bytes, and raises
faults and illegal instructions. -/
def Fetches (prog : Hart (BitVec 32 × BitVec 64)) : Prop :=
  ∀ profile c, prog.Ensures profile c
    (fun fetched c' => Touched c c' ∧ (fetched.2 = 2 ∨ fetched.2 = 4))
    (fun e c' => Touched c c' ∧
      (e.IsFault ∨ ∃ inst, e = .illegalInstruction inst))

section Fetches

variable {α : Type}

theorem Fetches.bind {first : Hart α}
    {next : α → Hart (BitVec 32 × BitVec 64)} (hfirst : Touches first)
    (hnext : ∀ value, Fetches (next value)) : Fetches (first >>= next) := by
  intro profile c
  apply Program.Ensures.bind
  apply (hfirst profile c).mono
  · intro value c₁ htouched
    apply (hnext value profile c₁).mono
    · exact fun _ _ h => ⟨Touched.trans htouched h.1, h.2⟩
    · exact fun _ _ h => ⟨Touched.trans htouched h.1, h.2⟩
  · exact fun _ _ h => ⟨h.1, Or.inl h.2⟩

theorem Fetches.pure_word (inst : BitVec 32) :
    Fetches (pure (inst, 4)) :=
  fun _ c => Program.Ensures.pure ⟨Touched.refl c, Or.inr rfl⟩

theorem Fetches.ite {condition : Prop} [Decidable condition]
    {yes no : Hart (BitVec 32 × BitVec 64)} (hyes : Fetches yes)
    (hno : Fetches no) : Fetches (if condition then yes else no) := by
  split
  · exact hyes
  · exact hno

theorem expand_fetches (lo : BitVec 32) : Fetches (expand lo) := by
  apply Fetches.bind (Program.Raises.read _)
  intro c
  cases decompress lo c.xlen with
  | none =>
      exact fun _ c => Program.Ensures.fail
        ⟨Touched.refl c, Or.inr ⟨lo, rfl⟩⟩
  | some inst =>
      exact fun _ c => Program.Ensures.pure ⟨Touched.refl c, Or.inl rfl⟩

theorem fetchHalf_touches (va : BitVec 64) : Touches (fetchHalf va) :=
  Program.Raises.bind (translate_touches va .fetch) fun pa =>
    physRead_touches (.instructionAccessFault va) trivial pa 2

end Fetches

theorem fetch_ensures (profile : Profile) (c : Cpu) :
    fetch.Ensures profile c
      (fun fetched c' => Touched c c' ∧ (fetched.2 = 2 ∨ fetched.2 = 4))
      (fun e c' => Touched c c' ∧
        (e.IsFault ∨ (∃ inst, e = .illegalInstruction inst) ∨
          c.pc &&& 1 ≠ 0 ∧ e = .instructionAddressMisaligned c.pc)) := by
  have hrest : ∀ prog, Fetches prog → prog.Ensures profile c
      (fun fetched c' => Touched c c' ∧ (fetched.2 = 2 ∨ fetched.2 = 4))
      (fun e c' => Touched c c' ∧
        (e.IsFault ∨ (∃ inst, e = .illegalInstruction inst) ∨
          c.pc &&& 1 ≠ 0 ∧ e = .instructionAddressMisaligned c.pc)) := by
    intro prog hprog
    exact (hprog profile c).mono (fun _ _ h => h)
      fun _ _ h => ⟨h.1, h.2.imp_right Or.inl⟩
  apply Program.Ensures.bind
  apply Program.Ensures.read
  apply Program.Ensures.ite
  · intro hodd
    exact Program.Ensures.fail
      ⟨Touched.refl c, Or.inr (Or.inr ⟨hodd, rfl⟩)⟩
  intro _
  apply hrest
  apply Fetches.ite
  · apply Fetches.bind (translate_touches _ .fetch)
    intro pa
    apply Fetches.bind (physRead_touches (.instructionAccessFault _) trivial pa 4)
    intro word
    exact Fetches.ite (expand_fetches _) (Fetches.pure_word _)
  · apply Fetches.bind (fetchHalf_touches _)
    intro lo
    apply Fetches.ite (expand_fetches _)
    apply Fetches.bind (Program.Raises.check _)
    intro next
    exact Fetches.bind (fetchHalf_touches next) fun hi => Fetches.pure_word _

end Cpu

end Nanoemu
