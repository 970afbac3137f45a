import Nanoemu.Cpu

/-!
# Frames of an access

Every access is made of reads and writes of memory.  What these keep, a
translation keeps, a load, a store and a fetch, and the errors are the faults of
the access.
-/

namespace Nanoemu

open CheckedProgram

/-- Reading and writing memory stay within the frame. -/
structure Memory.Respects (inner : Frame Memory) : Prop where
  read : ∀ addr size, (Memory.read addr size).Keeps inner
  write : ∀ addr size value, (Memory.write addr size value).Keeps inner

section Frames

variable {kind : Exception → Prop}

namespace Mmu

variable {inner : Frame Memory} (hinner : Memory.Respects inner)
  {access : Access} {va : BitVec 64}
  (hfault : kind (Exception.pageFault access va))

include hinner hfault

theorem leaf_raises (scheme : Mode) (effective : Priv) (status : BitVec 64)
    (level : ℕ) (addr pte : BitVec 64) :
    (leaf scheme effective status va access level addr pte).Raises inner
      kind := by
  apply Program.Raises.ite (Program.Raises.fail hfault)
  apply Program.Raises.ite (Program.Raises.fail hfault)
  apply Program.Raises.bind (Program.Raises.check _)
  intro mask
  apply Program.Raises.ite (Program.Raises.fail hfault)
  apply Program.Raises.ite
  · exact Program.Raises.bind
      (Program.Raises.mapError (hinner.write _ _ _) fun _ => hfault)
      fun _ => Program.Raises.check _
  · exact Program.Raises.check _

theorem walk_raises (scheme : Mode) (effective : Priv) (status : BitVec 64)
    (remaining : ℕ) (table : BitVec 64) :
    (walk scheme effective status va access remaining table).Raises inner
      kind := by
  induction remaining generalizing table with
  | zero => exact Program.Raises.fail hfault
  | succ level ih =>
      apply Program.Raises.bind (Program.Raises.check _)
      intro addr
      apply Program.Raises.bind
        (Program.Raises.mapError (hinner.read _ _) fun _ => hfault)
      intro pte
      apply Program.Raises.ite (Program.Raises.fail hfault)
      apply Program.Raises.ite
      · apply Program.Raises.ite (Program.Raises.fail hfault)
        exact Program.Raises.bind (Program.Raises.check _) fun _ => ih _
      · exact leaf_raises hinner hfault scheme effective status level addr pte

theorem translate_raises (xlen : Xlen) (satp status : BitVec 64)
    (mode : Priv) :
    (translate xlen satp status mode va access).Raises inner kind := by
  apply Program.Raises.ite (Program.Raises.pure va)
  apply Program.Raises.ite
  · exact Program.Raises.fail hfault
  · exact Program.Raises.bind (Program.Raises.check _) fun table =>
      walk_raises hinner hfault _ _ _ _ table

end Mmu

namespace Cpu

variable {frame : Frame Cpu}

/-! ## Loads and stores

What translations and the accesses to physical addresses keep and raise, the
loads and the stores do. -/

section Loads

variable {va : BitVec 64}
  (htranslate : ∀ addr, (translate addr .load).Raises frame kind)
  (hread : ∀ pa size,
    (physRead (.loadAccessFault va) pa size).Raises frame kind)

include htranslate hread

theorem readBytes_raises (remaining k : ℕ) (v : BitVec 64) :
    (readBytes va remaining k v).Raises frame kind := by
  induction remaining generalizing k v with
  | zero => exact Program.Raises.pure _
  | succ remaining ih =>
      apply Program.Raises.bind (Program.Raises.check _)
      intro addr
      apply Program.Raises.bind (htranslate addr)
      intro pa
      apply Program.Raises.bind (hread pa 1)
      intro b
      apply Program.Raises.bind (Program.Raises.check _)
      intro shift
      apply Program.Raises.bind (Program.Raises.check _)
      intro piece
      exact ih (k + 1) _

theorem readMem_raises (size : ℕ) : (readMem va size).Raises frame kind := by
  apply Program.Raises.bind (Program.Raises.check _)
  intro fits
  apply Program.Raises.ite
  · exact Program.Raises.bind (htranslate va) fun pa => hread pa size
  · exact readBytes_raises htranslate hread size 0 0

end Loads

section Stores

variable {va : BitVec 64}
  (htranslate : ∀ addr, (translate addr .store).Raises frame kind)
  (hwrite : ∀ pa size value,
    (physWrite (.storeAccessFault va) pa size value).Raises frame kind)

include htranslate

theorem translateBytes_raises (remaining k : ℕ) :
    (translateBytes va remaining k).Raises frame kind := by
  induction remaining generalizing k with
  | zero => exact Program.Raises.pure _
  | succ remaining ih =>
      apply Program.Raises.bind (Program.Raises.check _)
      intro addr
      exact Program.Raises.bind (htranslate addr) fun _ => ih (k + 1)

include hwrite

theorem writeBytes_raises (value : BitVec 64) (remaining k : ℕ) :
    (writeBytes va value remaining k).Raises frame kind := by
  induction remaining generalizing k with
  | zero => exact Program.Raises.pure _
  | succ remaining ih =>
      apply Program.Raises.bind (Program.Raises.check _)
      intro addr
      apply Program.Raises.bind (htranslate addr)
      intro pa
      apply Program.Raises.bind (Program.Raises.check _)
      intro shift
      apply Program.Raises.bind (Program.Raises.check _)
      intro byte
      exact Program.Raises.bind (hwrite pa 1 byte) fun _ => ih (k + 1)

theorem writeMem_raises (size : ℕ) (value : BitVec 64) :
    (writeMem va size value).Raises frame kind := by
  apply Program.Raises.bind (Program.Raises.check _)
  intro fits
  apply Program.Raises.ite
  · exact Program.Raises.bind (htranslate va) fun pa => hwrite pa size value
  · exact Program.Raises.bind (translateBytes_raises htranslate size 0)
      fun _ => writeBytes_raises htranslate hwrite value size 0

end Stores

theorem expand_keeps (lo : BitVec 32) : (expand lo).Keeps frame := by
  apply Program.Keeps.bind (Program.Keeps.read _)
  intro c
  cases decompress lo c.xlen with
  | none => exact Program.Keeps.fail _
  | some inst => exact Program.Keeps.pure _

theorem fetch_frame
    (htranslate : ∀ va, (translate va .fetch).Keeps frame)
    (hread : ∀ fault pa size, (physRead fault pa size).Keeps frame) :
    fetch.Keeps frame := by
  have hhalf : ∀ va, (fetchHalf va).Keeps frame := fun va =>
    Program.Keeps.bind (htranslate va) fun pa => hread _ pa 2
  apply Program.Keeps.bind (Program.Keeps.read _)
  intro pc
  apply Program.Keeps.ite (Program.Keeps.fail _)
  apply Program.Keeps.ite
  · apply Program.Keeps.bind (htranslate pc)
    intro pa
    apply Program.Keeps.bind (hread _ pa 4)
    intro word
    exact Program.Keeps.ite (expand_keeps _) (Program.Keeps.pure _)
  · apply Program.Keeps.bind (hhalf pc)
    intro lo
    apply Program.Keeps.ite (expand_keeps _)
    apply Program.Keeps.bind (Program.Keeps.check _)
    intro next
    exact Program.Keeps.bind (hhalf next) fun _ => Program.Keeps.pure _

/-- What memory keeps, and what the cache does to it, the hart keeps. -/
structure Carries (inner : Frame Memory) (frame : Frame Cpu) : Prop
    extends Memory.Respects inner where
  mem : ∀ c mem, inner.rel c.mem mem → frame.rel c { c with mem := mem }
  tlb : ∀ c va access entry, frame.rel c (c.setTlb va access entry)

namespace Carries

variable {inner : Frame Memory} (h : Carries inner frame)

include h

theorem onMemory {α : Type} {body : Program Memory Exception α}
    (hbody : body.Raises inner kind) :
    (onMemory body).Raises frame kind :=
  Program.Raises.zoom hbody h.mem

theorem translate {access : Access} {va : BitVec 64}
    (hfault : kind (Exception.pageFault access va)) :
    (Cpu.translate va access).Raises frame kind := by
  apply Program.Raises.bind (Program.Raises.read _)
  intro c
  apply Program.Raises.ite (Program.Raises.pure _)
  apply Program.Raises.bind (h.onMemory
    (Mmu.translate_raises h.toRespects hfault _ _ _ _))
  intro pa
  exact Program.Raises.bind (Program.Raises.update fun c => h.tlb c _ _ _)
    fun _ => Program.Raises.pure _

theorem physRead {fault : Exception} (hfault : kind fault) (pa : BitVec 64)
    (size : ℕ) : (Cpu.physRead fault pa size).Raises frame kind :=
  h.onMemory (Program.Raises.mapError (h.read pa size) fun _ => hfault)

theorem physWrite {fault : Exception} (hfault : kind fault) (pa : BitVec 64)
    (size : ℕ) (value : BitVec 64) :
    (Cpu.physWrite fault pa size value).Raises frame kind :=
  h.onMemory (Program.Raises.mapError (h.write pa size value) fun _ => hfault)

theorem fetch : Cpu.fetch.Keeps frame := by
  apply fetch_frame
  · intro va
    have hraises : (Cpu.translate va .fetch).Raises frame fun _ => True :=
      h.translate trivial
    exact hraises.keeps
  · intro fault pa size
    have hraises : (Cpu.physRead fault pa size).Raises frame fun _ => True :=
      h.physRead trivial pa size
    exact hraises.keeps

theorem readMem {va : BitVec 64} (hpage : ∀ addr, kind (.loadPageFault addr))
    (haccess : kind (.loadAccessFault va)) (size : ℕ) :
    (Cpu.readMem va size).Raises frame kind :=
  readMem_raises (fun addr => h.translate (hpage addr))
    (h.physRead haccess) size

theorem writeMem {va : BitVec 64}
    (hpage : ∀ addr, kind (.storePageFault addr))
    (haccess : kind (.storeAccessFault va)) (size : ℕ) (value : BitVec 64) :
    (Cpu.writeMem va size value).Raises frame kind :=
  writeMem_raises (fun addr => h.translate (hpage addr))
    (h.physWrite haccess) size value

end Carries

end Cpu

end Frames

end Nanoemu
