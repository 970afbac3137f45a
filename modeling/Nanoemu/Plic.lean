import Mathlib.Tactic

/-!
# The platform-level interrupt controller

A handler claims an interrupt, which names the source and stops it from
interrupting again, and completes it once the device has been serviced.
Sources are level-triggered, and a context is a hart at a privilege level.
-/

namespace Nanoemu

namespace Plic

def PLIC_BASE : BitVec 64 := 0x0C000000
def PLIC_SIZE : BitVec 64 := 0x04000000

/-- Sources are numbered from 1; 0 means "no interrupt" in a claim. -/
abbrev MAX_SOURCES : ℕ := 32
abbrev CONTEXTS : ℕ := 2

instance : NeZero MAX_SOURCES := ⟨by decide⟩

def PENDING_BASE : BitVec 64 := 0x1000
def ENABLE_BASE : BitVec 64 := 0x2000
def ENABLE_STRIDE : BitVec 64 := 0x80
def CONTEXT_CONTROL_BASE : BitVec 64 := 0x200000
def CONTEXT_STRIDE : BitVec 64 := 0x1000

/-- A source number; indexing and shifting by one is always in range. -/
abbrev Source := Fin MAX_SOURCES

/-- A hart at a privilege level. -/
abbrev Context := Fin CONTEXTS

end Plic

def CONTEXT_MACHINE : Plic.Context := 0
def CONTEXT_SUPERVISOR : Plic.Context := 1

structure Plic where
  /-- Per-source priority; 0 means "never interrupt". -/
  priority : Plic.Source → BitVec 32
  /-- What each device is asserting now. -/
  levels : BitVec 32
  /-- Sources claimed by a handler but not yet completed. -/
  claimed : BitVec 32
  enable : Plic.Context → BitVec 32
  threshold : Plic.Context → BitVec 32

namespace Plic

def default : Plic :=
  { priority := fun _ => 0
    levels := 0
    claimed := 0
    enable := fun _ => 0
    threshold := fun _ => 0 }

def sourceBit (source : Source) : BitVec 32 :=
  1#32 <<< source.val

/-- A 32-bit source number, when there is such a source. -/
def source? (source : BitVec 32) : Option Source :=
  if h : source.toNat < MAX_SOURCES then some ⟨source.toNat, h⟩ else none

def setLevel (plic : Plic) (source : BitVec 32) (asserted : Bool) : Plic :=
  match source? source with
  | none => plic
  | some source =>
      if source = 0 then plic
      else if asserted then
        { plic with levels := plic.levels ||| sourceBit source }
      else { plic with levels := plic.levels &&& ~~~sourceBit source }

/-- Sources that are asserting and have not been claimed. -/
def pending (plic : Plic) : BitVec 32 :=
  plic.levels &&& ~~~plic.claimed

/-- The sources `1 .. MAX_SOURCES` in the order the arbiter visits them. -/
def sources : List Source :=
  (List.finRange MAX_SOURCES).tail

/-- One round of arbitration.  The comparison is strict: a priority equal to
the threshold is masked, and a tie stays with the earlier source. -/
def bestStep (plic : Plic) (candidates : BitVec 32)
    (best : Source × BitVec 32) (source : Source) : Source × BitVec 32 :=
  if candidates &&& sourceBit source = 0 then best
  else if best.2 < plic.priority source then (source, plic.priority source)
  else best

/-- The highest-priority source this context should take, or 0 for none. -/
def best (plic : Plic) (context : Context) : Source :=
  let candidates := plic.pending &&& plic.enable context
  (sources.foldl (plic.bestStep candidates) (0, plic.threshold context)).1

def isPending (plic : Plic) (context : Context) : Bool :=
  plic.best context != 0

def claim (plic : Plic) (context : Context) : Source × Plic :=
  let source := plic.best context
  if source = 0 then (source, plic)
  else (source, { plic with claimed := plic.claimed ||| sourceBit source })

def complete (plic : Plic) (source : BitVec 32) : Plic :=
  match source? source with
  | none => plic
  | some source =>
      { plic with claimed := plic.claimed &&& ~~~sourceBit source }

/-! ## The register window -/

/-- The register an offset falls in.  Reads and writes decode alike. -/
inductive Register where
  | priority (source : ℕ)
  | pending (offset : BitVec 64)
  | enable (context word : ℕ)
  | control (context field : ℕ)
deriving DecidableEq, Repr

def decode (offset : BitVec 64) : Register :=
  if offset < PENDING_BASE then .priority (offset / 4).toNat
  else if offset < ENABLE_BASE then .pending offset
  else if offset < CONTEXT_CONTROL_BASE then
    .enable ((offset - ENABLE_BASE) / ENABLE_STRIDE).toNat
      ((offset - ENABLE_BASE) % ENABLE_STRIDE).toNat
  else
    .control ((offset - CONTEXT_CONTROL_BASE) / CONTEXT_STRIDE).toNat
      ((offset - CONTEXT_CONTROL_BASE) % CONTEXT_STRIDE).toNat

def read (plic : Plic) (offset : BitVec 64) : BitVec 64 × Plic :=
  match decode offset with
  | .priority source =>
      if h : source < MAX_SOURCES then
        ((plic.priority ⟨source, h⟩).setWidth 64, plic)
      else (0, plic)
  | .pending offset =>
      -- Only the first word exists with 32 sources.
      if offset = PENDING_BASE then (plic.pending.setWidth 64, plic)
      else (0, plic)
  | .enable context word =>
      if h : word = 0 ∧ context < CONTEXTS then
        ((plic.enable ⟨context, h.2⟩).setWidth 64, plic)
      else (0, plic)
  | .control context field =>
      if h : context < CONTEXTS then
        if field = 0 then ((plic.threshold ⟨context, h⟩).setWidth 64, plic)
        else if field = 4 then
          let (source, plic) := plic.claim ⟨context, h⟩
          (BitVec.ofNat 64 source.val, plic)
        else (0, plic)
      else (0, plic)

def write (plic : Plic) (offset value : BitVec 64) : Plic :=
  let value : BitVec 32 := value.setWidth 32
  match decode offset with
  | .priority source =>
      -- Source 0 does not exist and its priority stays 0.
      if h : 0 < source ∧ source < MAX_SOURCES then
        { plic with
          priority := Function.update plic.priority ⟨source, h.2⟩ value }
      else plic
  | .pending _ => plic
  | .enable context word =>
      if h : word = 0 ∧ context < CONTEXTS then
        -- Source 0 can never be enabled.
        { plic with
          enable := Function.update plic.enable ⟨context, h.2⟩
            (value &&& ~~~1) }
      else plic
  | .control context field =>
      if h : context < CONTEXTS then
        if field = 0 then
          { plic with
            threshold := Function.update plic.threshold ⟨context, h⟩ value }
        else if field = 4 then plic.complete value
        else plic
      else plic

end Plic

end Nanoemu
