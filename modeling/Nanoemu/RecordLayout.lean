import Mathlib.Tactic

/-!
# Records of little-endian fields

A record is stored as its fields, one after the other.  Where a field lies and
how wide it is follow from the order of the fields, so a format is written down
as a list and no offset is.  Numbers are little-endian.
-/

namespace RecordLayout

abbrev Bytes := List (BitVec 8)

def fromLe (bytes : Bytes) : ℕ :=
  Nat.ofDigits 256 (bytes.map BitVec.toNat)

theorem fromLe_lt (bytes : Bytes) : fromLe bytes < 256 ^ bytes.length := by
  have hdigits : ∀ x ∈ bytes.map BitVec.toNat, x < 256 := by
    intro x hx
    obtain ⟨b, -, rfl⟩ := List.mem_map.mp hx
    exact b.isLt
  have hlt := Nat.ofDigits_lt_base_pow_length (by decide : 1 < 256) hdigits
  rwa [List.length_map] at hlt

def slice (bytes : Bytes) (start len : ℕ) : Bytes :=
  (bytes.drop start).take len

theorem slice_length_le (bytes : Bytes) (start len : ℕ) :
    (slice bytes start len).length ≤ len := by
  unfold slice
  exact List.length_take_le len _

theorem slice_length {bytes : Bytes} {start len : ℕ}
    (hin : start + len ≤ bytes.length) : (slice bytes start len).length = len := by
  unfold slice
  rw [List.length_take, List.length_drop]
  omega

theorem slice_getElem? {bytes : Bytes} {start len k : ℕ} (hk : k < len) :
    (slice bytes start len)[k]? = bytes[start + k]? := by
  unfold slice
  rw [List.getElem?_take_of_lt hk, List.getElem?_drop]

section Fields

variable {F : Type} [DecidableEq F]

def size (layout : List (F × ℕ)) : ℕ :=
  (layout.map Prod.snd).sum

/-- Where a field starts: past all fields before it. -/
def offset : List (F × ℕ) → F → ℕ
  | [], _ => 0
  | (g, n) :: rest, f => if g = f then 0 else n + offset rest f

def width : List (F × ℕ) → F → ℕ
  | [], _ => 0
  | (g, n) :: rest, f => if g = f then n else width rest f

theorem offset_add_width_le (layout : List (F × ℕ)) (f : F) :
    offset layout f + width layout f ≤ size layout := by
  induction layout with
  | nil => exact le_rfl
  | cons head rest ih =>
      unfold offset width
      simp only [size, List.map_cons, List.sum_cons] at ih ⊢
      split <;> omega

/-- The number a field of the record at `base` holds. -/
def field (layout : List (F × ℕ)) (bytes : Bytes) (base : ℕ) (f : F) : ℕ :=
  fromLe (slice bytes (base + offset layout f) (width layout f))

theorem field_lt (layout : List (F × ℕ)) (bytes : Bytes) (base : ℕ) (f : F) :
    field layout bytes base f < 256 ^ width layout f :=
  (fromLe_lt _).trans_le
    (Nat.pow_le_pow_right (by decide) (slice_length_le _ _ _))

end Fields

section Tables

variable {R K V : Type} [DecidableEq K]

/-- Entries are put into a table one after the other, and some are left out. -/
def tabulate (keep : R → Prop) [DecidablePred keep] (key : R → K) (value : R → V)
    (table : K → Option V) (entries : List R) : K → Option V :=
  entries.foldl
    (fun table r =>
      if keep r then Function.update table (key r) (some (value r)) else table)
    table

theorem tabulate_append (keep : R → Prop) [DecidablePred keep] (key : R → K)
    (value : R → V) (table : K → Option V) (entries entries' : List R) :
    tabulate keep key value table (entries ++ entries') =
      tabulate keep key value (tabulate keep key value table entries)
        entries' :=
  List.foldl_append

theorem tabulate_last (keep : R → Prop) [DecidablePred keep] (key : R → K)
    (value : R → V) (table : K → Option V) (entries : List R) (k : K) :
    tabulate keep key value table entries k =
      ((entries.filter fun r => keep r ∧ key r = k).getLast?.map value).or
        (table k) := by
  induction entries using List.reverseRecOn with
  | nil => rfl
  | append_singleton entries r ih =>
      unfold tabulate at ih ⊢
      rw [List.foldl_append, List.filter_append, List.foldl_cons, List.foldl_nil]
      by_cases hkeep : keep r
      · rw [if_pos hkeep]
        by_cases hkey : key r = k
        · simp [hkeep, hkey]
        · rw [Function.update_of_ne (Ne.symm hkey), ih]
          simp [hkeep, hkey]
      · rw [if_neg hkeep, ih]
        simp [hkeep]

end Tables

end RecordLayout
