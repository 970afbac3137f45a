import Mathlib.Tactic

/-!
# UTF-8 with replacement characters

Bytes are decoded as UTF-8, and every maximal prefix of a sequence that does
not go on as one becomes a single replacement character.  ASCII text is only
ever the decoding of itself.
-/

namespace LossyUtf8

def REPLACEMENT : Char := Char.ofNat 0xfffd

def isCont (b : BitVec 8) : Bool :=
  0x80 ≤ b ∧ b ≤ 0xbf

/-- A lead byte of two with a continuation. -/
def isTwo (b c : BitVec 8) : Bool :=
  0xc2 ≤ b ∧ b ≤ 0xdf ∧ isCont c

/-- The first two bytes of three: no overlong form, no surrogate. -/
def isThree (b c : BitVec 8) : Bool :=
  b = 0xe0 ∧ 0xa0 ≤ c ∧ c ≤ 0xbf ∨
    0xe1 ≤ b ∧ b ≤ 0xec ∧ isCont c ∨
    b = 0xed ∧ 0x80 ≤ c ∧ c ≤ 0x9f ∨
    0xee ≤ b ∧ b ≤ 0xef ∧ isCont c

/-- The first two bytes of four: no overlong form, nothing past U+10FFFF. -/
def isFour (b c : BitVec 8) : Bool :=
  b = 0xf0 ∧ 0x90 ≤ c ∧ c ≤ 0xbf ∨
    0xf1 ≤ b ∧ b ≤ 0xf3 ∧ isCont c ∨
    b = 0xf4 ∧ 0x80 ≤ c ∧ c ≤ 0x8f

def payload (b : BitVec 8) : ℕ :=
  b.toNat % 64

def char2 (b c : BitVec 8) : Char :=
  Char.ofNat (b.toNat % 32 * 64 + payload c)

def char3 (b c d : BitVec 8) : Char :=
  Char.ofNat (b.toNat % 16 * 4096 + payload c * 64 + payload d)

def char4 (b c d e : BitVec 8) : Char :=
  Char.ofNat (b.toNat % 8 * 262144 + payload c * 4096 + payload d * 64 +
    payload e)

def decode : List (BitVec 8) → List Char
  | [] => []
  | b :: rest =>
      if b < 0x80 then Char.ofNat b.toNat :: decode rest
      else
        match rest with
        | [] => [REPLACEMENT]
        | c :: rest₁ =>
            if isTwo b c then char2 b c :: decode rest₁
            else if !isThree b c && !isFour b c then
              REPLACEMENT :: decode (c :: rest₁)
            else
              match rest₁ with
              | [] => [REPLACEMENT]
              | d :: rest₂ =>
                  if !isCont d then REPLACEMENT :: decode (d :: rest₂)
                  else if isThree b c then char3 b c d :: decode rest₂
                  else
                    match rest₂ with
                    | [] => [REPLACEMENT]
                    | e :: rest₃ =>
                        if isCont e then char4 b c d e :: decode rest₃
                        else REPLACEMENT :: decode (e :: rest₃)

def text (bytes : List (BitVec 8)) : String :=
  String.ofList (decode bytes)

example : decode [0x74, 0xe2, 0x82, 0x6f] = ['t', REPLACEMENT, 'o'] := by
  decide

/-! ## Only ASCII decodes to ASCII -/

section Ascii

variable {b c d e : BitVec 8}

theorem toNat_ofNat {n : ℕ} (h : n.isValidChar) : (Char.ofNat n).toNat = n := by
  unfold Char.ofNat
  rw [dif_pos h]
  rfl

theorem char2_large (h : isTwo b c = true) : 0x80 ≤ (char2 b c).toNat := by
  simp [isTwo, isCont, BitVec.le_def] at h
  unfold char2 payload
  rw [toNat_ofNat (Or.inl (by omega))]
  omega

theorem char3_large (h : isThree b c = true) : 0x80 ≤ (char3 b c d).toNat := by
  simp [isThree, isCont, BitVec.le_def, ← BitVec.toNat_inj] at h
  unfold char3 payload
  have hvalid : Nat.isValidChar
      (b.toNat % 16 * 4096 + c.toNat % 64 * 64 + d.toNat % 64) := by
    unfold Nat.isValidChar
    omega
  rw [toNat_ofNat hvalid]
  omega

theorem char4_large (h : isFour b c = true) : 0x80 ≤ (char4 b c d e).toNat := by
  simp [isFour, isCont, BitVec.le_def, ← BitVec.toNat_inj] at h
  unfold char4 payload
  have hvalid : Nat.isValidChar (b.toNat % 8 * 262144 +
      c.toNat % 64 * 4096 + d.toNat % 64 * 64 + e.toNat % 64) := by
    unfold Nat.isValidChar
    omega
  rw [toNat_ofNat hvalid]
  omega

theorem char1_toNat (h : b < 0x80) : (Char.ofNat b.toNat).toNat = b.toNat := by
  have hlt : b.toNat < 0x80 := h
  exact toNat_ofNat (Or.inl (by omega))

theorem replacement_large : 0x80 ≤ REPLACEMENT.toNat := by
  decide

theorem decode_large (rest : List (BitVec 8)) (hbyte : ¬ b < 0x80) :
    ∃ ch text, decode (b :: rest) = ch :: text ∧ 0x80 ≤ ch.toNat := by
  unfold decode
  rw [if_neg hbyte]
  split
  · exact ⟨_, _, rfl, replacement_large⟩
  · next c rest₁ =>
      by_cases htwo : isTwo b c = true
      · rw [if_pos htwo]
        exact ⟨_, _, rfl, char2_large htwo⟩
      rw [if_neg htwo]
      by_cases hlead : (!isThree b c && !isFour b c) = true
      · rw [if_pos hlead]
        exact ⟨_, _, rfl, replacement_large⟩
      rw [if_neg hlead]
      split
      · exact ⟨_, _, rfl, replacement_large⟩
      · next d rest₂ =>
          by_cases hcont : (!isCont d) = true
          · rw [if_pos hcont]
            exact ⟨_, _, rfl, replacement_large⟩
          rw [if_neg hcont]
          by_cases hthree : isThree b c = true
          · rw [if_pos hthree]
            exact ⟨_, _, rfl, char3_large hthree⟩
          have hfour : isFour b c = true := by simpa [hthree] using hlead
          rw [if_neg hthree]
          split
          · exact ⟨_, _, rfl, replacement_large⟩
          · next e rest₃ =>
              split
              · exact ⟨_, _, rfl, char4_large hfour⟩
              · exact ⟨_, _, rfl, replacement_large⟩

theorem decode_ascii_cons {rest : List (BitVec 8)} (hbyte : b < 0x80) :
    decode (b :: rest) = Char.ofNat b.toNat :: decode rest := by
  conv_lhs => unfold decode
  rw [if_pos hbyte]

theorem decode_eq_nil {bytes : List (BitVec 8)} (h : decode bytes = []) :
    bytes = [] := by
  cases bytes with
  | nil => rfl
  | cons b rest =>
      by_cases hbyte : b < 0x80
      · rw [decode_ascii_cons hbyte] at h
        cases h
      · obtain ⟨ch, text, hdecode, -⟩ := decode_large rest hbyte
        rw [hdecode] at h
        cases h

/-- Bytes decode to an ASCII text only if they spell it. -/
theorem decode_ascii (bytes : List (BitVec 8)) (text : List Char)
    (hascii : ∀ ch ∈ text, ch.toNat < 0x80) :
    decode bytes = text ↔ bytes.map BitVec.toNat = text.map Char.toNat := by
  induction text generalizing bytes with
  | nil =>
      constructor
      · intro h
        rw [decode_eq_nil h]
        rfl
      · intro h
        rw [List.map_eq_nil_iff.mp h]
        rfl
  | cons ch text ih =>
      have hch : ch.toNat < 0x80 := hascii ch List.mem_cons_self
      have hrest := fun bytes => ih bytes fun ch' hmem =>
        hascii ch' (List.mem_cons_of_mem ch hmem)
      cases bytes with
      | nil => exact iff_of_false nofun nofun
      | cons b rest =>
          rw [List.map_cons, List.map_cons, List.cons.injEq, ← hrest]
          by_cases hbyte : b < 0x80
          · rw [decode_ascii_cons hbyte, List.cons.injEq,
              ← Char.toNat_inj, char1_toNat hbyte]
          · obtain ⟨ch', text', hdecode, hlarge⟩ :=
              decode_large rest hbyte
            rw [hdecode, List.cons.injEq]
            have hle : 0x80 ≤ b.toNat := BitVec.not_lt.mp hbyte
            refine iff_of_false (fun h => ?_) (fun h => ?_)
            · rw [h.1] at hlarge
              omega
            · omega

end Ascii

theorem text_ascii (bytes : List (BitVec 8)) (name : String)
    (hascii : ∀ ch ∈ name.toList, ch.toNat < 0x80) :
    text bytes = name ↔
      bytes.map BitVec.toNat = name.toList.map Char.toNat := by
  rw [← decode_ascii bytes name.toList hascii]
  unfold text
  constructor
  · intro h
    rw [← h, String.toList_ofList]
  · intro h
    rw [h, String.ofList_toList]

end LossyUtf8
