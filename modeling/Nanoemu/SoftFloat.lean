import Nanoemu.CheckedProgram

/-!
# Soft-float for the F and D extensions

A value is carried as `m * 2 ^ e` with `m` a 128-bit significand, and every
operation feeds one rounding routine.  Bit patterns and significands are
natural numbers, exponents are integers, and each operation is checked at the
width it has in the source: 128 bits for significands, 32 for exponents and
shift counts.
-/

namespace Nanoemu

open CheckedProgram

namespace Fpu

def NX : ℕ := 1
def UF : ℕ := 2
def OF : ℕ := 4
def DZ : ℕ := 8
def NV : ℕ := 16

/-- A rounding mode, as encoded in `frm` and in an instruction's rm field. -/
inductive Rm where
  /-- To nearest, ties to even. -/
  | rne
  /-- Towards zero. -/
  | rtz
  /-- Towards minus infinity. -/
  | rdn
  /-- Towards plus infinity. -/
  | rup
  /-- To nearest, ties away from zero. -/
  | rmm
deriving DecidableEq, Repr

/-- The two reserved encodings and the dynamic one are `none`. -/
def Rm.fromBits (v : ℕ) : Option Rm :=
  match v with
  | 0 => some .rne
  | 1 => some .rtz
  | 2 => some .rdn
  | 3 => some .rup
  | 4 => some .rmm
  | _ => none

/-- A binary format: its total width and its stored significand bits. -/
structure Fmt where
  bits : ℕ
  sig : ℕ
deriving DecidableEq, Repr

def S : Fmt := { bits := 32, sig := 23 }

def D : Fmt := { bits := 64, sig := 52 }

namespace Fmt

def expBits (f : Fmt) : ℕ := f.bits - f.sig - 1

def bias (f : Fmt) : ℤ := 2 ^ (f.expBits - 1) - 1

/-- The all-ones exponent field, which encodes infinity and NaN. -/
def maxField (f : Fmt) : ℕ := 2 ^ f.expBits - 1

def sigMask (f : Fmt) : ℕ := 2 ^ f.sig - 1

/-- The significand's top bit, set in a quiet NaN. -/
def quietBit (f : Fmt) : ℕ := 2 ^ (f.sig - 1)

def mask (f : Fmt) : ℕ := 2 ^ f.bits - 1

def signMask (f : Fmt) : ℕ := 2 ^ (f.bits - 1)

def nan (f : Fmt) : ℕ := (f.maxField <<< f.sig) ||| f.quietBit

def zero (f : Fmt) (neg : Bool) : ℕ := if neg then f.signMask else 0

def inf (f : Fmt) (neg : Bool) : ℕ := (f.maxField <<< f.sig) ||| f.zero neg

def maxFinite (f : Fmt) (neg : Bool) : ℕ :=
  ((f.maxField - 1) <<< f.sig) ||| f.sigMask ||| f.zero neg

/-- The exponent of the least significant bit of a subnormal. -/
def minE (f : Fmt) : ℤ := 1 - f.bias - f.sig

end Fmt

/-- What a bit pattern denotes; the significand of a finite non-zero has
exactly `sig + 1` significant bits, subnormals included. -/
inductive Cls where
  | zero
  | inf
  | nan (signalling : Bool)
  | num (m : ℕ) (e : ℤ)
deriving DecidableEq, Repr

def Cls.isNan : Cls → Bool
  | .nan _ => true
  | _ => false

def Cls.isSnan : Cls → Bool
  | .nan signalling => signalling
  | _ => false

def Cls.isInf : Cls → Bool
  | .inf => true
  | _ => false

def Cls.isZero : Cls → Bool
  | .zero => true
  | _ => false

def bitLen (m : ℕ) : ℕ := if m = 0 then 0 else m.log2 + 1

def leadingZeros (width m : ℕ) : ℕ := width - bitLen m

/-- The class of a subnormal: the significand is shifted up until the hidden
bit position is occupied. -/
def unpackSubnormal (f : Fmt) (frac : ℕ) : Checked Cls := do
  let len ← Checked.usub 32 64 (leadingZeros 64 frac)
  let room ← Checked.uadd 32 f.sig 1
  let shift ← Checked.usub 32 room len
  let m ← Checked.ushl 128 frac shift
  let e ← Checked.isub 32 f.minE shift
  pure (.num m e)

def unpackNormal (f : Fmt) (field frac : ℕ) : Checked Cls := do
  let e ← Checked.isub 32 field f.bias
  let e ← Checked.isub 32 e f.sig
  pure (.num ((1 <<< f.sig) ||| frac) e)

def unpack (f : Fmt) (x : ℕ) : Checked (Bool × Cls) := do
  let x := x &&& f.mask
  let sign := x &&& f.signMask != 0
  let field := (x >>> f.sig) &&& f.maxField
  let frac := x &&& f.sigMask
  let cls ←
    if field = f.maxField then
      pure (if frac = 0 then Cls.inf else Cls.nan (frac &&& f.quietBit == 0))
    else if field = 0 then
      if frac = 0 then pure Cls.zero else unpackSubnormal f frac
    else unpackNormal f field frac
  pure (sign, cls)

/-- The kept significand, the guard bit below it and whether anything lies
below that, when the low `discard` bits go. -/
def discardBits (m : ℕ) (discard : ℤ) : Checked (ℕ × Bool × Bool) := do
  if discard ≤ 0 then
    let up ← Checked.ineg 32 discard
    let q ← Checked.ushl 128 m up.toNat
    pure (q, false, false)
  else if 128 ≤ discard then pure (0, false, true)
  else do
    let d := discard.toNat
    let top ← Checked.ushl 128 1 d
    let mask ← Checked.usub 128 top 1
    let low := m &&& mask
    let q ← Checked.ushr 128 m d
    let below ← Checked.usub 32 d 1
    let guardBit ← Checked.ushr 128 low below
    let half ← Checked.ushl 128 1 below
    let stickyMask ← Checked.usub 128 half 1
    pure (q, guardBit &&& 1 != 0, low &&& stickyMask != 0)

def roundsUp (rm : Rm) (sign guard sticky : Bool) (q : ℕ) : Bool :=
  match rm with
  | .rne => guard && (sticky || q &&& 1 == 1)
  | .rtz => false
  | .rdn => sign && (guard || sticky)
  | .rup => !sign && (guard || sticky)
  | .rmm => guard

/-- Whether an overflow goes to infinity rather than the largest finite. -/
def overflowsToInf (rm : Rm) (sign : Bool) : Bool :=
  match rm with
  | .rne => true
  | .rmm => true
  | .rtz => false
  | .rdn => sign
  | .rup => !sign

/-- The encoding of a rounded significand at exponent `lsb`. -/
def encode (f : Fmt) (sign inexact : Bool) (rm : Rm) (q : ℕ) (lsb : ℤ) :
    Checked (ℕ × ℕ) := do
  -- Rounding up can carry out of the significand; the bit shifted away is zero.
  let carry ← Checked.ushr 128 q (f.sig + 1)
  let q ← if carry ≠ 0 then Checked.ushr 128 q 1 else pure q
  let eOut ← if carry ≠ 0 then Checked.iadd 32 lsb 1 else pure lsb
  if q = 0 then pure (f.zero sign, NX ||| UF)
  else do
    let hidden ← Checked.ushr 128 q f.sig
    let field ←
      if hidden ≠ 0 then do
        let e ← Checked.iadd 32 eOut f.sig
        Checked.iadd 32 e f.bias
      else pure 0
    if (f.maxField : ℤ) ≤ field then
      pure (if overflowsToInf rm sign then f.inf sign else f.maxFinite sign,
        OF ||| NX)
    else
      let flags :=
        if inexact then (if hidden = 0 then NX ||| UF else NX) else 0
      pure (f.zero sign ||| (field.toNat <<< f.sig) ||| (q &&& f.sigMask),
        flags)

/-- Rounds `sign * m * 2 ^ e` into `f`, reporting the flags the rounding
raised. -/
def roundPack (f : Fmt) (sign : Bool) (m : ℕ) (e : ℤ) (rm : Rm) :
    Checked (ℕ × ℕ) := do
  if m = 0 then pure (f.zero sign, 0)
  else do
    let msb ← Checked.isub 32 127 (leadingZeros 128 m)
    let top ← Checked.iadd 32 msb e
    let ulp ← Checked.isub 32 top f.sig
    let lsb := max ulp f.minE
    let discard ← Checked.isub 32 lsb e
    let (q, guard, sticky) ← discardBits m discard
    let q ← if roundsUp rm sign guard sticky q then Checked.uadd 128 q 1
      else pure q
    encode f sign (guard || sticky) rm q lsb

/-- Rescales `m * 2 ^ e` to the exponent `base`, with a sticky low bit for
what the shift discards. -/
def scale (m : ℕ) (e base : ℤ) : Checked ℕ := do
  if base ≤ e then do
    let up ← Checked.isub 32 e base
    Checked.ushl 128 m up.toNat
  else do
    let down ← Checked.isub 32 base e
    let d := down.toNat
    if 128 ≤ d then pure (if m ≠ 0 then 1 else 0)
    else do
      let kept ← Checked.ushr 128 m d
      let top ← Checked.ushl 128 1 d
      let mask ← Checked.usub 128 top 1
      pure (kept ||| (if m &&& mask ≠ 0 then 1 else 0))

/-- Adds two exactly represented signed values in a window placed 126 bits
below the higher leading bit. -/
def addRaw (sa : Bool) (ma : ℕ) (ea : ℤ) (sb : Bool) (mb : ℕ) (eb : ℤ) :
    Checked (Bool × ℕ × ℤ) := do
  let topA ← Checked.iadd 32 ea (bitLen ma)
  let topB ← Checked.iadd 32 eb (bitLen mb)
  let base ← Checked.isub 32 (max topA topB) 126
  let a ← scale ma ea base
  let b ← scale mb eb base
  if sa = sb then do
    let sum ← Checked.uadd 128 a b
    pure (sa, sum, base)
  else if b ≤ a then do
    let difference ← Checked.usub 128 a b
    pure (sa, difference, base)
  else do
    let difference ← Checked.usub 128 b a
    pure (sb, difference, base)

/-- The sign of an exact zero, which only the rounding mode decides. -/
def zeroSign (rm : Rm) : Bool := rm == .rdn

def invalid (f : Fmt) : ℕ × ℕ := (f.nan, NV)

/-- The canonical NaN, invalid only if an operand was signalling. -/
def nanResult (f : Fmt) (operands : List Cls) : ℕ × ℕ :=
  (f.nan, if operands.any Cls.isSnan then NV else 0)

/-- Rounds a sum; one that cancels exactly is a zero. -/
def roundSum (f : Fmt) (rm : Rm) (sum : Bool × ℕ × ℤ) : Checked (ℕ × ℕ) :=
  let (sign, m, e) := sum
  if m = 0 then pure (f.zero (zeroSign rm), 0) else roundPack f sign m e rm

def addOrSub (f : Fmt) (a b : ℕ) (rm : Rm) (negateB : Bool) :
    Checked (ℕ × ℕ) := do
  let (sa, ca) ← unpack f a
  let (sb, cb) ← unpack f b
  let sb := sb != negateB
  if ca.isNan || cb.isNan then pure (nanResult f [ca, cb])
  else
    match ca, cb with
    | .inf, .inf => pure (if sa ≠ sb then invalid f else (f.inf sa, 0))
    | .inf, _ => pure (f.inf sa, 0)
    | _, .inf => pure (f.inf sb, 0)
    | .zero, .zero => pure (f.zero (if sa = sb then sa else zeroSign rm), 0)
    | .zero, _ =>
        pure ((b &&& f.mask) ^^^ (if negateB then f.signMask else 0), 0)
    | _, .zero => pure (a &&& f.mask, 0)
    | .num ma ea, .num mb eb => do
        let sum ← addRaw sa ma ea sb mb eb
        roundSum f rm sum
    | _, _ => Checked.panic

def add (f : Fmt) (a b : ℕ) (rm : Rm) : Checked (ℕ × ℕ) :=
  addOrSub f a b rm false

def sub (f : Fmt) (a b : ℕ) (rm : Rm) : Checked (ℕ × ℕ) :=
  addOrSub f a b rm true

def mul (f : Fmt) (a b : ℕ) (rm : Rm) : Checked (ℕ × ℕ) := do
  let (sa, ca) ← unpack f a
  let (sb, cb) ← unpack f b
  if ca.isNan || cb.isNan then pure (nanResult f [ca, cb])
  else
    let sign := sa != sb
    match ca, cb with
    | .inf, .zero => pure (invalid f)
    | .zero, .inf => pure (invalid f)
    | .inf, _ => pure (f.inf sign, 0)
    | _, .inf => pure (f.inf sign, 0)
    | .zero, _ => pure (f.zero sign, 0)
    | _, .zero => pure (f.zero sign, 0)
    | .num ma ea, .num mb eb => do
        let m ← Checked.umul 128 ma mb
        let e ← Checked.iadd 32 ea eb
        roundPack f sign m e rm
    | _, _ => Checked.panic

def div (f : Fmt) (a b : ℕ) (rm : Rm) : Checked (ℕ × ℕ) := do
  let (sa, ca) ← unpack f a
  let (sb, cb) ← unpack f b
  if ca.isNan || cb.isNan then pure (nanResult f [ca, cb])
  else
    let sign := sa != sb
    match ca, cb with
    | .inf, .inf => pure (invalid f)
    | .zero, .zero => pure (invalid f)
    | .inf, _ => pure (f.inf sign, 0)
    | _, .inf => pure (f.zero sign, 0)
    | _, .zero => pure (f.inf sign, DZ)
    | .zero, _ => pure (f.zero sign, 0)
    | .num ma ea, .num mb eb => do
        let num ← Checked.ushl 128 ma 64
        let q ← Checked.udiv num mb
        let e ← Checked.isub 32 ea eb
        let e ← Checked.isub 32 e 64
        roundPack f sign (q ||| (if num % mb ≠ 0 then 1 else 0)) e rm
    | _, _ => Checked.panic

/-- Newton's iteration from an overestimate; it stops the first time it would
rise. -/
def newton (n x : ℕ) : Checked ℕ := fun profile =>
  match Checked.udiv n x profile with
  | none => none
  | some quotient =>
      match Checked.uadd 128 x quotient profile with
      | none => none
      | some sum =>
          if sum >>> 1 < x then newton n (sum >>> 1) profile else some x
termination_by x

def isqrt (n : ℕ) : Checked ℕ := do
  if n = 0 then pure 0
  else do
    let start ← Checked.ushl 128 1 ((bitLen n + 1) / 2)
    newton n start

def sqrt (f : Fmt) (a : ℕ) (rm : Rm) : Checked (ℕ × ℕ) := do
  let (sign, ca) ← unpack f a
  if ca.isNan then pure (nanResult f [ca])
  else
    match ca with
    | .zero => pure (f.zero sign, 0)
    | .inf => pure (if sign then invalid f else (f.inf false, 0))
    | .num m e =>
        if sign then pure (invalid f)
        else do
          let low ← Checked.isub 32 e 64
          let shift : ℕ := if low % 2 = 0 then 64 else 65
          let radicand ← Checked.ushl 128 m shift
          let r ← isqrt radicand
          let square ← Checked.umul 128 r r
          let e ← Checked.isub 32 e shift
          roundPack f false (r ||| (if square ≠ radicand then 1 else 0))
            (e.tdiv 2) rm
    | .nan _ => Checked.panic

/-- The exact product of two finite non-zero operands; `none` if one of them
is zero. -/
def product (ca cb : Cls) : Checked (Option (ℕ × ℤ)) :=
  match ca, cb with
  | .num ma ea, .num mb eb => do
      let m ← Checked.umul 128 ma mb
      let e ← Checked.iadd 32 ea eb
      pure (some (m, e))
  | _, _ => pure none

/-- `(a * b) + c` with one rounding, the product and the addend optionally
negated. -/
def fma (f : Fmt) (a b c : ℕ) (negateProduct negateAddend : Bool) (rm : Rm) :
    Checked (ℕ × ℕ) := do
  let (sa, ca) ← unpack f a
  let (sb, cb) ← unpack f b
  let (sc, cc) ← unpack f c
  let sc := sc != negateAddend
  let sp := (sa != sb) != negateProduct
  -- Zero times infinity is invalid even against a NaN addend.
  if (ca.isInf && cb.isZero) || (ca.isZero && cb.isInf) then pure (invalid f)
  else if ca.isNan || cb.isNan || cc.isNan then
    pure (nanResult f [ca, cb, cc])
  else if ca.isInf || cb.isInf then
    pure (if cc.isInf && sc != sp then invalid f else (f.inf sp, 0))
  else if cc.isInf then pure (f.inf sc, 0)
  else do
    let prod ← product ca cb
    match prod, cc with
    | none, .zero => pure (f.zero (if sp = sc then sp else zeroSign rm), 0)
    | none, _ =>
        pure ((c &&& f.mask) ^^^ (if negateAddend then f.signMask else 0), 0)
    | some (m, e), .zero => roundPack f sp m e rm
    | some (m, e), .num mc ec => do
        let sum ← addRaw sp m e sc mc ec
        roundSum f rm sum
    | _, _ => Checked.panic

/-! ## Conversions -/

/-- Converts between the two precisions. -/
def convert (source target : Fmt) (a : ℕ) (rm : Rm) : Checked (ℕ × ℕ) := do
  let (sign, c) ← unpack source a
  match c with
  | .nan _ => pure (nanResult target [c])
  | .inf => pure (target.inf sign, 0)
  | .zero => pure (target.zero sign, 0)
  | .num m e => roundPack target sign m e rm

/-- Rounds `m * 2 ^ e` to an integer magnitude, reporting whether anything was
lost. -/
def roundToInt (m : ℕ) (e : ℤ) (sign : Bool) (rm : Rm) :
    Checked (ℕ × Bool) := do
  if 0 ≤ e then do
    let q ← Checked.ushl 128 m e.toNat
    pure (q, false)
  else do
    let d ← Checked.ineg 32 e
    let (q, guard, sticky) ← discardBits m d
    let q ← Checked.uadd 128 q (if roundsUp rm sign guard sticky q then 1 else 0)
    pure (q, guard || sticky)

/-- The two's complement of a magnitude in 64 bits, as `wrapping_neg` and a
cast give it. -/
def negated (q : ℕ) : ℕ := (2 ^ 64 - q % 2 ^ 64) % 2 ^ 64

/-- Converts a float to an integer of `width` bits; an out-of-range value
saturates and raises invalid alone. -/
def toInt (f : Fmt) (a width : ℕ) (signed : Bool) (rm : Rm) :
    Checked (ℕ × ℕ) := do
  let (sign, c) ← unpack f a
  let top ← Checked.ushl 128 1 (if signed then width - 1 else width)
  let maxPos ← Checked.usub 128 top 1
  let minMag := if signed then top else 0
  let pos := maxPos % 2 ^ 64
  let neg := if signed then negated minMag else 0
  match c with
  | .nan _ => pure (pos, NV)
  | .inf => pure (if sign then neg else pos, NV)
  | .zero => pure (0, 0)
  | .num m e => do
      let wide ← if 0 ≤ e then Checked.uadd 32 (bitLen m) e.toNat else pure 0
      if 0 ≤ e ∧ 127 < wide then pure (if sign then neg else pos, NV)
      else do
        let (q, inexact) ← roundToInt m e sign rm
        if sign then
          pure (if minMag < q then (neg, NV)
            else (negated q, if inexact then NX else 0))
        else
          pure (if maxPos < q then (pos, NV)
            else (q % 2 ^ 64, if inexact then NX else 0))

/-- Converts an integer, already split into sign and magnitude. -/
def fromInt (f : Fmt) (sign : Bool) (magnitude : ℕ) (rm : Rm) :
    Checked (ℕ × ℕ) :=
  roundPack f sign magnitude 0 rm

/-! ## Comparisons and classification -/

/-- Orders two non-NaN values; both zeroes map to the same key. -/
def key (f : Fmt) (x : ℕ) : Checked ℤ :=
  let x := x &&& f.mask
  let magnitude : ℤ := (x &&& (2 ^ 64 - 1 - f.signMask) : ℕ)
  if x &&& f.signMask ≠ 0 then Checked.ineg 64 magnitude else pure magnitude

/-- `feq`: quiet, so only a signalling NaN raises invalid. -/
def eq (f : Fmt) (a b : ℕ) : Checked (Bool × ℕ) := do
  let (_, ca) ← unpack f a
  let (_, cb) ← unpack f b
  if ca.isNan || cb.isNan then
    pure (false, if ca.isSnan || cb.isSnan then NV else 0)
  else do
    let ka ← key f a
    let kb ← key f b
    pure (decide (ka = kb), 0)

/-- `flt` and `fle`: signalling, so any NaN operand raises invalid. -/
def lt (f : Fmt) (a b : ℕ) (orEqual : Bool) : Checked (Bool × ℕ) := do
  let (_, ca) ← unpack f a
  let (_, cb) ← unpack f b
  if ca.isNan || cb.isNan then pure (false, NV)
  else do
    let ka ← key f a
    let kb ← key f b
    pure (if orEqual then decide (ka ≤ kb) else decide (ka < kb), 0)

/-- `fmin` and `fmax`. -/
def minMax (f : Fmt) (a b : ℕ) (wantMax : Bool) : Checked (ℕ × ℕ) := do
  let (sa, ca) ← unpack f a
  let (_, cb) ← unpack f b
  let flags := if ca.isSnan || cb.isSnan then NV else 0
  match ca.isNan, cb.isNan with
  | true, true => pure (f.nan, flags)
  | true, false => pure (b &&& f.mask, flags)
  | false, true => pure (a &&& f.mask, flags)
  | false, false =>
      if ca.isZero && cb.isZero then
        -- The zeroes compare equal, so the sign decides: -0 is the smaller.
        pure (if sa != wantMax then a &&& f.mask else b &&& f.mask, flags)
      else do
        let ka ← key f a
        let kb ← key f b
        let takeA := if wantMax then decide (kb < ka) else decide (ka < kb)
        pure (if takeA then a &&& f.mask else b &&& f.mask, flags)

/-- `fclass`: a one-hot description of the operand. -/
def classify (f : Fmt) (a : ℕ) : Checked ℕ := do
  let (sign, c) ← unpack f a
  pure <|
    match c with
    | .inf => if sign then 1 <<< 0 else 1 <<< 7
    | .zero => if sign then 1 <<< 3 else 1 <<< 4
    | .nan signalling => if signalling then 1 <<< 8 else 1 <<< 9
    | .num _ e =>
        match sign, decide (e < f.minE) with
        | true, false => 1 <<< 1
        | true, true => 1 <<< 2
        | false, true => 1 <<< 5
        | false, false => 1 <<< 6

end Fpu

end Nanoemu
