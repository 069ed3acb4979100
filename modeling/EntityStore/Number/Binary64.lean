/-!
# Double-precision floating point numbers, as bit patterns

A number is kept as its 64 bits, so that a payload of a NaN and the sign of a zero survive.  A
finite pattern denotes `± mantissa · 2 ^ exponent`; `orderKey` numbers the patterns along the
total order of the standard (negative NaNs first, then the reals with `-0` below `+0`, positive
NaNs last).

    x.orderKey = y.orderKey ↔ x = y                       (orderKey_inj)

Rounding is done once, for any binary format: `Format.round num den` is the value of the format
nearest to `num / den`, a tie going to the even mantissa.
-/

namespace EntityStore

structure Binary64 where
  bits : UInt64
deriving DecidableEq, Inhabited

namespace Binary64

/-! ## Fields -/

def word (x : Binary64) : Nat := x.bits.toNat

def isNegative (x : Binary64) : Bool := 0x8000000000000000 ≤ x.word

def exponentField (x : Binary64) : Nat := x.word / 0x10000000000000 % 2048

def fraction (x : Binary64) : Nat := x.word % 0x10000000000000

def isFinite (x : Binary64) : Bool := x.exponentField ≠ 2047

def isNaN (x : Binary64) : Bool := x.exponentField = 2047 ∧ x.fraction ≠ 0

/-- The integer significand of a finite pattern. -/
def mantissa (x : Binary64) : Nat :=
  if x.exponentField = 0 then x.fraction else x.fraction + 0x10000000000000

/-- The power of two that the significand is scaled by. -/
def exponent (x : Binary64) : Int := (max 1 x.exponentField : Nat) - 1075

def negativeZero : Binary64 := ⟨0x8000000000000000⟩

/-! ## Order -/

/-- Position of a pattern in the total order of all patterns. -/
def orderKey (x : Binary64) : Int :=
  if x.word < 0x8000000000000000 then x.word else 0x7fffffffffffffff - x.word

theorem orderKey_inj {x y : Binary64} : x.orderKey = y.orderKey ↔ x = y := by
  refine ⟨fun h => ?_, fun h => h ▸ rfl⟩
  have hw : x.word = y.word := by
    unfold orderKey at h
    split at h <;> split at h <;> omega
  cases x; cases y
  exact congrArg mk (UInt64.toNat_inj.1 hw)

end Binary64

/-! ## Rounding -/

/-- A binary format: digits of the mantissa, the least exponent, and the exponent of the first
power of two that is too large. -/
structure BinaryFormat where
  precision : Nat
  minExponent : Int
  overflowExponent : Int

namespace BinaryFormat

def double : BinaryFormat := ⟨53, -1074, 1024⟩

def single : BinaryFormat := ⟨24, -149, 128⟩

/-- The natural number nearest to `num / den`, a tie going to the even one. -/
def nearestNat (num den : Nat) : Nat :=
  let q := num / den
  let twice := 2 * (num % den)
  if twice < den then q
  else if den < twice then q + 1
  else q + q % 2

/-- `num / den · 2 ^ shift` as a pair of numerator and denominator. -/
def scale (num den : Nat) (shift : Int) : Nat × Nat :=
  (num <<< shift.toNat, den <<< (-shift).toNat)

/-- The exponent of the last mantissa digit at the magnitude of `num / den`. -/
def lastPlace (format : BinaryFormat) (num den : Nat) : Int :=
  let guess : Int := Nat.log2 num - Nat.log2 den
  let (n, d) := scale num den (-guess)
  max format.minExponent ((if d ≤ n then guess + 1 else guess) - format.precision)

/-- Mantissa and exponent of the value of the format nearest to `num / den`, or nothing where
that value is too large for the format. -/
def round (format : BinaryFormat) (num den : Nat) : Option (Nat × Int) :=
  let place := format.lastPlace num den
  let (n, d) := scale num den (-place)
  let mantissa := nearestNat n d
  if mantissa = 0 then some (0, format.minExponent)
  else if format.overflowExponent - place ≤ Nat.log2 mantissa then none
  else some (mantissa, place)

end BinaryFormat

namespace Binary64

/-- The pattern of `± mantissa · 2 ^ exponent`, for a pair that `BinaryFormat.double` rounds to. -/
def encode (negative : Bool) (mantissa : Nat) (exponent : Int) : Binary64 :=
  let magnitude := (exponent + 1074).toNat * 0x10000000000000 + mantissa
  ⟨UInt64.ofNat (if negative then 0x8000000000000000 + magnitude else magnitude)⟩

def infinity (negative : Bool) : Binary64 :=
  ⟨if negative then 0xfff0000000000000 else 0x7ff0000000000000⟩

/-- The number nearest to `num / den` with the given sign. -/
def ofRatio (negative : Bool) (num den : Nat) : Binary64 :=
  match BinaryFormat.double.round num den with
  | some (mantissa, exponent) => encode negative mantissa exponent
  | none => infinity negative

/-- The magnitude of a finite pattern as numerator and denominator. -/
def ratio (x : Binary64) : Nat × Nat := BinaryFormat.scale x.mantissa 1 x.exponent

/-- The nearest number of single precision.  A NaN keeps the leading part of its payload and is
made quiet. -/
def toSingle (x : Binary64) : Binary64 :=
  if x.isNaN then
    ⟨(x.bits &&& 0xffffffffe0000000) ||| 0x0008000000000000⟩
  else if x.isFinite then
    let (num, den) := x.ratio
    match BinaryFormat.single.round num den with
    | some (mantissa, exponent) =>
      let (n, d) := BinaryFormat.scale mantissa 1 exponent
      ofRatio x.isNegative n d
    | none => infinity x.isNegative
  else x

end Binary64

end EntityStore
