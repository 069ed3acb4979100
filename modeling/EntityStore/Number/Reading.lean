import EntityStore.Number.Binary64

/-!
# Reading decimals as doubles

A decimal is read in three steps: the digits that fit a 64-bit word make a whole number, that
number is rounded to a double, and the double is multiplied or divided by a power of ten, rounding
again.  A divisor beyond `10 ^ 308` is taken in several steps, each of which rounds.  The result
is the nearest double whenever both factors are exact, and otherwise may be off in the last place.
-/

namespace EntityStore

namespace Binary64

/-- The largest whole number that digits are gathered into. -/
def maxSignificand : Nat := UInt64.size - 1

/-- Appends decimal digits to `n` while the result fits; returns the digits left over as well. -/
def absorb (n : Nat) : List Nat → Nat × List Nat
  | [] => (n, [])
  | d :: rest => if n * 10 + d ≤ maxSignificand then absorb (n * 10 + d) rest else (n, d :: rest)

/-- The double nearest to `10 ^ k`. -/
def powerOfTen (k : Nat) : Binary64 := ofRatio false (Nat.pow 10 k) 1

/-- Product of two magnitudes, rounded. -/
def times (x y : Binary64) : Binary64 :=
  let (a, b) := x.ratio
  let (c, d) := y.ratio
  ofRatio false (a * c) (b * d)

/-- Quotient of two magnitudes, rounded. -/
def dividedBy (x y : Binary64) : Binary64 :=
  let (a, b) := x.ratio
  let (c, d) := y.ratio
  ofRatio false (a * d) (b * c)

/-- `x / 10 ^ k`, in steps of at most `10 ^ 308`. -/
def dividedByPowerOfTen (x : Binary64) (k : Nat) : Binary64 :=
  if x.mantissa = 0 then x
  else if 308 < k then dividedByPowerOfTen (x.dividedBy (powerOfTen 308)) (k - 308)
  else x.dividedBy (powerOfTen k)
termination_by k
decreasing_by omega

def withSign (x : Binary64) (negative : Bool) : Binary64 :=
  if negative then ⟨x.bits ||| 0x8000000000000000⟩ else x

/-- `± significand · 10 ^ exponent` as a finite double, if it is not too large. -/
def ofScientific? (negative : Bool) (significand : Nat) (exponent : Int) : Option Binary64 :=
  let x := ofRatio false significand 1
  if x.mantissa = 0 then some (x.withSign negative)
  else if exponent < 0 then some ((x.dividedByPowerOfTen exponent.natAbs).withSign negative)
  else if 308 < exponent then none
  else
    let y := x.times (powerOfTen exponent.toNat)
    if y.isFinite then some (y.withSign negative) else none

/-- The double that the digits before and after a decimal point and an exponent of ten denote. -/
def ofDigits? (negative : Bool) (whole fraction : List Nat) (exponent : Int) : Option Binary64 :=
  let (n, droppedWhole) := absorb 0 whole
  let (m, droppedFraction) := absorb n fraction
  ofScientific? negative m
    (droppedWhole.length - (fraction.length - droppedFraction.length : Nat) + exponent)

end Binary64

end EntityStore
