import EntityStore.Number.Binary64

/-!
# The fewest decimal digits that identify a double

The reals that round to a finite double form an interval around it: it reaches half way to each
neighbour, and holds its ends exactly when the mantissa is even (`Binary64.readsBack`).  On the
decimal grid of `n` digits the candidates are the two neighbours of the value; the first grid
with a candidate in the interval gives the digits, the nearer of two candidates wins, and an
exact tie is left to the caller.
-/

namespace EntityStore

/-- The number `digits · 10 ^ exponent`. -/
structure Decimal where
  digits : Nat
  exponent : Int
deriving DecidableEq, Inhabited

/-- Which of two equally near candidates is taken. -/
inductive TieRule
  | toEven
  | up
deriving DecidableEq

namespace Decimal

def length (d : Decimal) : Nat := (Nat.toDigits 10 d.digits).length

/-- The exponent of the leading digit. -/
def leading (d : Decimal) : Int := d.exponent + d.length - 1

/-- Drops zeros at the end of the digits, at most `fuel` of them. -/
def stripZeros : Nat → Decimal → Decimal
  | 0, d => d
  | fuel + 1, d =>
    if d.digits ≠ 0 ∧ d.digits % 10 = 0 then stripZeros fuel ⟨d.digits / 10, d.exponent + 1⟩ else d

end Decimal

namespace Binary64

/-! ## Comparing a decimal with a double

Magnitudes are compared as `quarters · 2 ^ (exponent - 2)`, so that half way to a neighbour is a
whole number of quarters. -/

/-- Both sides of `decimal ⋚ quarters · 2 ^ (exponent - 2)`, as natural numbers. -/
def sides (d : Decimal) (quarters : Nat) (exponent : Int) : Nat × Nat :=
  let shift := exponent - 2
  ((d.digits * Nat.pow 10 d.exponent.toNat) <<< (-shift).toNat,
   (quarters * Nat.pow 10 (-d.exponent).toNat) <<< shift.toNat)

/-- The neighbour below is half as far away at a power of two. -/
def lowerQuarters (x : Binary64) : Nat :=
  if x.fraction = 0 ∧ 1 < x.exponentField then 4 * x.mantissa - 1 else 4 * x.mantissa - 2

def upperQuarters (x : Binary64) : Nat := 4 * x.mantissa + 2

/-- The decimal rounds to the magnitude of `x`. -/
def readsBack (x : Binary64) (d : Decimal) : Bool :=
  let (l, lower) := sides d x.lowerQuarters x.exponent
  let (u, upper) := sides d x.upperQuarters x.exponent
  if x.mantissa % 2 = 0 then lower ≤ l && u ≤ upper else lower < l && u < upper

/-! ## Search -/

/-- The number of digits before the decimal point, or minus the number of zeros right after it. -/
def pointPosition (x : Binary64) : Int :=
  let (num, den) := x.ratio
  if den ≤ num then (Nat.toDigits 10 (num / den)).length
  else 1 - ((Nat.toDigits 10 ((den - 1) / num)).length : Int)

/-- The neighbour of `x` below it on the grid of step `10 ^ step`. -/
def below (x : Binary64) (step : Int) : Decimal :=
  let (num, den) := x.ratio
  ⟨num * Nat.pow 10 (-step).toNat / (den * Nat.pow 10 step.toNat), step⟩

/-- The nearer of `d` and its successor on its grid. -/
def nearer (tie : TieRule) (x : Binary64) (d : Decimal) : Decimal :=
  let next : Decimal := ⟨d.digits + 1, d.exponent⟩
  let (twice, sum) := sides ⟨2 * d.digits + 1, d.exponent⟩ (8 * x.mantissa) x.exponent
  if sum < twice then d
  else if twice < sum then next
  else match tie with
    | .up => next
    | .toEven => if d.digits % 2 = 0 then d else next

/-- The candidate of the grid of step `10 ^ step` that is taken, if one reads back. -/
def candidate (tie : TieRule) (x : Binary64) (step : Int) : Option Decimal :=
  let d := x.below step
  let next : Decimal := ⟨d.digits + 1, d.exponent⟩
  match x.readsBack d, x.readsBack next with
  | true, true => some (x.nearer tie d)
  | true, false => some d
  | false, true => some next
  | false, false => none

/-- The first candidate on the grids of `count`, `count - 1`, … steps ending at `step`; the exact
value where there is none. -/
def search (tie : TieRule) (x : Binary64) : Nat → Int → Decimal
  | 0, _ =>
    let step := min x.exponent 0
    x.below step
  | count + 1, step => 
    match candidate tie x step with
    | some d => d
    | none => search tie x count (step - 1)

/-- The fewest digits that identify the magnitude of a finite `x`. -/
def shortest (tie : TieRule) (x : Binary64) : Decimal :=
  if x.mantissa = 0 then ⟨0, 0⟩
  else (x.search tie 17 (x.pointPosition - 1)).stripZeros 17

end Binary64

end EntityStore
