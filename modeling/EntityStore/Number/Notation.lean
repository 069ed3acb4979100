import EntityStore.Number.Numeral
import EntityStore.Number.Shortest

/-!
# Writing doubles

Which digits are written is settled by `Binary64.shortest`; a `FloatNotation` settles how they are
laid out.  Numbers whose leading digit has an exponent in `positional` are written out with all
their digits, the others as `d.ddd` with an exponent.
-/

namespace EntityStore

structure FloatNotation where
  tie : TieRule
  positional : Int → Bool
  /-- What follows the point of a whole number that is written out. -/
  wholeFraction : List Char

namespace FloatNotation

/-- Numbers shown to people: always written out, no point in a whole number. -/
def plain : FloatNotation := ⟨.up, fun _ => true, []⟩

/-- Numbers in a document: a whole number ends in `.0`, and an exponent stands below `10 ^ -5` and
from `10 ^ 16` on. -/
def document : FloatNotation := ⟨.toEven, fun e => -5 ≤ e && e ≤ 15, ['0']⟩

def zeros (n : Nat) : List Char := List.replicate n '0'

def positionalNumeral (style : FloatNotation) (negative : Bool) (d : Decimal) : Numeral :=
  let digits := Nat.toDigits 10 d.digits
  let places := (-d.exponent).toNat
  if 0 ≤ d.exponent then ⟨negative, digits ++ zeros d.exponent.toNat, style.wholeFraction, none⟩
  else if places < digits.length then
    ⟨negative, digits.take (digits.length - places), digits.drop (digits.length - places), none⟩
  else ⟨negative, ['0'], zeros (places - digits.length) ++ digits, none⟩

def scientificNumeral (negative : Bool) (d : Decimal) : Numeral :=
  let digits := Nat.toDigits 10 d.digits
  ⟨negative, digits.take 1, digits.drop 1, some d.leading⟩

/-- The numeral of a finite double. -/
def numeral (style : FloatNotation) (x : Binary64) : Numeral :=
  let d := x.shortest style.tie
  if style.positional d.leading then style.positionalNumeral x.isNegative d
  else scientificNumeral x.isNegative d

end FloatNotation

/-- A double as shown to people. -/
def Binary64.text (x : Binary64) : String :=
  if x.isNaN then "NaN"
  else if x.isFinite then String.ofList (FloatNotation.plain.numeral x).chars
  else if x.isNegative then "-inf" else "inf"

end EntityStore
