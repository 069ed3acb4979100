import EntityStore.Number.Reading

/-!
# Numerals

The parts of a decimal numeral: sign, digits before and after the point, and an exponent of ten.
A numeral keeps how a number is written, so `1`, `1.0` and `1e0` are three numerals.

    (ofInt n).toInt? = some n                             (toInt?_ofInt)
-/

namespace EntityStore

structure Numeral where
  negative : Bool
  /-- Digits before the point. -/
  whole : List Char
  /-- Digits after the point; none where there is no point. -/
  fraction : List Char
  exponent : Option Int
deriving DecidableEq, Inhabited

namespace Numeral

/-! ## Writing -/

def exponentChars (e : Int) : List Char :=
  'e' :: (if e < 0 then '-' else '+') :: Nat.toDigits 10 e.natAbs

def chars (n : Numeral) : List Char :=
  (if n.negative then ['-'] else []) ++ n.whole
    ++ (if n.fraction.isEmpty then [] else '.' :: n.fraction)
    ++ (match n.exponent with | some e => exponentChars e | none => [])

/-- The numeral of a whole number. -/
def ofInt (n : Int) : Numeral := ⟨decide (n < 0), Nat.toDigits 10 n.natAbs, [], none⟩

/-! ## Reading -/

/-- The digits at the front, at least one, and what follows. -/
def scanDigits (cs : List Char) : Option (List Char × List Char) :=
  let digits := cs.takeWhile Char.isDigit
  if digits.isEmpty then none else some (digits, cs.dropWhile Char.isDigit)

def scanFraction : List Char → Option (List Char × List Char)
  | '.' :: cs => scanDigits cs
  | cs => some ([], cs)

def scanSignedDigits : List Char → Option (Int × List Char)
  | '-' :: cs => (scanDigits cs).map fun (ds, rest) => (-(Nat.ofDigitChars 10 ds 0 : Int), rest)
  | '+' :: cs => (scanDigits cs).map fun (ds, rest) => ((Nat.ofDigitChars 10 ds 0 : Int), rest)
  | cs => (scanDigits cs).map fun (ds, rest) => ((Nat.ofDigitChars 10 ds 0 : Int), rest)

def scanExponent : List Char → Option (Option Int × List Char)
  | 'e' :: cs => (scanSignedDigits cs).map fun (e, rest) => (some e, rest)
  | 'E' :: cs => (scanSignedDigits cs).map fun (e, rest) => (some e, rest)
  | cs => some (none, cs)

def scanUnsigned (negative : Bool) (cs : List Char) : Option (Numeral × List Char) := do
  let (whole, cs) ← scanDigits cs
  if whole.head? = some '0' ∧ whole ≠ ['0'] then none
  let (fraction, cs) ← scanFraction cs
  let (exponent, cs) ← scanExponent cs
  pure (⟨negative, whole, fraction, exponent⟩, cs)

/-- The numeral at the front, and what follows.  Digits must stand on both sides of a point, and
a zero does not lead other digits. -/
def scan : List Char → Option (Numeral × List Char)
  | '-' :: cs => scanUnsigned true cs
  | cs => scanUnsigned false cs

/-! ## Value -/

/-- The whole number that a numeral without point and exponent denotes.  `-0` is not one. -/
def toInt? (n : Numeral) : Option Int :=
  if n.fraction = [] ∧ n.exponent = none then
    let magnitude := Nat.ofDigitChars 10 n.whole 0
    if n.negative then (if magnitude = 0 then none else some (-magnitude)) else some magnitude
  else none

def digitValues (cs : List Char) : List Nat := cs.map fun c => c.toNat - '0'.toNat

/-- The double that the numeral denotes, unless it is too large for one. -/
def toBinary64? (n : Numeral) : Option Binary64 :=
  Binary64.ofDigits? n.negative (digitValues n.whole) (digitValues n.fraction)
    (n.exponent.getD 0)

/-! ## Lemmas -/

theorem toInt?_ofInt (n : Int) : (ofInt n).toInt? = some n := by
  have h : Nat.ofDigitChars 10 (Nat.toDigits 10 n.natAbs) 0 = n.natAbs :=
    Nat.ofDigitChars_toDigits (by decide) (by decide)
  simp only [toInt?, ofInt, h, and_self, if_true, decide_eq_true_eq]
  split
  · rw [if_neg (by omega)]; congr 1; omega
  · congr 1; omega

end Numeral

end EntityStore
