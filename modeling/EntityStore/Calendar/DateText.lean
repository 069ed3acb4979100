import EntityStore.Calendar.Date
import EntityStore.Text.Blank

/-!
# Dates as text

A date is written `YYYY-MM-DD`; a year outside `0 … 9999` carries its sign.  Reading is more
tolerant: white space may stand around each part, month and day may have one digit, and a signed
year may have any number of digits, an unsigned one at most four.
-/

namespace EntityStore

namespace Date

/-! ## Writing -/

/-- Decimal digits of `n`, with zeros in front up to `width`. -/
def padded (width n : Nat) : List Char :=
  let digits := Nat.toDigits 10 n
  List.replicate (width - digits.length) '0' ++ digits

def yearChars (year : Int) : List Char :=
  if 0 ≤ year ∧ year ≤ 9999 then padded 4 year.natAbs
  else (if year < 0 then '-' else '+') :: padded 4 year.natAbs

def chars (d : Date) : List Char :=
  yearChars d.year ++ '-' :: padded 2 d.month ++ '-' :: padded 2 d.day

def text (d : Date) : String := String.ofList d.chars

/-! ## Reading -/

/-- The number that the digits at the front denote, at most `width` of them, and the rest. -/
def readNumber (width : Nat) (cs : List Char) : Option (Nat × List Char) :=
  let digits := (cs.takeWhile Char.isDigit).take width
  if digits.isEmpty then none else some (Nat.ofDigitChars 10 digits 0, cs.drop digits.length)

def readYear : List Char → Option (Int × List Char)
  | '-' :: cs => (readNumber cs.length cs).map fun (n, rest) => (-n, rest)
  | '+' :: cs => (readNumber cs.length cs).map fun (n, rest) => (n, rest)
  | cs => (readNumber 4 cs).map fun (n, rest) => (n, rest)

def readDash : List Char → Option (List Char)
  | '-' :: cs => some cs
  | _ => none

def ofChars? (cs : List Char) : Option Date := do
  let (year, cs) ← readYear (Text.dropBlanks cs)
  let cs ← readDash (Text.dropBlanks cs)
  let (month, cs) ← readNumber 2 (Text.dropBlanks cs)
  let cs ← readDash (Text.dropBlanks cs)
  let (day, cs) ← readNumber 2 (Text.dropBlanks cs)
  if (Text.dropBlanks cs).isEmpty then ofParts? year month day else none

def ofText? (s : String) : Option Date := ofChars? s.toList

end Date

end EntityStore
