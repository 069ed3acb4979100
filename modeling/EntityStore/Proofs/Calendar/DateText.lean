import EntityStore.Calendar.DateText
import EntityStore.Proofs.Number.Numeral
import Mathlib.Algebra.Group.Nat.Defs

/-!
# Dates read back

The parts of a date are digits up to a sign, a dash or the end, so reading takes each part as it was
written, however many digits its year has.

    (∀ c ∈ rest.head?, c.isDigit = false) → (padded width n).length ≤ bound →
      readNumber bound (padded width n ++ rest) = some (n, rest)              (readNumber_padded)
    (∀ c ∈ rest.head?, c.isDigit = false) →
      readYear (yearChars year ++ rest) = some (year, rest)                  (readYear_yearChars)
    ofChars? d.chars = some d                                                    (ofChars?_chars)
-/

namespace EntityStore

namespace Text

theorem isBlank_of_isDigit {c : Char} (h : c.isDigit = true) : isBlank c = false := by
  have hrange : 48 ≤ c.toNat ∧ c.toNat ≤ 57 := Char.isDigit_iff_toNat.1 h
  simp only [isBlank, blankRanges, List.any_cons, List.any_nil, Bool.or_false, Bool.or_eq_false_iff,
    Bool.and_eq_false_iff, decide_eq_false_iff_not]
  omega

theorem dropBlanks_of_head? {cs : List Char} (h : ∀ c ∈ cs.head?, isBlank c = false) :
    dropBlanks cs = cs := by
  cases cs with
  | nil => rfl
  | cons c cs => exact List.dropWhile_cons_of_neg (by rw [h c rfl]; decide)

end Text

namespace Date

variable {width bound n : Nat} {rest : List Char}

/-! ## Padded numbers -/

theorem isDigit_of_mem_padded {c : Char} (h : c ∈ padded width n) : c.isDigit = true := by
  rcases List.mem_append.1 h with h | h
  · rw [List.eq_of_mem_replicate h]
    rfl
  · exact isDigit_of_mem_toDigits h

theorem exists_padded (width n : Nat) : ∃ d ds, padded width n = d :: ds ∧ d.isDigit = true := by
  have hne : padded width n ≠ [] := List.append_ne_nil_of_right_ne_nil _ Nat.toDigits_ne_nil
  obtain ⟨d, ds, hds⟩ := List.exists_cons_of_ne_nil hne
  exact ⟨d, ds, hds, isDigit_of_mem_padded (hds ▸ List.mem_cons_self)⟩

theorem length_padded (hwidth : 0 < width) (hn : n < 10 ^ width) :
    (padded width n).length = width := by
  have hlength := (Nat.length_toDigits_le_iff (by decide) hwidth).2 hn
  rw [padded, List.length_append, List.length_replicate]
  omega

theorem ofDigitChars_padded (width n : Nat) : Nat.ofDigitChars 10 (padded width n) 0 = n := by
  rw [padded, Nat.ofDigitChars_append, Nat.ofDigitChars_replicate_zero, Nat.mul_zero,
    Nat.ofDigitChars_toDigits (by decide) (by decide)]

theorem dropBlanks_padded (width n : Nat) (rest : List Char) :
    Text.dropBlanks (padded width n ++ rest) = padded width n ++ rest := by
  refine Text.dropBlanks_of_head? ?_
  obtain ⟨d, ds, hds, hd⟩ := exists_padded width n
  rw [hds]
  rintro _ ⟨⟩
  exact Text.isBlank_of_isDigit hd

/-! ## Reading the parts -/

theorem readYear_padded (n : Nat) (rest : List Char) :
    readYear (padded width n ++ rest) =
      (readNumber 4 (padded width n ++ rest)).map fun (n, rest) => (n, rest) := by
  obtain ⟨d, ds, hds, hd⟩ := exists_padded width n
  rw [hds, List.cons_append, readYear]
  · rintro _ ⟨⟩
    exact absurd hd (by decide)
  · rintro _ ⟨⟩
    exact absurd hd (by decide)

section
variable (hrest : ∀ c ∈ rest.head?, c.isDigit = false)
include hrest

theorem readNumber_padded (hbound : (padded width n).length ≤ bound) :
    readNumber bound (padded width n ++ rest) = some (n, rest) := by
  have hdigits : ((padded width n ++ rest).takeWhile Char.isDigit).take bound = padded width n := by
    rw [takeWhile_isDigit_append (fun _ => isDigit_of_mem_padded) hrest]
    exact List.take_of_length_le hbound
  have hne : (padded width n).isEmpty = false := by
    obtain ⟨d, ds, hds, -⟩ := exists_padded width n
    rw [hds]
    rfl
  rw [readNumber, hdigits, hne, ofDigitChars_padded, List.drop_left]
  rfl

theorem readNumber_part (h : n ≤ 31) : readNumber 2 (padded 2 n ++ rest) = some (n, rest) :=
  readNumber_padded hrest (Nat.le_of_eq (length_padded (by decide) (by omega)))

theorem readYear_yearChars (year : Int) :
    readYear (yearChars year ++ rest) = some (year, rest) := by
  have hlength : (padded 4 year.natAbs).length ≤ (padded 4 year.natAbs ++ rest).length := by
    rw [List.length_append]
    omega
  unfold yearChars
  split
  · next hplain =>
    have hfour : (padded 4 year.natAbs).length = 4 := length_padded (by decide) (by omega)
    have hyear : (year.natAbs : Int) = year := by omega
    rw [readYear_padded, readNumber_padded hrest (Nat.le_of_eq hfour)]
    exact congrArg (fun y => some (y, rest)) hyear
  · split
    · next hneg =>
      have hyear : -(year.natAbs : Int) = year := by omega
      rw [List.cons_append, readYear, readNumber_padded hrest hlength]
      exact congrArg (fun y => some (y, rest)) hyear
    · next hneg =>
      have hyear : (year.natAbs : Int) = year := by omega
      rw [List.cons_append, readYear, readNumber_padded hrest hlength]
      exact congrArg (fun y => some (y, rest)) hyear

end

/-! ## Reading the whole -/

theorem dropBlanks_yearChars (year : Int) (rest : List Char) :
    Text.dropBlanks (yearChars year ++ rest) = yearChars year ++ rest := by
  unfold yearChars
  split
  · exact dropBlanks_padded 4 year.natAbs rest
  · split <;> rfl

theorem readDash_dash (cs : List Char) : readDash (Text.dropBlanks ('-' :: cs)) = some cs := rfl

theorem ofChars?_chars (d : Date) : ofChars? d.chars = some d := by
  have hchars : d.chars =
      yearChars d.year ++ '-' :: (padded 2 d.month ++ '-' :: (padded 2 d.day ++ [])) := by
    simp [chars]
  have hdash (cs : List Char) : ∀ c ∈ ('-' :: cs).head?, c.isDigit = false := by
    rintro _ ⟨⟩
    rfl
  have hmonth : d.month ≤ 31 := Nat.le_trans d.month_le (by decide)
  have hday : readNumber 2 (padded 2 d.day ++ []) = some (d.day, []) :=
    readNumber_part nofun d.day_le
  rw [hchars, ofChars?, dropBlanks_yearChars, readYear_yearChars (hdash _)]
  simp only [Option.bind_eq_bind, Option.bind_some, readDash_dash, dropBlanks_padded,
    readNumber_part (hdash _) hmonth, hday]
  exact ofParts?_self d

end Date

end EntityStore
