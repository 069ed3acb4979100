import EntityStore.Json.Token
import EntityStore.Proofs.Number.Numeral
import Mathlib.Data.List.Chain

/-!
# Tokens read back

Tokens that are written one behind the other without blanks are found again, as long as no number
runs into what follows it.

    t.Readable → (t.isNumber = true → Numeral.Ends rest) →
      next? (t.chars ++ rest) = some (t, rest)                                     (next?_chars)
    (∀ t ∈ ts, t.Readable) → ts.IsChain Apart → tokens? (ts.flatMap chars) = some ts
                                                                              (tokens?_flatMap)
-/

namespace EntityStore.Json

namespace Token

/-- How a token is written. -/
def chars : Token → List Char
  | openBrace => ['{']
  | closeBrace => ['}']
  | openBracket => ['[']
  | closeBracket => [']']
  | comma => [',']
  | colon => [':']
  | null => ['n', 'u', 'l', 'l']
  | boolean b => if b then ['t', 'r', 'u', 'e'] else ['f', 'a', 'l', 's', 'e']
  | number n => n.chars
  | text s => quote (s.getD [])

def isNumber : Token → Bool
  | number _ => true
  | _ => false

def isPunctuation : Token → Bool
  | openBrace | closeBrace | openBracket | closeBracket | comma | colon => true
  | _ => false

/-- The token is a whole number if it is a number, and a text that can be used if it is a text. -/
def Readable : Token → Prop
  | number n => ∃ k, n = Numeral.ofInt k
  | text s => s.isSome = true
  | _ => True

/-- The second token does not go on with the first. -/
def Apart (t u : Token) : Prop := t.isNumber = true → u.isPunctuation = true

variable {t : Token} {ts : List Token} {rest : List Char}

/-! ## One token -/

theorem exists_chars (h : t.Readable) : ∃ c cs, t.chars = c :: cs ∧ isBlank c = false := by
  cases t with
  | boolean b => cases b <;> exact ⟨_, _, rfl, rfl⟩
  | number n =>
    obtain ⟨k, rfl⟩ := h
    obtain ⟨c, cs, hchars, hc⟩ := Numeral.exists_chars_ofInt k
    refine ⟨c, cs, hchars, ?_⟩
    rcases hc with rfl | hc
    · rfl
    · simp only [isBlank, Bool.or_eq_false_iff, decide_eq_false_iff_not]
      refine ⟨⟨⟨?_, ?_⟩, ?_⟩, ?_⟩ <;> (rintro rfl; exact absurd hc (by decide))
  | _ => exact ⟨_, _, rfl, rfl⟩

/-- No text, word or punctuation starts as a number does. -/
theorem ne_of_number_front {c : Char} (h : c = '-' ∨ c.isDigit = true) :
    c ≠ '"' ∧ c ≠ 'n' ∧ c ≠ 't' ∧ c ≠ 'f' ∧ punctuation? c = none := by
  rcases h with rfl | h
  · decide
  · refine ⟨?_, ?_, ?_, ?_, ?_⟩
    iterate 4 (rintro rfl; exact absurd h (by decide))
    unfold punctuation?
    split
    iterate 6 (exact absurd h (by decide))
    rfl

theorem next?_number {c : Char} (h : c = '-' ∨ c.isDigit = true) :
    next? (c :: rest) = (Numeral.scan (c :: rest)).map fun (n, rest) => (number n, rest) := by
  obtain ⟨hquote, hn, ht, hf, hpunctuation⟩ := ne_of_number_front h
  rw [next?]
  · simp only [hpunctuation]
  · exact hquote
  · rintro _ rfl
    exact absurd rfl hn
  · rintro _ rfl
    exact absurd rfl ht
  · rintro _ rfl
    exact absurd rfl hf

theorem next?_chars (h : t.Readable) (hrest : t.isNumber = true → Numeral.Ends rest) :
    next? (t.chars ++ rest) = some (t, rest) := by
  cases t with
  | boolean b => cases b <;> rfl
  | number n =>
    obtain ⟨k, rfl⟩ := h
    obtain ⟨c, cs, hchars, hc⟩ := Numeral.exists_chars_ofInt k
    have hscan := Numeral.scan_ofInt k (hrest rfl)
    show next? ((Numeral.ofInt k).chars ++ rest) = _
    rw [hchars] at hscan ⊢
    rw [List.cons_append, next?_number hc, ← List.cons_append, hscan]
    rfl
  | text s =>
    obtain ⟨cs, rfl⟩ := Option.isSome_iff_exists.1 h
    have hchars : chars (text (some cs)) ++ rest = '"' :: (quotedBody cs ++ '"' :: rest) := by
      simp [chars, quote]
    rw [hchars]
    show (unquote (quotedBody cs ++ '"' :: rest)).map _ = _
    rw [unquote_quotedBody]
    rfl
  | _ => rfl

theorem ends_of_isPunctuation (h : t.isPunctuation = true) : Numeral.Ends (t.chars ++ rest) := by
  cases t with
  | null | boolean | number | text => cases h
  | _ =>
    rintro c ⟨⟩
    decide

/-! ## All tokens -/

theorem scan_of_next? {fuel : Nat} {c : Char} {cs : List Char} (hc : isBlank c = false)
    (h : next? (c :: cs) = some (t, rest)) :
    scan (fuel + 1) (c :: cs) = (scan fuel rest).map (t :: ·) := by
  have hfront : (c :: cs).dropWhile isBlank = c :: cs :=
    List.dropWhile_cons_of_neg (by rw [hc]; decide)
  rw [scan.eq_def]
  simp only [hfront, h]

theorem scan_flatMap (hread : ∀ t ∈ ts, t.Readable) (hapart : ts.IsChain Apart) {fuel : Nat}
    (hfuel : ts.length ≤ fuel) : scan fuel (ts.flatMap chars) = some ts := by
  induction ts generalizing fuel with
  | nil => cases fuel <;> rfl
  | cons t ts ih =>
    rw [List.forall_mem_cons] at hread
    obtain ⟨c, cs, hchars, hc⟩ := exists_chars hread.1
    have hends : t.isNumber = true → Numeral.Ends (ts.flatMap chars) := by
      intro ht
      cases ts with
      | nil => exact nofun
      | cons u us => exact ends_of_isPunctuation ((List.isChain_cons_cons.1 hapart).1 ht)
    have hnext := next?_chars hread.1 hends
    cases fuel with
    | zero => cases hfuel
    | succ fuel =>
      have hrest := ih hread.2 hapart.tail (Nat.le_of_succ_le_succ hfuel)
      rw [List.flatMap_cons]
      rw [hchars, List.cons_append] at hnext ⊢
      rw [scan_of_next? hc hnext, hrest]
      rfl

theorem length_le_length_flatMap (hread : ∀ t ∈ ts, t.Readable) :
    ts.length ≤ (ts.flatMap chars).length := by
  induction ts with
  | nil => exact Nat.le_refl 0
  | cons t ts ih =>
    rw [List.forall_mem_cons] at hread
    obtain ⟨c, cs, hchars, -⟩ := exists_chars hread.1
    have hrest := ih hread.2
    rw [List.flatMap_cons, hchars, List.length_append, List.length_cons, List.length_cons]
    omega

end Token

theorem tokens?_flatMap {ts : List Token} (hread : ∀ t ∈ ts, t.Readable)
    (hapart : ts.IsChain Token.Apart) : tokens? (ts.flatMap Token.chars) = some ts :=
  Token.scan_flatMap hread hapart (Token.length_le_length_flatMap hread)

end EntityStore.Json
