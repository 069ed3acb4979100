import EntityStore.Number.Numeral

/-!
# Whole numbers read back

The numeral of a whole number has no zero in front, so it is scanned as a whole, and scanning stops
right behind it wherever no character follows that could go on with a number.

    n ≠ 0 → (Nat.toDigits 10 n).head? ≠ some '0'                              (head?_toDigits)
    Ends rest → scan ((ofInt n).chars ++ rest) = some (ofInt n, rest)             (scan_ofInt)
-/

namespace EntityStore

/-! ## Digits -/

section
variable {ds rest : List Char} (hds : ∀ c ∈ ds, c.isDigit = true)
  (hrest : ∀ c ∈ rest.head?, c.isDigit = false)
include hds hrest

theorem takeWhile_isDigit_append : (ds ++ rest).takeWhile Char.isDigit = ds := by
  rw [List.takeWhile_append_of_pos hds]
  cases rest with
  | nil => exact List.append_nil ds
  | cons c rest =>
    rw [List.takeWhile_cons_of_neg (by rw [hrest c rfl]; decide), List.append_nil]

theorem dropWhile_isDigit_append : (ds ++ rest).dropWhile Char.isDigit = rest := by
  rw [List.dropWhile_append_of_pos hds]
  cases rest with
  | nil => rfl
  | cons c rest => rw [List.dropWhile_cons_of_neg (by rw [hrest c rfl]; decide)]

end

theorem isDigit_of_mem_toDigits {n : Nat} {c : Char} (h : c ∈ Nat.toDigits 10 n) :
    c.isDigit = true :=
  Nat.isDigit_of_mem_toDigits (by decide) (by decide) h

theorem exists_toDigits (n : Nat) : ∃ d ds, Nat.toDigits 10 n = d :: ds ∧ d.isDigit = true := by
  obtain ⟨d, ds, hds⟩ := List.exists_cons_of_ne_nil (Nat.toDigits_ne_nil (b := 10) (n := n))
  exact ⟨d, ds, hds, isDigit_of_mem_toDigits (hds ▸ List.mem_cons_self)⟩

theorem digitChar_ne_zero : ∀ n < 10, n ≠ 0 → n.digitChar ≠ '0' := by
  decide

/-- No number but zero is written with a zero in front. -/
theorem head?_toDigits {n : Nat} (h : n ≠ 0) : (Nat.toDigits 10 n).head? ≠ some '0' := by
  induction n using Nat.strongRecOn with
  | ind n ih =>
    by_cases hn : n < 10
    · rw [Nat.toDigits_of_lt_base hn, List.head?_cons, Ne, Option.some.injEq]
      exact digitChar_ne_zero n hn h
    · have hlead := ih (n / 10) (by omega) (by omega)
      obtain ⟨d, ds, hds, -⟩ := exists_toDigits (n / 10)
      rw [Nat.toDigits_of_base_le (by decide) (by omega), hds]
      rwa [hds] at hlead

namespace Numeral

/-! ## Scanning -/

/-- No numeral goes on with this text. -/
def Ends (rest : List Char) : Prop :=
  ∀ c ∈ rest.head?, c.isDigit = false ∧ c ≠ '.' ∧ c ≠ 'e' ∧ c ≠ 'E'

variable {rest : List Char}

theorem scanDigits_toDigits (n : Nat) (h : ∀ c ∈ rest.head?, c.isDigit = false) :
    scanDigits (Nat.toDigits 10 n ++ rest) = some (Nat.toDigits 10 n, rest) := by
  have hds : ∀ c ∈ Nat.toDigits 10 n, c.isDigit = true := fun _ => isDigit_of_mem_toDigits
  unfold scanDigits
  dsimp only
  rw [takeWhile_isDigit_append hds h, dropWhile_isDigit_append hds h, if_neg]
  rw [List.isEmpty_iff]
  exact Nat.toDigits_ne_nil

theorem scanFraction_of_ends (h : Ends rest) : scanFraction rest = some ([], rest) := by
  unfold scanFraction
  split
  · exact absurd rfl (h '.' rfl).2.1
  · rfl

theorem scanExponent_of_ends (h : Ends rest) : scanExponent rest = some (none, rest) := by
  unfold scanExponent
  split
  · exact absurd rfl (h 'e' rfl).2.2.1
  · exact absurd rfl (h 'E' rfl).2.2.2
  · rfl

theorem scanUnsigned_toDigits (negative : Bool) (n : Nat) (h : Ends rest) :
    scanUnsigned negative (Nat.toDigits 10 n ++ rest) =
      some (⟨negative, Nat.toDigits 10 n, [], none⟩, rest) := by
  have hzero : ¬ ((Nat.toDigits 10 n).head? = some '0' ∧ Nat.toDigits 10 n ≠ ['0']) := by
    rintro ⟨hhead, hne⟩
    have hn : n = 0 := Classical.byContradiction fun hn => head?_toDigits hn hhead
    rw [hn] at hne
    exact hne rfl
  simp [scanUnsigned, scanDigits_toDigits n fun c hc => (h c hc).1, hzero,
    scanFraction_of_ends h, scanExponent_of_ends h]

theorem scan_of_ne_minus {cs : List Char} (h : cs.head? ≠ some '-') :
    scan cs = scanUnsigned false cs := by
  unfold scan
  split
  · exact absurd rfl h
  · rfl

theorem chars_ofInt (n : Int) :
    (ofInt n).chars = (if n < 0 then ['-'] else []) ++ Nat.toDigits 10 n.natAbs := by
  simp [chars, ofInt]

/-- A numeral starts with its sign or with a digit. -/
theorem exists_chars_ofInt (n : Int) :
    ∃ c cs, (ofInt n).chars = c :: cs ∧ (c = '-' ∨ c.isDigit = true) := by
  rw [chars_ofInt]
  split
  · exact ⟨'-', _, rfl, .inl rfl⟩
  · obtain ⟨d, ds, hds, hd⟩ := exists_toDigits n.natAbs
    exact ⟨d, ds, hds, .inr hd⟩

theorem scan_ofInt (n : Int) (h : Ends rest) :
    scan ((ofInt n).chars ++ rest) = some (ofInt n, rest) := by
  by_cases hn : n < 0
  · have hchars : (ofInt n).chars ++ rest = '-' :: (Nat.toDigits 10 n.natAbs ++ rest) := by
      rw [chars_ofInt, if_pos hn]
      rfl
    rw [hchars, ofInt, decide_eq_true hn]
    exact scanUnsigned_toDigits true n.natAbs h
  · have hchars : (ofInt n).chars = Nat.toDigits 10 n.natAbs := by
      rw [chars_ofInt, if_neg hn]
      rfl
    have hplain : (Nat.toDigits 10 n.natAbs ++ rest).head? ≠ some '-' := by
      obtain ⟨d, ds, hds, hd⟩ := exists_toDigits n.natAbs
      rw [hds]
      rintro ⟨⟩
      exact absurd hd (by decide)
    rw [hchars, scan_of_ne_minus hplain, scanUnsigned_toDigits false n.natAbs h, ofInt,
      decide_eq_false hn]

end Numeral

end EntityStore
