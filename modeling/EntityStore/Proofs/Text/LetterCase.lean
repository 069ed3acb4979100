import EntityStore.Text.LetterCase

/-!
# One name in two spellings

A name in snake case is a row of segments with underscores between them.  In camel case each segment
starts with a capital instead, and the snake case of that is the name again.

    c.isLower → decapitalize (capitalize (c :: cs)) = c :: cs            (decapitalize_capitalize)
    (∀ s ∈ segments name, IsSegment s) → snakeCase (lowerCamel name) = name  (snakeCase_lowerCamel)
-/

namespace EntityStore.Text

/-! ## Spellings -/

/-- The name with a capital at its start, if it starts with a small letter of the ASCII alphabet. -/
def capitalize : List Char → List Char
  | [] => []
  | c :: cs => c.toUpper :: cs

/-- What stands between the underscores of a name. -/
def segments (name : List Char) : List (List Char) := name.splitOn '_'

/-- A small letter, then small letters and digits, all of the ASCII alphabet. -/
def IsSegment (s : List Char) : Prop :=
  s.head?.any Char.isLower = true ∧ ∀ c ∈ s.tail, (c.isLower || c.isDigit) = true

instance (s : List Char) : Decidable (IsSegment s) :=
  @instDecidableAnd _ _ (inferInstanceAs (Decidable (_ = true))) (List.decidableBAll _ _)

/-- The segments of a name without the underscores, each with a capital at its start. -/
def upperCamel (name : List Char) : List Char := (segments name).flatMap capitalize

def lowerCamel (name : List Char) : List Char := decapitalize (upperCamel name)

/-! ## Letters -/

theorem toNat_lt_of_isSmall {c : Char} (h : (c.isLower || c.isDigit) = true) : c.toNat < 128 := by
  have hlower : c.isLower = (decide (c.val ≥ 'a'.val) && decide (c.val ≤ 'z'.val)) := rfl
  simp only [hlower, Char.isDigit, Bool.or_eq_true, Bool.and_eq_true, decide_eq_true_eq,
    UInt32.le_iff_toNat_le, ge_iff_le] at h
  have hz : 'z'.val.toNat = 122 := rfl
  have hnine : '9'.val.toNat = 57 := rfl
  have hc : c.toNat = c.val.toNat := rfl
  omega

theorem toUpper_of_isLower_all : ∀ n < 128, (Char.ofNat n).isLower = true →
    (Char.ofNat n).toUpper.isUpper = true ∧ (Char.ofNat n).toUpper.toNat < 128 ∧
      (Char.ofNat n).toUpper.toLower = Char.ofNat n := by
  decide

theorem isUpper_of_isSmall_all : ∀ n < 128,
    ((Char.ofNat n).isLower || (Char.ofNat n).isDigit) = true → (Char.ofNat n).isUpper = false := by
  decide

section
variable {c : Char}

theorem isUpper_of_isSmall (h : (c.isLower || c.isDigit) = true) : c.isUpper = false := by
  have hall := isUpper_of_isSmall_all c.toNat (toNat_lt_of_isSmall h)
  rw [Char.ofNat_toNat] at hall
  exact hall h

theorem isCapital_of_isSmall (h : (c.isLower || c.isDigit) = true) : isCapital c = false := by
  rw [isCapital, if_pos (toNat_lt_of_isSmall h)]
  exact isUpper_of_isSmall h

variable (h : c.isLower = true)
include h

theorem toUpper_of_isLower :
    c.toUpper.isUpper = true ∧ c.toUpper.toNat < 128 ∧ c.toUpper.toLower = c := by
  have hsmall : (c.isLower || c.isDigit) = true := by rw [h, Bool.true_or]
  have hall := toUpper_of_isLower_all c.toNat (toNat_lt_of_isSmall hsmall)
  rw [Char.ofNat_toNat] at hall
  exact hall h

theorem isCapital_toUpper : isCapital c.toUpper = true := by
  obtain ⟨hupper, hascii, -⟩ := toUpper_of_isLower h
  rw [isCapital, if_pos hascii]
  exact hupper

theorem lower_toUpper : lower c.toUpper = [c] := by
  obtain ⟨-, hascii, hlower⟩ := toUpper_of_isLower h
  rw [lower, if_pos hascii, hlower]

theorem decapitalize_capitalize (cs : List Char) :
    decapitalize (capitalize (c :: cs)) = c :: cs := by
  rw [capitalize, decapitalize, lower_toUpper h, List.singleton_append]

end

/-! ## Segments -/

theorem IsSegment.exists_cons {s : List Char} (h : IsSegment s) :
    ∃ c cs, s = c :: cs ∧ c.isLower = true ∧ ∀ d ∈ cs, (d.isLower || d.isDigit) = true := by
  obtain ⟨hhead, htail⟩ := h
  cases s with
  | nil => cases hhead
  | cons c cs => exact ⟨c, cs, rfl, hhead, htail⟩

/-- Characters that are no capitals stay as they are. -/
theorem flatMap_snakeChar {cs : List Char} (h : ∀ d ∈ cs, (d.isLower || d.isDigit) = true) :
    cs.flatMap snakeChar = cs := by
  induction cs with
  | nil => rfl
  | cons d cs ih =>
    rw [List.forall_mem_cons] at h
    rw [List.flatMap_cons, ih h.2, snakeChar, isCapital_of_isSmall h.1]
    rfl

theorem flatMap_snakeChar_capitalize {s : List Char} (h : IsSegment s) :
    (capitalize s).flatMap snakeChar = '_' :: s := by
  obtain ⟨c, cs, rfl, hc, hcs⟩ := h.exists_cons
  rw [capitalize, List.flatMap_cons, flatMap_snakeChar hcs, snakeChar, isCapital_toUpper hc,
    lower_toUpper hc]
  rfl

/-- Each further segment comes out with an underscore before it. -/
theorem flatMap_snakeChar_segments {ss : List (List Char)} (h : ∀ s ∈ ss, IsSegment s) :
    (ss.flatMap capitalize).flatMap snakeChar = ss.flatMap ('_' :: ·) := by
  rw [List.flatMap_assoc]
  induction ss with
  | nil => rfl
  | cons s ss ih =>
    rw [List.forall_mem_cons] at h
    rw [List.flatMap_cons, List.flatMap_cons, flatMap_snakeChar_capitalize h.1, ih h.2]

theorem intercalate_underscore (s : List Char) (ss : List (List Char)) :
    ['_'].intercalate (s :: ss) = s ++ ss.flatMap ('_' :: ·) := by
  induction ss generalizing s with
  | nil => rw [List.intercalate_singleton, List.flatMap_nil, List.append_nil]
  | cons t ss ih =>
    rw [List.intercalate_cons_cons, ih t, List.flatMap_cons, List.append_assoc]
    rfl

/-! ## Names -/

/-- A name in snake case, written in camel case, is brought back by taking the snake case. -/
theorem snakeCase_lowerCamel {name : List Char} (h : ∀ s ∈ segments name, IsSegment s) :
    snakeCase (lowerCamel name) = name := by
  have hname : ['_'].intercalate (segments name) = name := List.intercalate_splitOn '_'
  rw [lowerCamel, upperCamel]
  cases hsegments : segments name with
  | nil =>
    rw [hsegments] at hname
    exact hname
  | cons s ss =>
    rw [hsegments] at h hname
    obtain ⟨hs, hss⟩ := List.forall_mem_cons.1 h
    obtain ⟨c, cs, rfl, hc, hcs⟩ := hs.exists_cons
    have hfirst : isCapital c = false := isCapital_of_isSmall (by rw [hc, Bool.true_or])
    rw [List.flatMap_cons, capitalize, List.cons_append, decapitalize, lower_toUpper hc,
      List.singleton_append, snakeCase, hfirst, List.flatMap_append, flatMap_snakeChar hcs,
      flatMap_snakeChar_segments hss]
    rw [intercalate_underscore] at hname
    exact hname

end EntityStore.Text
