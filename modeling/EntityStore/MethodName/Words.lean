/-!
# Words of a camel case name

A name falls into words, each of which starts at a capital of the ASCII alphabet; what stands before
the first capital is a word too.

    (camelWords cs).flatten = cs                    (flatten_camelWords)
    w ∈ camelWords cs → w ≠ []                      (ne_nil_of_mem_camelWords)
-/

namespace EntityStore.MethodName

def camelWords : List Char → List (List Char)
  | [] => []
  | c :: cs =>
    match camelWords cs with
    | (d :: w) :: ws => if d.isUpper then [c] :: (d :: w) :: ws else (c :: d :: w) :: ws
    | ws => [c] :: ws

/-- The words of a name, as texts. -/
def words (name : List Char) : List String := (camelWords name).map String.ofList

theorem flatten_camelWords (cs : List Char) : (camelWords cs).flatten = cs := by
  induction cs with
  | nil => rfl
  | cons c cs ih =>
    rw [camelWords]
    split
    · next d w ws h =>
      rw [h] at ih
      split <;> simp_all
    · simp [ih]

theorem ne_nil_of_mem_camelWords {cs w : List Char} (h : w ∈ camelWords cs) : w ≠ [] := by
  induction cs generalizing w with
  | nil => simp [camelWords] at h
  | cons c cs ih =>
    rw [camelWords] at h
    split at h
    · next d v ws hv =>
      rw [hv] at ih
      split at h
      · rcases List.mem_cons.1 h with rfl | h
        · simp
        · exact ih h
      · rcases List.mem_cons.1 h with rfl | h
        · simp
        · exact ih (List.mem_cons_of_mem _ h)
    · rcases List.mem_cons.1 h with rfl | h
      · simp
      · exact ih h

end EntityStore.MethodName
