import EntityStore.Sorting.Asking

/-!
# Sorting few elements

Up to twenty elements are inserted one by one.  Up to thirty-two of a longer list are sorted in two
halves, which start with a network for four or eight elements and are completed by insertion.  The
halves are merged from both ends at once, without a look at where the ends meet; only afterwards it
is checked that they did meet, and a sort whose answers belong to no order may panic there.

    left    front →     · · ·     ← back
    right   front →     · · · ·   ← back
-/

namespace EntityStore.Sorting

open Asking (before)

variable {α : Type}

/-! ## Insertion -/

/-- Inserts an element among elements that are sorted from last to first, behind the last that it
does not come before. -/
def insert (x : α) : List α → Asking α (List α)
  | [] => pure [x]
  | y :: rest => do
    if ← before x y then
      let rest ← insert x rest
      pure (y :: rest)
    else pure (x :: y :: rest)

/-- Inserts elements one after the other. -/
def insertAll : List α → List α → Asking α (List α)
  | done, [] => pure done
  | done, x :: xs => do
    let done ← insert x done
    insertAll done xs

def insertionSort (xs : List α) : Asking α (List α) := do
  let sorted ← insertAll [] xs
  pure sorted.reverse

/-! ## Merging from both ends -/

/-- What the two ways have not reached yet: forwards the parts without what was taken at the front,
backwards the parts from last to first without what was taken at the back.  The ways do not look at
each other, so each goes on through what the other one took. -/
structure Ends (α : Type) where
  left : List α
  right : List α
  leftBack : List α
  rightBack : List α

/-- Takes what comes first at the front. -/
def takeFront (ends : Ends α) : Asking α (α × Ends α) :=
  match ends.left, ends.right with
  | x :: left, y :: right => do
    if ← before y x then pure (y, { ends with right }) else pure (x, { ends with left })
  | _, _ => .broken

/-- Takes what comes last at the back. -/
def takeBack (ends : Ends α) : Asking α (α × Ends α) :=
  match ends.leftBack, ends.rightBack with
  | x :: leftBack, y :: rightBack => do
    if ← before y x then pure (x, { ends with leftBack }) else pure (y, { ends with rightBack })
  | _, _ => .broken

/-- What is left in the middle where both ways have taken half of the elements: nothing, or the
last element of an odd number.  Each part must have been used up. -/
def Ends.middle (ends : Ends α) (left right : Nat) : Asking α (List α) :=
  let unusedLeft := ends.left.length + ends.leftBack.length
  let unusedRight := ends.right.length + ends.rightBack.length
  if (left + right) % 2 = 0 then
    if unusedLeft = left ∧ unusedRight = right then pure [] else .broken
  else if left < unusedLeft then
    if unusedLeft = left + 1 ∧ unusedRight = right then pure (ends.left.take 1) else .broken
  else if unusedLeft = left ∧ unusedRight = right + 1 then pure (ends.right.take 1) else .broken

/-- Takes a number of elements at either end; `left` and `right` are the lengths of the parts. -/
def mergeEnds (left right : Nat) : Nat → Ends α → Asking α (List α)
  | 0, ends => ends.middle left right
  | n + 1, ends => do
    let (front, ends) ← takeFront ends
    let (back, ends) ← takeBack ends
    let inner ← mergeEnds left right n ends
    pure (front :: (inner ++ [back]))

/-- Merges two sorted parts, the second as long as the first or longer by one. -/
def mergeBoth (left right : List α) : Asking α (List α) :=
  mergeEnds left.length right.length left.length ⟨left, right, left.reverse, right.reverse⟩

/-! ## Networks -/

def sortTwo (x y : α) : Asking α (α × α) := do
  if ← before y x then pure (y, x) else pure (x, y)

/-- Merges two sorted pairs.  Two questions settle the first and the last, and a third one the order
of the other two. -/
def mergeTwos (a b c d : α) : Asking α (List α) := do
  let first ← before c a
  let last ← before d b
  let (lower, upper) ← match first, last with
    | false, false => sortTwo b c
    | false, true => sortTwo c d
    | true, false => sortTwo a b
    | true, true => sortTwo a d
  pure ((if first then c else a) :: ([lower, upper] ++ [if last then b else d]))

def sortFour : List α → Asking α (List α)
  | [w, x, y, z] => do
    let (a, b) ← sortTwo w x
    let (c, d) ← sortTwo y z
    mergeTwos a b c d
  | xs => pure xs

def sortEight (xs : List α) : Asking α (List α) := do
  let left ← sortFour (xs.take 4)
  let right ← sortFour (xs.drop 4)
  mergeBoth left right

/-! ## Two halves -/

/-- The length of the part of a half that is sorted by a network. -/
def networkLength (length : Nat) : Nat := if 16 ≤ length then 8 else if 8 ≤ length then 4 else 1

def network (xs : List α) : Asking α (List α) :=
  if xs.length = 8 then sortEight xs else if xs.length = 4 then sortFour xs else pure xs

def sortHalves (xs : List α) : Asking α (List α) := do
  if xs.length < 2 then return xs
  let left := xs.take (xs.length / 2)
  let right := xs.drop (xs.length / 2)
  let start := networkLength xs.length
  let leftStart ← network (left.take start)
  let rightStart ← network (right.take start)
  let leftSorted ← insertAll leftStart.reverse (left.drop start)
  let rightSorted ← insertAll rightStart.reverse (right.drop start)
  mergeBoth leftSorted.reverse rightSorted.reverse

end EntityStore.Sorting
