import EntityStore.Sorting.SmallSort

/-!
# Sorting many elements

A longer list is taken as a row of runs.  A run that is there already is kept if it is long enough;
otherwise a short run is sorted at once, or, in a longer list, elements are only set aside to be
sorted by quicksort later.  Runs are merged in an order that keeps the tree of merges balanced.
Quicksort itself goes back to sorted runs where its pivots turn out badly too often.
-/

namespace EntityStore.Sorting

open Asking (before)

variable {α : Type}

/-- Up to here a list is sorted by insertion alone. -/
def insertionLimit : Nat := 20

/-- Up to here a list is sorted in two halves. -/
def halvesLimit : Nat := 32

/-! ## Merging -/

/-- Merges from the front. -/
def mergeFront : List α → List α → Asking α (List α)
  | [], ys => pure ys
  | x :: xs, [] => pure (x :: xs)
  | x :: xs, y :: ys => do
    if ← before y x then
      let rest ← mergeFront (x :: xs) ys
      pure (y :: rest)
    else
      let rest ← mergeFront xs (y :: ys)
      pure (x :: rest)
termination_by xs ys => xs.length + ys.length

/-- Merges from the back: both parts and the result stand from last to first. -/
def mergeBack : List α → List α → Asking α (List α)
  | [], ys => pure ys
  | x :: xs, [] => pure (x :: xs)
  | x :: xs, y :: ys => do
    if ← before y x then
      let rest ← mergeBack xs (y :: ys)
      pure (x :: rest)
    else
      let rest ← mergeBack (x :: xs) ys
      pure (y :: rest)
termination_by xs ys => xs.length + ys.length

/-- Merges two sorted parts; the shorter one is the one that is set aside meanwhile. -/
def merge (xs ys : List α) : Asking α (List α) :=
  if xs.length ≤ ys.length then mergeFront xs ys
  else do
    let merged ← mergeBack xs.reverse ys.reverse
    pure merged.reverse

/-! ## Pivots -/

/-- The place of the middle one of three elements. -/
def medianOfThree (xs : List α) (i j k : Nat) : Asking α Nat :=
  match xs[i]?, xs[j]?, xs[k]? with
  | some a, some b, some c => do
    let ab ← before a b
    let ac ← before a c
    if ab = ac then
      let bc ← before b c
      pure (if bc = ab then j else k)
    else pure i
  | _, _, _ => pure i

/-- The middle one of three elements, each of which is, where `n` places from it on are enough for
that, a middle one itself. -/
def medianOfMedians (xs : List α) (i j k n : Nat) : Asking α Nat :=
  if n < 8 then medianOfThree xs i j k
  else do
    let i ← medianOfMedians xs i (i + n / 8 * 4) (i + n / 8 * 7) (n / 8)
    let j ← medianOfMedians xs j (j + n / 8 * 4) (j + n / 8 * 7) (n / 8)
    let k ← medianOfMedians xs k (k + n / 8 * 4) (k + n / 8 * 7) (n / 8)
    medianOfThree xs i j k
termination_by n

def choosePivot (xs : List α) : Asking α Nat :=
  medianOfMedians xs 0 (xs.length / 8 * 4) (xs.length / 8 * 7) (xs.length / 8)

/-! ## Partition -/

/-- Parts elements by a question about each, in order. -/
def sift (question : α → Asking α Bool) : List α → Asking α (List α × List α)
  | [] => pure ([], [])
  | x :: xs => do
    let yes ← question x
    let (left, right) ← sift question xs
    pure (if yes then (x :: left, right) else (left, x :: right))

/-- What comes before the pivot, and the rest with the pivot itself. -/
def partitionBefore (prior : List α) (pivot : α) (later : List α) :
    Asking α (List α × List α) := do
  let (left, right) ← sift (fun x => before x pivot) prior
  let (left', right') ← sift (fun x => before x pivot) later
  pure (left ++ left', right ++ pivot :: right')

/-- What does not come after the pivot, with the pivot itself, and the rest. -/
def partitionUpTo (prior : List α) (pivot : α) (later : List α) :
    Asking α (List α × List α) := do
  let upTo x := do
    let after ← before pivot x
    pure !after
  let (left, right) ← sift upTo prior
  let (left', right') ← sift upTo later
  pure (left ++ pivot :: left', right ++ right')

/-! ## Runs -/

/-- Neighbours that are sorted, or are to be. -/
structure Run (α : Type) where
  elements : List α
  sorted : Bool

/-- How many more elements go on in the direction in which a run goes. -/
def runRest (descending : Bool) : α → List α → Asking α Nat
  | _, [] => pure 0
  | x, y :: ys => do
    let comesBefore ← before y x
    if comesBefore = descending then
      let n ← runRest descending y ys
      pure (n + 1)
    else pure 0

/-- The length of the run at the front of a list, and whether it is strictly descending. -/
def frontRun : List α → Asking α (Nat × Bool)
  | x :: y :: ys => do
    let descending ← before y x
    let n ← runRest descending y ys
    pure (n + 2, descending)
  | xs => pure (xs.length, false)

/-- Where no run is long enough, one is made: in eager mode it is sorted. -/
def makeRun (eager : Bool) (goodLength : Nat) (xs : List α) : Asking α (Run α × List α) :=
  if eager then do
    let sorted ← sortHalves (xs.take halvesLimit)
    pure (⟨sorted, true⟩, xs.drop halvesLimit)
  else pure (⟨xs.take goodLength, false⟩, xs.drop goodLength)

/-- The next run and what is left behind it. -/
def nextRun (eager : Bool) (goodLength : Nat) (xs : List α) : Asking α (Run α × List α) := do
  if xs.length < goodLength then makeRun eager goodLength xs
  else
    let (n, descending) ← frontRun xs
    if n < goodLength then makeRun eager goodLength xs
    else
      let front := xs.take n
      pure (⟨if descending then front.reverse else front, true⟩, xs.drop n)

/-- From which length on a run that is there already is worth to be kept. -/
def goodRunLength (length : Nat) : Nat :=
  if length ≤ 64 * 64 then min (length - length / 2) 64
  else
    -- The square root, approximated from the logarithm by one step of Newton's method.
    let shift := (1 + length.log2) / 2
    ((1 <<< shift) + (length >>> shift)) / 2

/-- How many elements can be set aside while a list of a length is sorted. -/
def scratchLength (length : Nat) : Nat := max 256 (max (length - length / 2) (min length 500000))

section Merging

variable (quicksort : List α → Asking α (List α))

def Run.sort (run : Run α) : Asking α (List α) :=
  if run.sorted then pure run.elements else quicksort run.elements

/-- Runs that are not sorted are only put together, as long as there is space to sort them later. -/
def Run.append (scratch : Nat) (left right : Run α) : Asking α (Run α) :=
  if scratch < left.elements.length + right.elements.length ∨ left.sorted ∨ right.sorted then do
    let xs ← left.sort quicksort
    let ys ← right.sort quicksort
    let merged ← merge xs ys
    pure ⟨merged, true⟩
  else pure ⟨left.elements ++ right.elements, false⟩

def leadingZeros (n : Nat) : Nat := if n = 0 then 64 else 63 - n.log2

/-- How deep in the tree of merges the place between two neighbouring runs belongs, which start at
`left` and `middle`; the second one ends at `right`. -/
def mergeDepth (length left middle right : Nat) : Nat :=
  let scale := ((1 <<< 62) + length - 1) / length
  leadingZeros ((scale * (left + middle)) ^^^ (scale * (middle + right)))

/-- Merges a run with those before it that belong as deep in the tree of merges. -/
def collapse (scratch depth : Nat) :
    List (Run α × Nat) → Run α → Asking α (List (Run α × Nat) × Run α)
  | [], run => pure ([], run)
  | (left, d) :: rest, run =>
    if depth ≤ d then do
      let merged ← left.append quicksort scratch run
      collapse scratch depth rest merged
    else pure ((left, d) :: rest, run)

/-- Goes through the runs.  The ones that wait to be merged are held from last to first, each with
the depth of the place behind it; `run` is the last one of all and ends at `scanned`. -/
def mergeRuns (eager : Bool) (length : Nat) :
    Nat → List (Run α × Nat) → Run α → Nat → List α → Asking α (Run α)
  | 0, _, run, _, _ => pure run
  | fuel + 1, waiting, run, scanned, rest =>
    if rest.isEmpty then do
      let (_, run) ← collapse quicksort (scratchLength length) 0 waiting run
      pure run
    else do
      let (next, rest) ← nextRun eager (goodRunLength length) rest
      let stop := scanned + next.elements.length
      let depth := mergeDepth length (scanned - run.elements.length) scanned stop
      let (waiting, run) ← collapse quicksort (scratchLength length) depth waiting run
      mergeRuns eager length fuel ((run, depth) :: waiting) next stop rest

/-- Each run has an element, so as many runs as there are elements are enough. -/
def driftsort (eager : Bool) (xs : List α) : Asking α (List α) := do
  let (first, rest) ← nextRun eager (goodRunLength xs.length) xs
  let run ← mergeRuns quicksort eager xs.length xs.length [] first first.elements.length rest
  run.sort quicksort

end Merging

/-! ## Quicksort -/

/-- In eager mode all runs are sorted, so nothing is left for quicksort. -/
def eagerSort (xs : List α) : Asking α (List α) := driftsort sortHalves true xs

/-- Whether the pivot, which does not come before the floor, does not come after it either. -/
def atFloor (floor : Option α) (pivot : α) : Asking α Bool :=
  match floor with
  | none => pure false
  | some bound => do
    let after ← before bound pivot
    pure !after

/-- Nothing comes before a pivot that is at the floor. -/
def partitionAbove (equal : Bool) (prior : List α) (pivot : α) (later : List α) :
    Asking α (List α × List α) :=
  if equal then pure ([], prior ++ pivot :: later) else partitionBefore prior pivot later

/-- Quicksort with a number of partitions that are still allowed.  `floor` is the pivot that all
elements were found not to come before; a pivot that does not come after it has its equals taken
out, and so has one that nothing comes before. -/
def quicksort : Nat → List α → Option α → Asking α (List α)
  | 0, xs, _ => if xs.length ≤ halvesLimit then sortHalves xs else eagerSort xs
  | limit + 1, xs, floor =>
    if xs.length ≤ halvesLimit then sortHalves xs
    else do
      let place ← choosePivot xs
      match xs.drop place with
      | [] => pure xs
      | pivot :: later =>
        let prior := xs.take place
        let equal ← atFloor floor pivot
        let (left, right) ← partitionAbove equal prior pivot later
        if left.isEmpty then
          let (equal, rest) ← partitionUpTo prior pivot later
          let sorted ← quicksort limit rest none
          pure (equal ++ sorted)
        else
          let sortedRight ← quicksort limit right (some pivot)
          let sortedLeft ← quicksort limit left floor
          pure (sortedLeft ++ sortedRight)

/-- Twice the logarithm of the length is a fair number of partitions. -/
def lazySort (xs : List α) : Asking α (List α) := quicksort (2 * xs.length.log2) xs none

/-! ## All lengths -/

/-- The stable sort of lists of any length. -/
def sort (xs : List α) : Asking α (List α) :=
  if xs.length ≤ insertionLimit then insertionSort xs
  else driftsort lazySort (xs.length ≤ 2 * halvesLimit) xs

end EntityStore.Sorting
