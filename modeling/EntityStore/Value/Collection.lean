import EntityStore.Value.TotalOrder

/-!
# Collections of values

Sorting by the total order, which keeps the order of equal values, the values without repetitions,
and the greatest value, the last one where several are greatest.
-/

namespace EntityStore.Value

def sort (vs : List Value) : List Value := vs.mergeSort fun a b => a.cmp b != .gt

/-- Each value once. -/
def distinct (vs : List Value) : List Value := vs.eraseDups

def greatest? : List Value → Option Value
  | [] => none
  | v :: vs => some (vs.foldl (fun m w => if w.cmp m == .lt then m else w) v)

end EntityStore.Value
