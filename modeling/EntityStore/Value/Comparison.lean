import EntityStore.Failure
import EntityStore.Value.TotalOrder

/-!
# Comparing values of one kind

The natural order: within a kind as in the total order, `null` after everything else.  Two values
of different kinds, neither of them `null`, have no order; a list fails where the first place that
differs does.
-/

namespace EntityStore

namespace Value

mutual

def compare : Value → Value → Except Failure Ordering
  | null, null => .ok .eq
  | null, _ => .ok .gt
  | _, null => .ok .lt
  | integer a, integer b => .ok (Ord.compare a.toInt b.toInt)
  | float a, float b => .ok (Ord.compare a.orderKey b.orderKey)
  | text a, text b => .ok (Ord.compare a b)
  | boolean a, boolean b => .ok (Ord.compare a b)
  | date a, date b => .ok (a.cmp b)
  | list as, list bs => compareItems as bs
  | a, b => .error (.incomparable a.kind b.kind)

def compareItems : List Value → List Value → Except Failure Ordering
  | [], [] => .ok .eq
  | [], _ :: _ => .ok .lt
  | _ :: _, [] => .ok .gt
  | a :: as, b :: bs =>
    match compare a b with
    | .ok .eq => compareItems as bs
    | other => other

end

end Value

end EntityStore
