import EntityStore.Sorting.Driftsort
import EntityStore.Sorting.SortKey

/-!
# Sorting records

The sort asks a comparator that may fail.  At the first failure the comparator keeps it and says
from then on that no record comes before another, so that the sort runs to its end and the failure
can be returned.  But what it says then belongs to no order any more, and a sort that finds that out
panics before there is anything to return.
-/

namespace EntityStore

/-- Whether `a` comes before `b`, for a sort that met this failure before. -/
def Comparator.answer (c : Comparator) (a b : Record) :
    Option Failure → Bool × Option Failure
  | some failure => (false, some failure)
  | none =>
    match c a b with
    | .ok o => (o == .lt, none)
    | .error failure => (false, some failure)

/-- The records in the order of the comparators, stably.  A single record is compared with
nothing. -/
def sortRecords (comparators : List Comparator) (records : List Record) :
    Except Failure (List Record) :=
  if records.length < 2 || comparators.isEmpty then .ok records
  else
    match (Sorting.sort records).run (Comparator.chain comparators).answer none with
    | (none, _) => .error .inconsistentOrder
    | (some _, some failure) => .error failure
    | (some sorted, none) => .ok sorted

end EntityStore
