import EntityStore.Sorting.SortKey

/-!
# Page requests

A request for one page: how many records a page has, the number of the page, counted from one, and
the keys that the records are sorted by.  Sizes and numbers are 64-bit; arithmetic on them stops at
the largest one.

    r.next.size = r.size                                           (size_next)
    r.next.page.toNat = min (r.page.toNat + 1) (UInt64.size - 1)    (toNat_page_next)
-/

namespace EntityStore

structure PageRequest where
  size : UInt64
  page : UInt64
  sorts : List SortKey := []
  size_ne_zero : size ≠ 0
  page_ne_zero : page ≠ 0
deriving DecidableEq

namespace PageRequest

def make (size page : UInt64) (sorts : List SortKey) : Except Failure PageRequest :=
  if hs : size = 0 then .error .zeroPageSize
  else if hp : page = 0 then .error .zeroPageNumber
  else .ok ⟨size, page, sorts, hs, hp⟩

/-- The first page of the given size, unsorted. -/
def ofSize (size : UInt64) : Except Failure PageRequest := make size 1 []

def withPage (r : PageRequest) (page : UInt64) : Except Failure PageRequest :=
  if hp : page = 0 then .error .zeroPageNumber
  else .ok { r with page := page, page_ne_zero := hp }

/-- One more sort key, after all others. -/
def sortBy (r : PageRequest) (key : SortKey) : PageRequest := { r with sorts := r.sorts ++ [key] }

/-- Number of records before the page, or the largest 64-bit number if there are more. -/
def skip (r : PageRequest) : Nat := min (r.size.toNat * (r.page.toNat - 1)) (UInt64.size - 1)

/-- The same request one page further; the last page that has a number is followed by itself. -/
def next (r : PageRequest) : PageRequest :=
  if h : r.page + 1 = 0 then r else { r with page := r.page + 1, page_ne_zero := h }

/-! ## Documents -/

def fieldNames : List String := ["size", "page", "sorts"]

def toDocument (r : PageRequest) : Json :=
  .ofMembers [("size", .ofSize r.size), ("page", .ofSize r.page),
    ("sorts", .array (r.sorts.map SortKey.toDocument))]

def sortsOfDocument? : Option Json → Option (List SortKey)
  | none => some []
  | some doc => doc.items?.bind fun items => items.mapM SortKey.ofDocument?

def ofDocument? (doc : Json) : Option PageRequest :=
  match doc.fields? fieldNames with
  | some [some size, some page, sorts] => do
    let size ← size.size?
    let page ← page.size?
    let sorts ← sortsOfDocument? sorts
    (make size page sorts).toOption
  | _ => none

def parse? (s : String) : Option PageRequest := (Json.parse? s).bind ofDocument?

/-! ## Lemmas -/

theorem size_next (r : PageRequest) : r.next.size = r.size := by
  unfold next; split <;> rfl

theorem sorts_next (r : PageRequest) : r.next.sorts = r.sorts := by
  unfold next; split <;> rfl

theorem toNat_page_next (r : PageRequest) :
    r.next.page.toNat = min (r.page.toNat + 1) (UInt64.size - 1) := by
  have hlt := r.page.toNat_lt_size
  have hadd : (r.page + 1).toNat = (r.page.toNat + 1) % UInt64.size := UInt64.toNat_add r.page 1
  simp only [UInt64.size] at hlt hadd ⊢
  unfold next
  split
  · next h => rw [h] at hadd; simp at hadd; omega
  · next h =>
    have : (r.page + 1).toNat ≠ 0 := fun h0 => h (UInt64.toNat_inj.1 h0)
    show (r.page + 1).toNat = _
    omega

end PageRequest

end EntityStore
