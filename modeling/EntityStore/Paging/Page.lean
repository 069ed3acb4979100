import EntityStore.Entity.Record
import EntityStore.Paging.PageRequest

/-!
# Pages

One window of a longer sorted result, with the request that it answers.  How long the whole result
is stays unknown.
-/

namespace EntityStore

structure Page where
  content : List Record
  request : PageRequest

namespace Page

def hasContent (page : Page) : Bool := !page.content.isEmpty

def elements (page : Page) : Nat := page.content.length

/-- The request for the page after this one. -/
def nextRequest (page : Page) : PageRequest := page.request.next

def totalElements (_ : Page) : Except Failure Nat := .error .untrackedTotalElements

def totalPages (_ : Page) : Except Failure Nat := .error .untrackedTotalPages

end Page

end EntityStore
