/-!
# Computations that ask for an order

A sort knows of its elements only what it is told when it asks whether one comes before another.  It
is a tree of such questions, where the answer to a question decides how it goes on.  Answers that
belong to no order can leave it without a way to go on, and then it panics.
-/

namespace EntityStore

/-- A computation that asks for the order of elements. -/
inductive Asking (α β : Type)
  | done (result : β)
  /-- Asks whether `a` comes before `b`. -/
  | ask (a b : α) (next : Bool → Asking α β)
  /-- Panics, as the answers so far belong to no order. -/
  | broken

namespace Asking

variable {α β γ σ : Type}

def bind : Asking α β → (β → Asking α γ) → Asking α γ
  | done b, f => f b
  | ask x y next, f => ask x y fun before => (next before).bind f
  | broken, _ => broken

instance : Monad (Asking α) where
  pure := done
  bind := bind

/-- Whether `a` comes before `b`. -/
def before (a b : α) : Asking α Bool := ask a b done

/-- Lets a computation have its answers from something that changes with each; nothing comes of it
where the computation panics. -/
def run (answer : α → α → σ → Bool × σ) : Asking α β → σ → Option β × σ
  | done b, s => (some b, s)
  | ask a b next, s => (next (answer a b s).1).run answer (answer a b s).2
  | broken, s => (none, s)

/-- What comes of a computation that is always told no. -/
def denied : Asking α β → Option β
  | done b => some b
  | ask _ _ next => (next false).denied
  | broken => none

end Asking

end EntityStore
