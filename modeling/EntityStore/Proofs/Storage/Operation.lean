import EntityStore.TypedAccess

/-!
# Operations taken apart

How a row of operations runs on a store: what is settled beforehand leaves the store to the next
operation, and an operation that fails ends the row.

    (Store.settled outcome >>= f) s =
      match outcome with | .ok a => f a s | .error e => (.error e, s)             (settled_bind)
    (op >>= fun a => pure (f a)) s = ((op s).1.map f, (op s).2)                 (bind_pure_apply)
-/

namespace EntityStore

namespace Store

variable {α β : Type}

theorem bind_ok {op : StoreM α} {f : α → StoreM β} {s s' : Store} {a : α}
    (h : op s = (.ok a, s')) : (op >>= f) s = f a s' := by
  show (match op s with | (x, t) => ExceptT.bindCont f x t) = f a s'
  rw [h]; rfl

theorem bind_error {op : StoreM α} {f : α → StoreM β} {s s' : Store} {failure : Failure}
    (h : op s = (.error failure, s')) : (op >>= f) s = (.error failure, s') := by
  show (match op s with | (x, t) => ExceptT.bindCont f x t) = (.error failure, s')
  rw [h]; rfl

theorem settled_bind (outcome : Except Failure α) (f : α → StoreM β) (s : Store) :
    (settled outcome >>= f) s =
      match outcome with
      | .ok a => f a s
      | .error failure => (.error failure, s) := by
  cases outcome with
  | ok a => exact bind_ok rfl
  | error failure => exact bind_error rfl

/-- What is answered in the end is made of what the operation gives. -/
theorem bind_pure_apply (op : StoreM α) (f : α → β) (s : Store) :
    (op >>= fun a => pure (f a)) s = ((op s).1.map f, (op s).2) := by
  rcases h : op s with ⟨outcome, s'⟩
  cases outcome with
  | ok a => rw [bind_ok h]; rfl
  | error failure => rw [bind_error h]; rfl

/-- What is answered in the end does not touch the store. -/
theorem bind_pure_snd (op : StoreM α) (f : α → β) (s : Store) :
    ((op >>= fun a => pure (f a)) s).2 = (op s).2 := by
  rw [bind_pure_apply]

/-- What is answered in the end does not fail. -/
theorem bind_pure_isOk (op : StoreM α) (f : α → β) (s : Store) :
    ((op >>= fun a => pure (f a)) s).1.isOk = (op s).1.isOk := by
  rw [bind_pure_apply]
  cases (op s).1 <;> rfl

end Store

end EntityStore
