import SmallLisp.Store.Basic

/-!
Actions on the store. An action ends with a value or with a failure, and the store is kept either
way: a failure undoes nothing.
-/

namespace SmallLisp

/-- A computation that reads and changes the store and may fail. -/
def Action (α : Type) : Type := Store → Except Failure α × Store

namespace Action

variable {α β : Type}

protected def pure (a : α) : Action α := fun s => (.ok a, s)

protected def bind (m : Action α) (f : α → Action β) : Action β := fun s =>
  match m s with
  | (.ok a, s') => f a s'
  | (.error e, s') => (.error e, s')

instance : Monad Action where
  pure := Action.pure
  bind := Action.bind

theorem bind_apply (m : Action α) (f : α → Action β) (s : Store) :
    (m >>= f) s = match m s with
      | (.ok a, s') => f a s'
      | (.error e, s') => (.error e, s') := rfl

theorem bind_of_ok {m : Action α} {f : α → Action β} {a : α} {s s' : Store}
    (h : m s = (.ok a, s')) : (m >>= f) s = f a s' := by
  rw [bind_apply, h]

theorem bind_of_error {m : Action α} {f : α → Action β} {e : Failure} {s s' : Store}
    (h : m s = (.error e, s')) : (m >>= f) s = (.error e, s') := by
  rw [bind_apply, h]

/-- An action in two parts ends in its second part, or fails in its first. -/
theorem of_bind_eq {m : Action α} {f : α → Action β} {r : Except Failure β} {s s' : Store}
    (h : (m >>= f) s = (r, s')) :
    (∃ a s₁, m s = (.ok a, s₁) ∧ f a s₁ = (r, s')) ∨ ∃ e, m s = (.error e, s') ∧ r = .error e := by
  rw [bind_apply] at h
  rcases hm : m s with ⟨e | a, s₁⟩ <;> rw [hm] at h
  · cases h
    exact .inr ⟨e, rfl, rfl⟩
  · exact .inl ⟨a, s₁, rfl, h⟩

/-- Fail. -/
def fail (e : Failure) : Action α := fun s => (.error e, s)

/-- Raise an error. -/
def raise (e : Error) : Action α := fail e.raise

/-- A result that needs no store. -/
def ofExcept (x : Except Failure α) : Action α := fun s => (x, s)

/-- Change the store, or fail and leave it. -/
def change (f : Store → Except Failure Store) : Action Unit := fun s =>
  match f s with
  | .ok s' => (.ok (), s')
  | .error e => (.error e, s)

/-- Take a new identity. -/
def fresh : Action Nat := fun s => (.ok s.nextId, { s with nextId := s.nextId + 1 })

/-- Record an event. -/
def emit (e : Event) : Action Unit := fun s => (.ok (), { s with events := s.events.push e })

/-- The value of a name as seen from a frame. -/
def lookup (f : FrameId) (name : Value) : Action Value := fun s => (s.lookup f name, s)

/-- Add a frame inside `f` that binds parameters to arguments. -/
def extend (f : FrameId) (params args : List Value) : Action FrameId := fun s =>
  (.ok s.frames.size, s.extend f params args)

/-- A new list. -/
def newList (items : List Value) : Action Value := do return .list (← fresh) items

/-- A number as a new value. -/
def newNumber : Number → Action Value
  | .int n => pure (.int n)
  | .float x => do return .float x (← fresh)

/-- A datum as a new value. -/
def newDatum (d : Datum) : Action Value := fun s =>
  let (v, next) := d.label s.nextId
  (.ok v, { s with nextId := next })

end Action

end SmallLisp
