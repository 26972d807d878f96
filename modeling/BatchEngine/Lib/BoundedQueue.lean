import Mathlib.Data.List.Basic
import Mathlib.Data.Int.Notation

/-!
# A bounded first-in first-out queue with a task counter

`put` and `get` are partial: `none` is a caller that has to wait. A capacity of
zero means no bound.
-/

set_option autoImplicit false

/-- The items in arrival order, the capacity, and the tasks put but not yet
reported done. -/
structure BoundedQueue (α : Type*) where
  items : List α
  maxsize : ℕ
  unfinishedTasks : ℤ
  deriving DecidableEq, Repr

namespace BoundedQueue

variable {α : Type*}

def empty (maxsize : ℕ) : BoundedQueue α := ⟨[], maxsize, 0⟩

def Full (q : BoundedQueue α) : Prop := 0 < q.maxsize ∧ q.maxsize ≤ q.items.length

instance (q : BoundedQueue α) : Decidable q.Full := inferInstanceAs (Decidable (_ ∧ _))

/-- `put`, when there is room. -/
def put (q : BoundedQueue α) (x : α) : Option (BoundedQueue α) :=
  if q.Full then none
  else some { q with items := q.items ++ [x], unfinishedTasks := q.unfinishedTasks + 1 }

/-- `get`, when there is an item. -/
def get (q : BoundedQueue α) : Option (α × BoundedQueue α) :=
  match q.items with
  | [] => none
  | x :: rest => some (x, { q with items := rest })

def taskDone (q : BoundedQueue α) : BoundedQueue α :=
  { q with unfinishedTasks := q.unfinishedTasks - 1 }

@[simp] theorem empty_items (n : ℕ) : (empty n : BoundedQueue α).items = [] := rfl
@[simp] theorem taskDone_items (q : BoundedQueue α) : q.taskDone.items = q.items := rfl
@[simp] theorem taskDone_maxsize (q : BoundedQueue α) : q.taskDone.maxsize = q.maxsize := rfl

theorem put_some {q q' : BoundedQueue α} {x : α} (h : q.put x = some q') :
    ¬ q.Full ∧ q'.items = q.items ++ [x] ∧ q'.maxsize = q.maxsize := by
  unfold put at h
  split at h
  · cases h
  · obtain rfl := Option.some.inj h
    exact ⟨‹_›, rfl, rfl⟩

theorem get_some {q q' : BoundedQueue α} {x : α} (h : q.get = some (x, q')) :
    q.items = x :: q'.items ∧ q'.maxsize = q.maxsize := by
  unfold get at h
  split at h
  · cases h
  · obtain ⟨rfl, rfl⟩ := Prod.mk.inj (Option.some.inj h)
    exact ⟨‹_›, rfl⟩

theorem get_of_items {q : BoundedQueue α} (h : q.items ≠ []) : ∃ got, q.get = some got := by
  obtain ⟨x, rest, hitems⟩ := List.exists_cons_of_ne_nil h
  exact ⟨_, by rw [get, hitems]⟩

end BoundedQueue
