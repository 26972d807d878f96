import Mathlib.Data.List.Basic
import Mathlib.Data.List.TakeWhile

/-!
# Searches of a prefix, and the end of a list

A search that stops early, a search that skips more than another, and the last entries of
a list that grows at its end.
-/

set_option autoImplicit false

namespace Lists

variable {α : Type*} {p q : α → Bool}

/-- A search of a prefix misses what lies behind it. -/
theorem find?_take (l : List α) (n : ℕ) :
    (l.take n).find? p = if (l.takeWhile (!p ·)).length < n then l.find? p else none := by
  induction l generalizing n with
  | nil => simp only [List.take_nil, List.find?_nil, ite_self]
  | cons a l ih =>
    cases n with
    | zero => simp
    | succ n =>
      rw [List.take_succ_cons, List.find?_cons, List.find?_cons, List.takeWhile_cons]
      cases ha : p a with
      | true => simp
      | false => simpa using ih n

/-- A search that skips more finds the same value exactly if the rest of what it skips is
skipped by the other search too. -/
theorem find?_eq_of_skip {x : α} (hskip : ∀ a, q a = true → p a = true) (hx : q x = true)
    (l : List α) : l.find? p = some x ↔
      l.find? q = some x ∧ ∀ a ∈ l.takeWhile (!q ·), p a = false := by
  induction l with
  | nil => simp
  | cons a l ih =>
    rw [List.find?_cons, List.find?_cons, List.takeWhile_cons]
    cases hq : q a with
    | true => simp [hskip a hq]
    | false =>
      cases hp : p a with
      | true =>
        have hne : a ≠ x := fun h => by simp [h, hx] at hq
        simp [hp, hne]
      | false => simpa [hp] using ih

/-! ## The last entries -/

/-- The last `n` entries, or all where there are fewer. -/
def last (n : ℕ) (l : List α) : List α := l.drop (l.length - n)

@[simp] theorem last_nil (n : ℕ) : last n ([] : List α) = [] := List.drop_nil

@[simp] theorem length_last (n : ℕ) (l : List α) : (last n l).length = min n l.length := by
  rw [last, List.length_drop]
  omega

theorem last_of_le {n : ℕ} {l : List α} (h : l.length ≤ n) : last n l = l := by
  rw [last, Nat.sub_eq_zero_of_le h, List.drop_zero]

theorem last_append_of_le {n : ℕ} (k : List α) {l : List α} (h : n ≤ l.length) :
    last n (k ++ l) = last n l := by
  have hcut : (k ++ l).length - n = k.length + (l.length - n) := by
    rw [List.length_append]
    omega
  rw [last, hcut, List.drop_length_add_append, last]

/-- What has left the window does not come back. -/
theorem last_last_append (n : ℕ) (l m : List α) : last n (last n l ++ m) = last n (l ++ m) := by
  rcases Nat.le_total l.length n with hshort | hlong
  · rw [last_of_le hshort]
  · have hsplit : l ++ m = l.take (l.length - n) ++ (last n l ++ m) := by
      rw [last, ← List.append_assoc, List.take_append_drop]
    have hfull : n ≤ (last n l ++ m).length := by
      rw [List.length_append, length_last, Nat.min_eq_left hlong]
      exact Nat.le_add_right n m.length
    rw [hsplit]
    exact (last_append_of_le _ hfull).symm

/-! ## Pieces of a list -/

theorem length_flatten_of_all {n : ℕ} {ls : List (List α)} (h : ∀ l ∈ ls, l.length = n) :
    ls.flatten.length = ls.length * n := by
  induction ls with
  | nil => exact (Nat.zero_mul n).symm
  | cons l ls ih =>
    rw [List.flatten_cons, List.length_append, ih fun m hm => h m (List.mem_cons_of_mem l hm),
      h l List.mem_cons_self, List.length_cons, Nat.succ_mul, Nat.add_comm]

theorem le_length_flatten {n : ℕ} {ls : List (List α)} (h : ∀ l ∈ ls, n ≤ l.length) :
    ls.length * n ≤ ls.flatten.length := by
  induction ls with
  | nil => exact (Nat.zero_mul n).le
  | cons l ls ih =>
    have hfirst := h l List.mem_cons_self
    have hrest := ih fun m hm => h m (List.mem_cons_of_mem l hm)
    rw [List.flatten_cons, List.length_append, List.length_cons, Nat.succ_mul]
    omega

/-- Pieces of at least `n` entries that have `n` each on average have `n` each. -/
theorem length_eq_of_flatten {n : ℕ} {ls : List (List α)} (h : ∀ l ∈ ls, n ≤ l.length)
    (hsum : ls.flatten.length = ls.length * n) : ∀ l ∈ ls, l.length = n := by
  induction ls with
  | nil => exact fun l hl => absurd hl List.not_mem_nil
  | cons m ls ih =>
    have hfirst := h m List.mem_cons_self
    have hothers : ∀ l ∈ ls, n ≤ l.length := fun l hl => h l (List.mem_cons_of_mem m hl)
    have hrest := le_length_flatten hothers
    rw [List.flatten_cons, List.length_append, List.length_cons, Nat.succ_mul] at hsum
    intro l hl
    rcases List.mem_cons.mp hl with rfl | hl
    · omega
    · exact ih hothers (by omega) l hl

/-- Pieces of at least `n` entries, and the list from where pieces of `n` would end, are the
list exactly if they have `n` entries each and are a prefix of it. -/
theorem flatten_append_drop_eq_iff {n : ℕ} {ls : List (List α)} {l : List α}
    (h : ∀ m ∈ ls, n ≤ m.length) (hle : ls.flatten.length ≤ l.length) :
    ls.flatten ++ l.drop (ls.length * n) = l ↔
      (∀ m ∈ ls, m.length = n) ∧ ls.flatten <+: l := by
  constructor
  · intro heq
    have hlength := congrArg List.length heq
    have hmin := le_length_flatten h
    rw [List.length_append, List.length_drop] at hlength
    exact ⟨length_eq_of_flatten h (by omega), ⟨_, heq⟩⟩
  · rintro ⟨hall, rest, rfl⟩
    rw [← length_flatten_of_all hall, List.drop_left]

end Lists
