import Mathlib.Algebra.Order.Floor.Ring
import Mathlib.Algebra.Order.Group.Defs
import Mathlib.Algebra.Order.Sub.Basic
import Mathlib.Data.List.Pairwise
import Mathlib.Data.List.TakeWhile
import Mathlib.Order.Lattice

/-!
# Sliding windows over admission times

A limiter keeps the times of its admissions in a queue and drops from the front what has
left the window. If the clock does not go back, the queue is then exactly the admissions
inside the window, and refusing when it is full bounds the admissions in every window.
-/

set_option autoImplicit false

namespace Window

variable {K : Type*} [AddCommGroup K] [LinearOrder K]

/-- `while ts and ts[0] < now - width: ts.popleft()`. -/
def prune (width now : K) (ts : List K) : List K := ts.dropWhile (· < now - width)

/-- How many of these times lie in the window that begins at `start`. -/
def inside (width start : K) (log : List K) : ℕ :=
  log.countP fun t => start ≤ t ∧ t ≤ start + width

/-- The queue `ts` at the time `now`, after the admissions in `log`. -/
structure Tracks (width : K) (log ts : List K) (now : K) : Prop where
  sorted : log.Pairwise (· ≤ ·)
  past : ∀ t ∈ log, t ≤ now
  dropped : ∃ old, log = old ++ ts ∧ ∀ t ∈ old, t < now - width

/-- No window holds more than `ceiling` of these times. -/
def Capped (width : K) (ceiling : ℕ) (log : List K) : Prop :=
  ∀ start, inside width start log ≤ ceiling

variable {width now now' : K} {log ts : List K} {ceiling : ℕ}

theorem tracks_nil : Tracks width [] [] now :=
  ⟨List.Pairwise.nil, fun _ h => absurd h List.not_mem_nil, [], rfl,
    fun _ h => absurd h List.not_mem_nil⟩

theorem capped_nil : Capped width ceiling ([] : List K) := fun _ => Nat.zero_le _

/-- An admission. -/
theorem Tracks.admit (h : Tracks width log ts now) :
    Tracks width (log ++ [now]) (ts ++ [now]) now := by
  obtain ⟨old, hlog, hold⟩ := h.dropped
  refine ⟨?_, fun t ht => ?_, old, by rw [hlog, List.append_assoc], hold⟩
  · rw [List.pairwise_append]
    refine ⟨h.sorted, List.pairwise_singleton _ _, fun t ht t' ht' => ?_⟩
    rw [List.mem_singleton.mp ht']
    exact h.past t ht
  · rcases List.mem_append.mp ht with ht | ht
    · exact h.past t ht
    · exact (List.mem_singleton.mp ht).le

variable [IsOrderedAddMonoid K]

/-- The queue gets shorter exactly if its first time has left the window. -/
theorem length_prune_lt_iff (first : K) (rest : List K) :
    (prune width now (first :: rest)).length < (first :: rest).length ↔ first + width < now := by
  rw [← lt_sub_iff_add_lt, prune, List.dropWhile_cons]
  by_cases hfirst : first < now - width
  · rw [if_pos (decide_eq_true hfirst)]
    exact iff_of_true (Nat.lt_succ_of_le (List.length_dropWhile_le _ rest)) hfirst
  · rw [if_neg (by rwa [decide_eq_true_eq])]
    exact iff_of_false (lt_irrefl _) hfirst

theorem Tracks.later (h : Tracks width log ts now) (hnow : now ≤ now') :
    Tracks width log ts now' := by
  obtain ⟨old, hlog, hold⟩ := h.dropped
  exact ⟨h.sorted, fun t ht => (h.past t ht).trans hnow, old, hlog,
    fun t ht => (hold t ht).trans_le (sub_le_sub_right hnow width)⟩

/-- A look at the clock. -/
theorem Tracks.prune (h : Tracks width log ts now) (hnow : now ≤ now') :
    Tracks width log (prune width now' ts) now' := by
  obtain ⟨hsorted, hpast, old, hlog, hold⟩ := h.later hnow
  refine ⟨hsorted, hpast, old ++ ts.takeWhile (· < now' - width), ?_, fun t ht => ?_⟩
  · rw [List.append_assoc, Window.prune, List.takeWhile_append_dropWhile]
    exact hlog
  · rcases List.mem_append.mp ht with ht | ht
    · exact hold t ht
    · have hleft := List.mem_takeWhile_imp ht
      exact of_decide_eq_true hleft

/-- After it the queue is what lies inside the window that ends now. -/
theorem Tracks.length_prune (h : Tracks width log ts now) (hnow : now ≤ now') :
    (Window.prune width now' ts).length = inside width (now' - width) log := by
  have hpruned := h.prune hnow
  obtain ⟨old, hlog, hold⟩ := hpruned.dropped
  have hqueue : ∀ t ∈ Window.prune width now' ts, now' - width ≤ t := by
    have hsorted : (Window.prune width now' ts).Pairwise (· ≤ ·) := by
      have hwhole := h.sorted
      rw [hlog] at hwhole
      exact (List.pairwise_append.mp hwhole).2.1
    intro t ht
    cases hq : Window.prune width now' ts with
    | nil =>
      rw [hq] at ht
      exact absurd ht List.not_mem_nil
    | cons first rest =>
      have hfirst : now' - width ≤ first := by
        have hhead := List.head?_dropWhile_not (· < now' - width) ts
        change (match (Window.prune width now' ts).head? with
          | some x => decide (x < now' - width) = false | none => True) at hhead
        rw [hq] at hhead
        exact not_lt.mp (of_decide_eq_false hhead)
      rw [hq] at ht hsorted
      rcases List.mem_cons.mp ht with rfl | ht
      · exact hfirst
      · exact hfirst.trans (List.rel_of_pairwise_cons hsorted ht)
  unfold inside
  rw [sub_add_cancel]
  have hcount : ∀ l : List K, (∀ t ∈ l, now' - width ≤ t) → (∀ t ∈ l, t ≤ now') →
      l.countP (fun t => now' - width ≤ t ∧ t ≤ now') = l.length := fun l hlow hhigh =>
    List.countP_eq_length.mpr fun t ht => decide_eq_true ⟨hlow t ht, hhigh t ht⟩
  have hpast := hpruned.past
  rw [hlog] at hpast
  have hnone : old.countP (fun t => now' - width ≤ t ∧ t ≤ now') = 0 :=
    List.countP_eq_zero.mpr fun t ht hin =>
      absurd (hold t ht) (not_lt.mpr (of_decide_eq_true hin).1)
  rw [hlog, List.countP_append, hnone, Nat.zero_add]
  exact (hcount _ hqueue fun t ht => hpast t (List.mem_append_right old ht)).symm

/-- If the window that ends now has room, an admission keeps every window within the
ceiling. -/
theorem Capped.admit (h : Capped width ceiling log) (hpast : ∀ t ∈ log, t ≤ now)
    (hroom : inside width (now - width) log < ceiling) : Capped width ceiling (log ++ [now]) := by
  intro start
  have hsplit : inside width start (log ++ [now]) =
      inside width start log + if start ≤ now ∧ now ≤ start + width then 1 else 0 := by
    unfold inside
    rw [List.countP_append, List.countP_singleton]
    simp only [decide_eq_true_eq]
  rw [hsplit]
  by_cases hin : start ≤ now ∧ now ≤ start + width
  · rw [if_pos hin]
    have hle : inside width start log ≤ inside width (now - width) log := by
      apply List.countP_mono_left
      intro t ht hcounted
      have hstart : start ≤ t := (of_decide_eq_true hcounted).1
      rw [decide_eq_true_eq, sub_add_cancel]
      exact ⟨(sub_le_iff_le_add.mpr hin.2).trans hstart, hpast t ht⟩
    omega
  · rw [if_neg hin]
    exact h start

/-! ## Windows side by side -/

theorem countP_le_add {α : Type*} {p q r : α → Bool} (h : ∀ a, p a → q a ∨ r a) (l : List α) :
    l.countP p ≤ l.countP q + l.countP r := by
  induction l with
  | nil => exact Nat.zero_le _
  | cons a l ih =>
    rw [List.countP_cons, List.countP_cons, List.countP_cons]
    by_cases hp : p a
    · rcases h a hp with hq | hr
      · rw [if_pos hp, if_pos hq]
        omega
      · rw [if_pos hp, if_pos hr]
        omega
    · rw [if_neg hp]
      omega

section Total

variable {K : Type*} [Field K] [LinearOrder K] {width : K} {log : List K} {ceiling : ℕ}

theorem Capped.countP_le (h : Capped width ceiling log) (first : K) (n : ℕ) :
    log.countP (fun t => first ≤ t ∧ t < first + n * width) ≤ ceiling * n := by
  induction n with
  | zero =>
    rw [Nat.mul_zero, Nat.le_zero, List.countP_eq_zero]
    intro t _ hin
    have hboth := of_decide_eq_true hin
    rw [Nat.cast_zero, zero_mul, add_zero] at hboth
    exact absurd hboth.2 (not_lt.mpr hboth.1)
  | succ n ih =>
    have hnext := h (first + n * width)
    have hsplit := countP_le_add
      (p := fun t => decide (first ≤ t ∧ t < first + ((n + 1 : ℕ) : K) * width))
      (q := fun t => decide (first ≤ t ∧ t < first + n * width))
      (r := fun t => decide (first + n * width ≤ t ∧ t ≤ first + n * width + width))
      (fun t hin => ?_) log
    · rw [Nat.mul_succ]
      exact hsplit.trans (Nat.add_le_add ih hnext)
    · have hboth := of_decide_eq_true hin
      rcases lt_or_ge t (first + n * width) with hearly | hlate
      · exact Or.inl (decide_eq_true ⟨hboth.1, hearly⟩)
      · refine Or.inr (decide_eq_true ⟨hlate, ?_⟩)
        have hlast := hboth.2.le
        rw [Nat.cast_add, Nat.cast_one, add_mul, one_mul, ← add_assoc] at hlast
        exact hlast

/-- However long the log is in the making, so many windows cover it. -/
theorem Capped.length_le [IsStrictOrderedRing K] [FloorSemiring K]
    (h : Capped width ceiling log) (hwidth : 0 < width) {first last : K}
    (hfirst : ∀ t ∈ log, first ≤ t) (hlast : ∀ t ∈ log, t ≤ last) :
    log.length ≤ ceiling * (⌊(last - first) / width⌋₊ + 1) := by
  have hcover : last < first + ((⌊(last - first) / width⌋₊ + 1 : ℕ) : K) * width := by
    have hfloor := Nat.lt_floor_add_one ((last - first) / width)
    rw [div_lt_iff₀ hwidth] at hfloor
    rw [Nat.cast_add, Nat.cast_one]
    exact sub_lt_iff_lt_add'.mp hfloor
  refine le_trans (le_of_eq ?_) (h.countP_le first _)
  symm
  rw [List.countP_eq_length]
  exact fun t ht => decide_eq_true ⟨hfirst t ht, (hlast t ht).trans_lt hcover⟩

end Total

end Window
