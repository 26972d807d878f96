import Mathlib.Algebra.Order.Floor.Semiring
import Mathlib.Algebra.Order.Ring.Pow
import Mathlib.Tactic.Linarith

/-!
# A level that is cut at most once in a gap

A level rises freely. It may also be cut by a factor, but not below a floor, and not
sooner than `gap` after the last cut. Over any stretch of time it has then lost at most
one factor for each gap that fits in, and one more. Nothing here mentions a particular
controller.
-/

set_option autoImplicit false

namespace PacedDecay

variable {K : Type*}

/-- The level, and the time of its last cut. -/
structure Level (K : Type*) where
  value : K
  lastCut : Option K

section Moves

variable [Field K] [LinearOrder K]

/-- What may happen to the level at time `now`. -/
inductive Move (bottom factor gap now : K) (x y : Level K) : Prop
  | keep (hvalue : x.value ≤ y.value) (hlast : y.lastCut = x.lastCut)
  | cut (hgap : ∀ last, x.lastCut = some last → gap ≤ now - last)
      (hvalue : max bottom (x.value * factor) ≤ y.value) (hlast : y.lastCut = some now)

/-- One move at each of the times. -/
inductive Path (bottom factor gap : K) : Level K → List K → Level K → Prop
  | nil (x : Level K) : Path bottom factor gap x [] x
  | cons {x y z : Level K} {now : K} {times : List K} (hmove : Move bottom factor gap now x y)
      (hpath : Path bottom factor gap y times z) : Path bottom factor gap x (now :: times) z

end Moves

variable [Field K] [LinearOrder K] [IsStrictOrderedRing K] {bottom factor gap : K}

/-! ## Cuts are apart -/

theorem Move.last_le {x y : Level K} {now last : K} (hgap : 0 ≤ gap)
    (h : Move bottom factor gap now x y) (hlast : x.lastCut = some last) :
    ∃ last', y.lastCut = some last' ∧ last ≤ last' := by
  cases h with
  | keep _ hkept => exact ⟨last, hkept.trans hlast, le_rfl⟩
  | cut hapart _ hnow =>
    have := hapart last hlast
    exact ⟨now, hnow, by linarith⟩

/-- The last cut only moves on. -/
theorem Path.last_le {x y : Level K} {times : List K} {last : K} (hgap : 0 ≤ gap)
    (h : Path bottom factor gap x times y) (hlast : x.lastCut = some last) :
    ∃ last', y.lastCut = some last' ∧ last ≤ last' := by
  induction h generalizing last with
  | nil x => exact ⟨last, hlast, le_rfl⟩
  | cons hmove _ ih =>
    obtain ⟨last', hlast', hle⟩ := hmove.last_le hgap hlast
    obtain ⟨last'', hlast'', hle'⟩ := ih hlast'
    exact ⟨last'', hlast'', hle.trans hle'⟩

/-! ## The loss over a stretch of time -/

/-- After `k` cuts since `start`: what the level has kept, and how late the last cut was. -/
structure Spent (bottom factor gap start stop initial : K) (k : ℕ) (x : Level K) : Prop where
  kept : max bottom (initial * factor ^ k) ≤ x.value
  late : 0 < k → ∃ last, x.lastCut = some last ∧ start + (k - 1 : ℕ) * gap ≤ last ∧ last ≤ stop

theorem Spent.move {start stop initial now : K} {k : ℕ} {x y : Level K} (hfactor : 0 ≤ factor)
    (hs : Spent bottom factor gap start stop initial k x) (hmove : Move bottom factor gap now x y)
    (hstart : start ≤ now) (hstop : now ≤ stop) :
    ∃ k', Spent bottom factor gap start stop initial k' y := by
  cases hmove with
  | keep hvalue hlast =>
    refine ⟨k, hs.kept.trans hvalue, fun hk => ?_⟩
    rw [hlast]
    exact hs.late hk
  | cut hapart hvalue hlast =>
    refine ⟨k + 1, ?_, fun _ => ⟨now, hlast, ?_, hstop⟩⟩
    · have hcut : initial * factor ^ (k + 1) ≤ x.value * factor := by
        rw [pow_succ, ← mul_assoc]
        exact mul_le_mul_of_nonneg_right ((le_max_right _ _).trans hs.kept) hfactor
      exact (max_le_max le_rfl hcut).trans hvalue
    · rw [Nat.add_sub_cancel]
      rcases Nat.eq_zero_or_pos k with rfl | hk
      · simpa using hstart
      · obtain ⟨last, hbefore, hlate, -⟩ := hs.late hk
        have hgap := hapart last hbefore
        have hcount : ((k - 1 : ℕ) : K) + 1 = k := by
          rw [Nat.cast_sub hk]
          simp
        rw [← hcount, add_mul, one_mul]
        linarith

theorem Spent.path {start stop initial : K} {k : ℕ} {x y : Level K} {times : List K}
    (hfactor : 0 ≤ factor) (hpath : Path bottom factor gap x times y)
    (hs : Spent bottom factor gap start stop initial k x)
    (htimes : ∀ now ∈ times, start ≤ now ∧ now ≤ stop) :
    ∃ k', Spent bottom factor gap start stop initial k' y := by
  induction hpath generalizing k with
  | nil x => exact ⟨k, hs⟩
  | cons hmove _ ih =>
    obtain ⟨hnow, hrest⟩ := List.forall_mem_cons.mp htimes
    obtain ⟨k', hs'⟩ := hs.move hfactor hmove hnow.1 hnow.2
    exact ih hs' hrest

/-- The cuts of a stretch of `span` fit into it. -/
theorem Spent.count_le [FloorSemiring K] {start span initial : K} {k : ℕ} {x : Level K}
    (hgap : 0 < gap) (hs : Spent bottom factor gap start (start + span) initial k x) :
    k ≤ 1 + ⌊span / gap⌋₊ := by
  rcases Nat.eq_zero_or_pos k with rfl | hk
  · exact Nat.zero_le _
  · obtain ⟨last, -, hlate, hstop⟩ := hs.late hk
    have hfits : ((k - 1 : ℕ) : K) ≤ span / gap := by
      rw [le_div_iff₀ hgap]
      linarith
    have hfloor := Nat.le_floor hfits
    omega

/-- Over a stretch of `span` the level loses at most `1 + ⌊span / gap⌋` factors. -/
theorem Path.value_ge [FloorSemiring K] {x y : Level K} {times : List K} {start span : K}
    (hfactor : 0 ≤ factor) (hone : factor ≤ 1) (hgap : 0 < gap) (hbottom : 0 ≤ bottom)
    (hx : bottom ≤ x.value) (hpath : Path bottom factor gap x times y)
    (htimes : ∀ now ∈ times, start ≤ now ∧ now ≤ start + span) :
    max bottom (x.value * factor ^ (1 + ⌊span / gap⌋₊)) ≤ y.value := by
  have hnone : Spent bottom factor gap start (start + span) x.value 0 x :=
    ⟨by simpa using hx, fun hk => absurd hk (lt_irrefl 0)⟩
  obtain ⟨k, hs⟩ := hnone.path hfactor hpath htimes
  have hpow : factor ^ (1 + ⌊span / gap⌋₊) ≤ factor ^ k :=
    pow_le_pow_of_le_one hfactor hone (hs.count_le hgap)
  have hvalue : x.value * factor ^ (1 + ⌊span / gap⌋₊) ≤ x.value * factor ^ k :=
    mul_le_mul_of_nonneg_left hpow (hbottom.trans hx)
  exact (max_le_max le_rfl hvalue).trans hs.kept

end PacedDecay
