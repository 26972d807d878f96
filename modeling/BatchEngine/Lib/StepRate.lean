import Mathlib.MeasureTheory.Integral.IntervalIntegral.Basic

/-!
# Rates that change at finitely many instants

A timeline lists instants with the rate that comes into force there. `valueAt` is
the rate in force at an instant and `area` is the exact amount that a source
running at that rate delivers between two instants, computed by arithmetic alone.
Over the reals `area` is the integral of `valueAt`.
-/

set_option autoImplicit false

namespace StepRate

section Arithmetic

variable {K : Type*} [Field K] [LinearOrder K]

/-- The rate in force at `x`, when `v` is in force before the first change. -/
def valueAt : K → List (K × K) → K → K
  | v, [], _ => v
  | v, (τ, v') :: rest, x => if x < τ then v else valueAt v' rest x

/-- What the rate delivers from `s` to `t`. -/
def area : K → List (K × K) → K → K → K
  | v, [], s, t => v * (t - s)
  | v, (τ, v') :: rest, s, t =>
    if τ < s then area v' rest s t
    else if t < τ then v * (t - s)
    else v * (τ - s) + area v' rest τ t

variable [IsStrictOrderedRing K]

theorem area_nonneg {v : K} {line : List (K × K)} (hv : 0 ≤ v) (hl : ∀ p ∈ line, 0 ≤ p.2) :
    ∀ {s t : K}, s ≤ t → 0 ≤ area v line s t := by
  induction line generalizing v with
  | nil =>
    intro s t hst
    exact mul_nonneg hv (sub_nonneg.mpr hst)
  | cons p rest ih =>
    intro s t hst
    obtain ⟨τ, v'⟩ := p
    have hv' : 0 ≤ v' := hl (τ, v') List.mem_cons_self
    have hrest : ∀ p ∈ rest, 0 ≤ p.2 := fun p hp => hl p (List.mem_cons_of_mem _ hp)
    unfold area
    split_ifs with h1 h2
    · exact ih hv' hrest hst
    · exact mul_nonneg hv (sub_nonneg.mpr hst)
    · exact add_nonneg (mul_nonneg hv (sub_nonneg.mpr (not_lt.mp h1)))
        (ih hv' hrest (not_lt.mp h2))

/-- Starting earlier, before any change, only adds. -/
theorem area_anti_left {v : K} {line : List (K × K)} (hv : 0 ≤ v) {s u t : K} (hsu : s ≤ u)
    (hline : ∀ p ∈ line, u ≤ p.1) : area v line u t ≤ area v line s t := by
  cases line with
  | nil => exact mul_le_mul_of_nonneg_left (by linarith) hv
  | cons p rest =>
    obtain ⟨τ, v'⟩ := p
    have hτ : u ≤ τ := hline (τ, v') List.mem_cons_self
    have hmul : v * (τ - u) ≤ v * (τ - s) := mul_le_mul_of_nonneg_left (by linarith) hv
    have hmul' : v * (t - u) ≤ v * (t - s) := mul_le_mul_of_nonneg_left (by linarith) hv
    unfold area
    rw [if_neg (not_lt.mpr hτ), if_neg (not_lt.mpr (hsu.trans hτ))]
    split_ifs
    · exact hmul'
    · linarith

end Arithmetic

/-! ## The integral -/

open MeasureTheory intervalIntegral Set

theorem measurable_valueAt (v : ℝ) (line : List (ℝ × ℝ)) : Measurable (valueAt v line) := by
  induction line generalizing v with
  | nil => exact measurable_const
  | cons p rest ih => exact Measurable.ite measurableSet_Iio measurable_const (ih p.2)

theorem valueAt_bounded (v : ℝ) (line : List (ℝ × ℝ)) : ∃ C, ∀ x, ‖valueAt v line x‖ ≤ C := by
  induction line generalizing v with
  | nil => exact ⟨‖v‖, fun _ => le_refl _⟩
  | cons p rest ih =>
    obtain ⟨C, hC⟩ := ih p.2
    refine ⟨max ‖v‖ C, fun x => ?_⟩
    unfold valueAt
    split_ifs
    · exact le_max_left _ _
    · exact (hC x).trans (le_max_right _ _)

theorem intervalIntegrable_valueAt (v : ℝ) (line : List (ℝ × ℝ)) (s t : ℝ) :
    IntervalIntegrable (valueAt v line) volume s t := by
  obtain ⟨C, hC⟩ := valueAt_bounded v line
  have hfin : volume (uIoc s t) ≠ ⊤ := by simp [uIoc]
  rw [intervalIntegrable_iff]
  exact Measure.integrableOn_of_bounded hfin (measurable_valueAt v line).aestronglyMeasurable
    (Filter.Eventually.of_forall hC)

/-- On a timeline in time order the area is the integral of the rate in force. -/
theorem area_eq_integral {line : List (ℝ × ℝ)} (hline : (line.map Prod.fst).Pairwise (· ≤ ·)) :
    ∀ {v s t : ℝ}, s ≤ t → area v line s t = ∫ x in s..t, valueAt v line x := by
  induction line with
  | nil =>
    intro v s t _
    have hconst : (fun x => valueAt v [] x) = fun _ => v := rfl
    rw [hconst, intervalIntegral.integral_const, smul_eq_mul, mul_comm]
    rfl
  | cons p rest ih =>
    obtain ⟨τ, v'⟩ := p
    intro v s t hst
    have hsorted := List.pairwise_cons.mp hline
    unfold area
    split_ifs with h1 h2
    · rw [ih hsorted.2 hst]
      apply integral_congr
      intro x hx
      rw [uIcc_of_le hst] at hx
      have hx' : ¬ x < τ := not_lt.mpr (h1.le.trans hx.1)
      simp only [valueAt, hx', ↓reduceIte]
    · have hconst : ∫ x in s..t, valueAt v ((τ, v') :: rest) x = ∫ _ in s..t, v := by
        apply integral_congr
        intro x hx
        rw [uIcc_of_le hst] at hx
        have hx' : x < τ := hx.2.trans_lt h2
        simp only [valueAt, hx', ↓reduceIte]
      rw [hconst, intervalIntegral.integral_const, smul_eq_mul, mul_comm]
    · have hsτ : s ≤ τ := not_lt.mp h1
      have hτt : τ ≤ t := not_lt.mp h2
      -- The two pieces differ from constants and from the rest only at `τ` itself.
      have hleft : ∫ x in s..τ, valueAt v ((τ, v') :: rest) x = ∫ _ in s..τ, v := by
        apply integral_congr_Ioo_of_le hsτ
        intro x hx
        simp only [valueAt, hx.2, ↓reduceIte]
      have hright : ∫ x in τ..t, valueAt v ((τ, v') :: rest) x = ∫ x in τ..t, valueAt v' rest x := by
        apply integral_congr_Ioo_of_le hτt
        intro x hx
        simp only [valueAt, not_lt.mpr hx.1.le, ↓reduceIte]
      rw [← integral_add_adjacent_intervals (intervalIntegrable_valueAt v _ s τ)
        (intervalIntegrable_valueAt v _ τ t), hleft, hright, ih hsorted.2 hτt,
        intervalIntegral.integral_const, smul_eq_mul, mul_comm]

end StepRate
