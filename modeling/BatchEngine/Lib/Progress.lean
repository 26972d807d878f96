import BatchEngine.Lib.Runs

/-!
# Rank arguments for runs

A rank that no step raises, and that every step but the idle ones lowers, bounds the work
of every run. If moreover some run lowers it wherever the goal is not reached, the goal
can be reached from everywhere.
-/

set_option autoImplicit false

namespace Runs

universe u v

variable {S : Type u} {A : Type v} {step : S → A → Option S}

theorem Along.append {Q : S → A → Prop} {as bs : List A} : ∀ {s : S}, Along step Q s as →
    (∀ t, exec step s as = some t → Along step Q t bs) → Along step Q s (as ++ bs) := by
  induction as with
  | nil => exact fun _ hrest => hrest _ rfl
  | cons a as ih =>
    intro s hall hrest
    refine ⟨hall.1, fun t ht => ih (hall.2 t ht) fun u hu => ?_⟩
    exact hrest u (exec_cons_iff.mpr ⟨t, ht, hu⟩)

variable (step) in
/-- The machine that counts its steps, the idle ones left out. -/
def labouring (idle : S → A → S → Bool) : S × ℕ → A → Option (S × ℕ) :=
  withHistory step fun s a t count => if idle s a t then count else count + 1

/-- The steps that are not idle and the rank that is left are at most the rank at the
start. -/
theorem labour_le (I : S → Prop) (idle : S → A → S → Bool) (rank : S → ℕ)
    (hinv : ∀ s a t, I s → step s a = some t → I t)
    (hidle : ∀ s a t, I s → step s a = some t → idle s a t = true → rank t ≤ rank s)
    (hwork : ∀ s a t, I s → step s a = some t → idle s a t = false → rank t < rank s)
    {as : List A} : ∀ {s u : S} {k m : ℕ}, I s →
    exec (labouring step idle) (s, k) as = some (u, m) → m + rank u ≤ k + rank s := by
  induction as with
  | nil =>
    intro s u k m _ h
    obtain ⟨rfl, rfl⟩ := Prod.mk.inj (Option.some.inj h)
    exact le_rfl
  | cons a as ih =>
    intro s u k m hs h
    obtain ⟨⟨t, j⟩, ht, hu⟩ := exec_cons_iff.mp h
    obtain ⟨hstep, hcount⟩ := withHistory_some.mp ht
    have hlater := ih (hinv s a t hs hstep) hu
    simp only at hcount hstep
    cases hcase : idle s a t with
    | true =>
      rw [hcase, if_pos rfl] at hcount
      have hfirst := hidle s a t hs hstep hcase
      omega
    | false =>
      rw [hcase, if_neg Bool.false_ne_true] at hcount
      have hfirst := hwork s a t hs hstep hcase
      omega

/-- Where the goal is not reached some run lowers the rank, so some run reaches it. -/
theorem exec_to_goal (I goal : S → Prop) (Q : S → A → Prop) (rank : S → ℕ)
    (hmove : ∀ s, I s → ¬ goal s →
      ∃ as t, exec step s as = some t ∧ Along step Q s as ∧ I t ∧ rank t < rank s) {s : S}
    (hs : I s) : ∃ as t, exec step s as = some t ∧ Along step Q s as ∧ I t ∧ goal t := by
  induction hrank : rank s using Nat.strong_induction_on generalizing s with
  | h n ih =>
    by_cases hgoal : goal s
    · exact ⟨[], s, rfl, trivial, hs, hgoal⟩
    · obtain ⟨as, t, hrun, hall, ht, hlower⟩ := hmove s hs hgoal
      obtain ⟨bs, u, hrun', hall', hu, hreached⟩ := ih (rank t) (hrank ▸ hlower) ht rfl
      refine ⟨as ++ bs, u, exec_append.mpr ⟨t, hrun, hrun'⟩, hall.append ?_, hu, hreached⟩
      intro t' ht'
      obtain rfl := Option.some.inj (hrun.symm.trans ht')
      exact hall'

end Runs
