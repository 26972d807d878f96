import Mathlib.Data.List.Basic
import Mathlib.Algebra.BigOperators.Group.Finset.Basic
import Mathlib.Algebra.BigOperators.Fin

/-!
# Runs of a partial step function

A machine is a partial step function on states and actions. A run is a list of
actions each of which the machine accepts. The rules below turn a fact about one
step into a fact about every run: an invariant, a quantity that each action moves
by a known amount, a history variable that observes the run without steering it.
Nothing here mentions a particular machine.
-/

set_option autoImplicit false

namespace Runs

universe u v w

variable {S : Type u} {A : Type v} {H : Type w} (step : S → A → Option S)

/-- The state after the actions, or `none` when one of them is not accepted. -/
def exec : S → List A → Option S
  | s, [] => some s
  | s, a :: as => (step s a).bind fun t => exec t as

@[simp] theorem exec_nil (s : S) : exec step s [] = some s := rfl

theorem exec_cons (s : S) (a : A) (as : List A) :
    exec step s (a :: as) = (step s a).bind fun t => exec step t as := rfl

variable {step}

theorem exec_cons_iff {s u : S} {a : A} {as : List A} :
    exec step s (a :: as) = some u ↔ ∃ t, step s a = some t ∧ exec step t as = some u := by
  rw [exec_cons, Option.bind_eq_some_iff]

theorem exec_append {as bs : List A} : ∀ {s u : S},
    exec step s (as ++ bs) = some u ↔ ∃ t, exec step s as = some t ∧ exec step t bs = some u := by
  induction as with
  | nil => intro s u; simp
  | cons a as ih =>
    intro s u
    rw [List.cons_append, exec_cons_iff]
    constructor
    · rintro ⟨t, ht, hu⟩
      obtain ⟨m, hm, hu⟩ := ih.mp hu
      exact ⟨m, exec_cons_iff.mpr ⟨t, ht, hm⟩, hu⟩
    · rintro ⟨m, hm, hu⟩
      obtain ⟨t, ht, hm⟩ := exec_cons_iff.mp hm
      exact ⟨t, ht, ih.mpr ⟨m, hm, hu⟩⟩

theorem exec_snoc {s u : S} {as : List A} {a : A} :
    exec step s (as ++ [a]) = some u ↔ ∃ t, exec step s as = some t ∧ step t a = some u := by
  rw [exec_append]
  simp [exec_cons]

/-! ## Invariants -/

/-- What holds at the start and is kept by every step with an allowed action
holds at the end of every run of allowed actions. -/
theorem exec_invariant {I : S → Prop} {P : A → Prop}
    (hstep : ∀ s a t, P a → I s → step s a = some t → I t)
    {as : List A} : ∀ {s u : S}, (∀ a ∈ as, P a) → I s →
      exec step s as = some u → I u := by
  induction as with
  | nil =>
    intro s u _ hs h
    obtain rfl := Option.some.inj h
    exact hs
  | cons a as ih =>
    intro s u hall hs h
    obtain ⟨t, ht, hu⟩ := exec_cons_iff.mp h
    have hat := hstep s a t (hall a List.mem_cons_self) hs ht
    exact ih (fun b hb => hall b (List.mem_cons_of_mem a hb)) hat hu

/-- The same rule when every action is allowed. -/
theorem exec_invariant' {I : S → Prop}
    (hstep : ∀ s a t, I s → step s a = some t → I t) {as : List A} {s u : S}
    (hs : I s) (h : exec step s as = some u) : I u :=
  exec_invariant (P := fun _ => True) (fun s a t _ => hstep s a t) (fun _ _ => trivial) hs h

/-- A transitive relation between the two ends of each step relates the two ends
of a run. -/
theorem exec_rel {R : S → S → Prop} (hrefl : ∀ s, R s s)
    (htrans : ∀ s t u, R s t → R t u → R s u)
    (hstep : ∀ s a t, step s a = some t → R s t) {as : List A} :
    ∀ {s u : S}, exec step s as = some u → R s u := by
  induction as with
  | nil =>
    intro s u h
    obtain rfl := Option.some.inj h
    exact hrefl s
  | cons a as ih =>
    intro s u h
    obtain ⟨t, ht, hu⟩ := exec_cons_iff.mp h
    exact htrans s t u (hstep s a t ht) (ih hu)

/-- If each step adds to `f` what its action is worth, a run adds the sum. The
invariant may restrict the states in which the step law holds. -/
theorem exec_additive {M : Type*} [AddMonoid M] {f : S → M} {g : A → M} {I : S → Prop}
    (hinv : ∀ s a t, I s → step s a = some t → I t)
    (hstep : ∀ s a t, I s → step s a = some t → f t = f s + g a) {as : List A} :
    ∀ {s u : S}, I s → exec step s as = some u → f u = f s + (as.map g).sum := by
  induction as with
  | nil =>
    intro s u _ h
    obtain rfl := Option.some.inj h
    simp
  | cons a as ih =>
    intro s u hs h
    obtain ⟨t, ht, hu⟩ := exec_cons_iff.mp h
    rw [ih (hinv s a t hs ht) hu, hstep s a t hs ht, List.map_cons, List.sum_cons, add_assoc]

/-- A rank that every step lowers bounds the length of a run. -/
theorem exec_length_le {f : S → ℕ} (hstep : ∀ s a t, step s a = some t → f t < f s) {as : List A} :
    ∀ {s u : S}, exec step s as = some u → as.length + f u ≤ f s := by
  induction as with
  | nil =>
    intro s u h
    obtain rfl := Option.some.inj h
    exact (Nat.zero_add _).le
  | cons a as ih =>
    intro s u h
    obtain ⟨t, ht, hu⟩ := exec_cons_iff.mp h
    have hrest := ih hu
    have hfirst := hstep s a t ht
    rw [List.length_cons]
    omega

/-! ## Conditions on the steps of a run -/

variable (step) in
/-- Every step of the run is taken in a state, and with an action, that meet `Q`. -/
def Along (Q : S → A → Prop) : S → List A → Prop
  | _, [] => True
  | s, a :: as => Q s a ∧ ∀ t, step s a = some t → Along Q t as

/-- A condition that can be decided at each step can be decided along a run. -/
instance decidableAlong {Q : S → A → Prop} [∀ s a, Decidable (Q s a)] :
    ∀ (as : List A) (s : S), Decidable (Along step Q s as)
  | [], _ => .isTrue trivial
  | a :: as, s =>
    have : ∀ t, Decidable (Along step Q t as) := decidableAlong as
    inferInstanceAs (Decidable (Q s a ∧ ∀ t ∈ step s a, Along step Q t as))

/-- The condition holds wherever the run has come to. -/
theorem Along.apply {Q : S → A → Prop} {as : List A} {a : A} {bs : List A} : ∀ {s t : S},
    Along step Q s (as ++ a :: bs) → exec step s as = some t → Q t a := by
  induction as with
  | nil =>
    intro s t hall hrun
    obtain rfl := Option.some.inj hrun
    exact hall.1
  | cons b as ih =>
    intro s t hall hrun
    obtain ⟨u, hu, ht⟩ := exec_cons_iff.mp hrun
    exact ih (hall.2 u hu) ht

theorem Along.start {Q : S → A → Prop} {as bs : List A} : ∀ {s : S},
    Along step Q s (as ++ bs) → Along step Q s as := by
  induction as with
  | nil => exact fun _ => trivial
  | cons a as ih => exact fun hall => ⟨hall.1, fun t ht => ih (hall.2 t ht)⟩

/-- A condition on the actions alone. -/
theorem Along.of_forall {Q : S → A → Prop} {as : List A} (h : ∀ a ∈ as, ∀ s, Q s a) :
    ∀ {s : S}, Along step Q s as := by
  induction as with
  | nil => exact fun {_} => trivial
  | cons a as ih =>
    intro s
    exact ⟨h a List.mem_cons_self s,
      fun _ _ => ih fun b hb => h b (List.mem_cons_of_mem a hb)⟩

theorem along_congr {P Q : S → A → Prop} (h : ∀ s a, P s a ↔ Q s a) {as : List A} :
    ∀ {s : S}, Along step P s as ↔ Along step Q s as := by
  induction as with
  | nil => exact Iff.rfl
  | cons a as ih =>
    intro s
    exact and_congr (h s a) (forall_congr' fun t => imp_congr_right fun _ => ih)

theorem along_and {P Q : S → A → Prop} {as : List A} : ∀ {s : S},
    Along step (fun s a => P s a ∧ Q s a) s as ↔ Along step P s as ∧ Along step Q s as := by
  induction as with
  | nil => exact fun {_} => (and_self_iff (a := True)).symm
  | cons a as ih =>
    intro s
    simp only [Along, ih, forall_and]
    exact and_and_and_comm

/-- A run that meets `Q` keeps what `Q` preserves, and so meets what follows from both. -/
theorem Along.of_invariant {I : S → Prop} {P Q : S → A → Prop}
    (hinv : ∀ s a t, I s → Q s a → step s a = some t → I t)
    (himp : ∀ s a, I s → Q s a → P s a) {as : List A} :
    ∀ {s : S}, I s → Along step Q s as → Along step P s as := by
  induction as with
  | nil => exact fun _ _ => trivial
  | cons a as ih =>
    intro s hs hall
    refine ⟨himp s a hs hall.1, fun t ht => ?_⟩
    exact ih (hinv s a t hs hall.1 ht) (hall.2 t ht)

/-- What the allowed steps preserve holds at the end of a run of allowed steps. -/
theorem Along.invariant {I : S → Prop} {Q : S → A → Prop}
    (hinv : ∀ s a t, I s → Q s a → step s a = some t → I t) {as : List A} : ∀ {s u : S},
    I s → Along step Q s as → exec step s as = some u → I u := by
  induction as with
  | nil =>
    intro s u hs _ h
    obtain rfl := Option.some.inj h
    exact hs
  | cons a as ih =>
    intro s u hs hall h
    obtain ⟨t, ht, hu⟩ := exec_cons_iff.mp h
    exact ih (hinv s a t hs hall.1 ht) (hall.2 t ht) hu

/-- Two conditions that agree wherever the invariant holds are met by the same runs. -/
theorem along_iff_of_invariant {I : S → Prop} {P Q : S → A → Prop}
    (hinv : ∀ s a t, I s → step s a = some t → I t) (hiff : ∀ s a, I s → (P s a ↔ Q s a))
    {as : List A} {s : S} (hs : I s) : Along step P s as ↔ Along step Q s as :=
  ⟨Along.of_invariant (fun s a t hs _ => hinv s a t hs) (fun s a hs => (hiff s a hs).mp) hs,
    Along.of_invariant (fun s a t hs _ => hinv s a t hs) (fun s a hs => (hiff s a hs).mpr) hs⟩

theorem Along.rest {Q : S → A → Prop} {as bs : List A} : ∀ {s t : S},
    Along step Q s (as ++ bs) → exec step s as = some t → Along step Q t bs := by
  induction as with
  | nil =>
    intro s t hall hrun
    obtain rfl := Option.some.inj hrun
    exact hall
  | cons a as ih =>
    intro s t hall hrun
    obtain ⟨u, hu, ht⟩ := exec_cons_iff.mp hrun
    exact ih (hall.2 u hu) ht

/-- What is transitive and holds between the ends of each step holds between the ends of a
run. The invariant may restrict the states in which it is reflexive. -/
theorem Along.rel {I : S → Prop} {R : S → S → Prop}
    (hinv : ∀ s a t, I s → step s a = some t → I t) (hrefl : ∀ s, I s → R s s)
    (htrans : ∀ s t u, R s t → R t u → R s u) {as : List A} : ∀ {s u : S}, I s →
    Along step (fun s a => ∀ t, step s a = some t → R s t) s as → exec step s as = some u →
    R s u := by
  induction as with
  | nil =>
    intro s u hs _ h
    obtain rfl := Option.some.inj h
    exact hrefl s hs
  | cons a as ih =>
    intro s u hs hall h
    obtain ⟨t, ht, hu⟩ := exec_cons_iff.mp h
    exact htrans s t u (hall.1 t ht) (ih (hinv s a t hs ht) (hall.2 t ht) hu)

/-- A preorder relates every earlier state of a run to every later one exactly if it relates
the ends of each step. -/
theorem pairs_iff_along {I : S → Prop} {R : S → S → Prop}
    (hinv : ∀ s a t, I s → step s a = some t → I t) (hrefl : ∀ s, I s → R s s)
    (htrans : ∀ s t u, R s t → R t u → R s u) {as : List A} {s : S} (hs : I s) :
    (∀ before later rest t u, as = before ++ (later ++ rest) → exec step s before = some t →
        exec step t later = some u → R t u) ↔
      Along step (fun s a => ∀ t, step s a = some t → R s t) s as := by
  constructor
  · intro hpairs
    induction as generalizing s with
    | nil => exact trivial
    | cons a as ih =>
      refine ⟨fun t ht => ?_, fun t ht => ih (hinv s a t hs ht) ?_⟩
      · exact hpairs [] [a] as s t rfl rfl (exec_cons_iff.mpr ⟨t, ht, rfl⟩)
      · rintro before later rest v u rfl hv hu
        exact hpairs (a :: before) later rest v u rfl (exec_cons_iff.mpr ⟨t, ht, hv⟩) hu
  · rintro hall before later rest t u rfl ht hu
    have hrest := hall.rest ht
    exact (hrest.start).rel hinv hrefl htrans (exec_invariant' hinv hs ht) hu

/-- A flaw that exactly the steps off `Q` introduce, and that no step removes, is absent
at the end of a run exactly if the run stayed on `Q`. -/
theorem flawless_iff_along {D I : S → Prop} {Q : S → A → Prop}
    (hinv : ∀ s a t, I s → step s a = some t → I t)
    (hstep : ∀ s a t, I s → step s a = some t → (D t ↔ D s ∨ ¬ Q s a)) {as : List A} :
    ∀ {s u : S}, I s → exec step s as = some u → (¬ D u ↔ ¬ D s ∧ Along step Q s as) := by
  induction as with
  | nil =>
    intro s u _ h
    obtain rfl := Option.some.inj h
    simp [Along]
  | cons a as ih =>
    intro s u hs h
    obtain ⟨t, ht, hu⟩ := exec_cons_iff.mp h
    have honly : (∀ t', step s a = some t' → Along step Q t' as) ↔ Along step Q t as := by
      rw [ht]
      exact ⟨fun hall => hall t rfl, fun hall t' ht' => Option.some.inj ht' ▸ hall⟩
    rw [ih (hinv s a t hs ht) hu, hstep s a t hs ht, Along, honly]
    tauto

/-! ## History variables -/

variable (step) in
/-- The machine that also carries a history, updated from the state before the
step, the action and the state after it. -/
def withHistory (upd : S → A → S → H → H) (p : S × H) (a : A) : Option (S × H) :=
  (step p.1 a).map fun t => (t, upd p.1 a t p.2)

variable {upd : S → A → S → H → H}

theorem withHistory_some {p q : S × H} {a : A} :
    withHistory step upd p a = some q ↔ step p.1 a = some q.1 ∧ q.2 = upd p.1 a q.1 p.2 := by
  unfold withHistory
  rw [Option.map_eq_some_iff]
  constructor
  · rintro ⟨t, ht, rfl⟩
    exact ⟨ht, rfl⟩
  · rintro ⟨ht, hq⟩
    exact ⟨q.1, ht, by rw [← hq]⟩

/-- A run of the machine with history is a run of the machine. -/
theorem exec_of_withHistory {as : List A} : ∀ {p q : S × H},
    exec (withHistory step upd) p as = some q → exec step p.1 as = some q.1 := by
  induction as with
  | nil =>
    intro p q h
    obtain rfl := Option.some.inj h
    rfl
  | cons a as ih =>
    intro p q h
    obtain ⟨r, hr, hq⟩ := exec_cons_iff.mp h
    exact exec_cons_iff.mpr ⟨r.1, (withHistory_some.mp hr).1, ih hq⟩

/-- Every run of the machine is observed by the history. -/
theorem exec_withHistory {as : List A} : ∀ {s u : S} (h : H), exec step s as = some u →
    ∃ k, exec (withHistory step upd) (s, h) as = some (u, k) := by
  induction as with
  | nil =>
    intro s u h hu
    obtain rfl := Option.some.inj hu
    exact ⟨h, rfl⟩
  | cons a as ih =>
    intro s u h hu
    obtain ⟨t, ht, hu⟩ := exec_cons_iff.mp hu
    obtain ⟨k, hk⟩ := ih (upd s a t h) hu
    exact ⟨k, exec_cons_iff.mpr ⟨(t, upd s a t h), withHistory_some.mpr ⟨ht, rfl⟩, hk⟩⟩

/-! ## Indexed agents

A system with one local state per agent changes one of them at a time. A quantity
summed over the agents moves by the difference at that agent. -/

section Agents

variable {ι α M : Type*} [Fintype ι] [DecidableEq ι] [AddCommMonoid M]

theorem sum_update_add (p : ι → α) (g : α → M) (i : ι) (x : α) :
    (∑ j, g (Function.update p i x j)) + g (p i) = (∑ j, g (p j)) + g x := by
  rw [← Finset.add_sum_erase _ _ (Finset.mem_univ i),
    ← Finset.add_sum_erase (a := i) Finset.univ (fun j => g (p j)) (Finset.mem_univ i)]
  have hrest : ∑ j ∈ Finset.univ.erase i, g (Function.update p i x j) =
      ∑ j ∈ Finset.univ.erase i, g (p j) := by
    apply Finset.sum_congr rfl
    intro j hj
    rw [Function.update_of_ne (Finset.ne_of_mem_erase hj)]
  rw [hrest, Function.update_self, add_comm (g x), add_comm (g (p i)) (Finset.sum _ _),
    add_right_comm]

end Agents

end Runs
