import BatchEngine.Lib.Dict
import BatchEngine.Lib.Runs

/-!
# Machines under keys

A host runs machines of one kind under distinct keys. An action of the host is heard by
some of them as messages, in an order, and nothing else moves a machine. Then what each
machine does is a run over the messages that it heard.
-/

set_option autoImplicit false

namespace Fleet

universe u v w x

variable {S : Type u} {A : Type v} {M : Type w} {B : Type x}
variable {step : S → A → Option S} {move : M → B → Option M}
variable {I : S → Prop}

/-! ## One machine in a run of the host

`member` finds the machine, and `heard` is what it hears of an action. -/

section Member

variable (move) (member : S → Option M) (heard : A → List B) (P : A → Prop)

/-- A machine was there from the start, or some action made it; since then it has moved over
exactly the messages that it heard. -/
theorem exec_origin (Born : S → A → M → Prop) (hinv : ∀ s a t, I s → step s a = some t → I t)
    (hstep : ∀ s a t m', I s → step s a = some t → member t = some m' →
      (P a ∧ ∃ m, member s = some m ∧ Runs.exec move m (heard a) = some m') ∨ Born s a m')
    {s : S} (hs : I s) (as : List A) : ∀ {t : S} {m' : M}, Runs.exec step s as = some t →
      member t = some m' →
      (∃ m, member s = some m ∧ Runs.exec move m (as.flatMap heard) = some m') ∨
      ∃ before a after u m, as = before ++ a :: after ∧ (∀ b ∈ after, P b) ∧
        Runs.exec step s before = some u ∧ Born u a m ∧
        Runs.exec move m (after.flatMap heard) = some m' := by
  induction as using List.reverseRecOn with
  | nil =>
    intro t m' h hm
    obtain rfl := Option.some.inj h
    exact Or.inl ⟨m', hm, rfl⟩
  | append_singleton as a ih =>
    intro t m' h hm
    obtain ⟨u, hu, ht⟩ := Runs.exec_snoc.mp h
    rcases hstep u a t m' (Runs.exec_invariant' hinv hs hu) ht hm with ⟨ha, m₁, hm₁, hmove⟩ | hborn
    · have hlast : ∀ {m : M} {bs : List A}, Runs.exec move m (bs.flatMap heard) = some m₁ →
          Runs.exec move m ((bs ++ [a]).flatMap heard) = some m' := by
        intro m bs hbs
        rw [List.flatMap_append, List.flatMap_singleton]
        exact Runs.exec_append.mpr ⟨m₁, hbs, hmove⟩
      rcases ih hu hm₁ with ⟨m, hstart, hrun⟩ | ⟨before, b, after, v, m, rfl, hall, hv, hborn, hrun⟩
      · exact Or.inl ⟨m, hstart, hlast hrun⟩
      · refine Or.inr ⟨before, b, after ++ [a], v, m, List.append_assoc _ _ _, ?_, hv, hborn,
          hlast hrun⟩
        intro c hc
        rcases List.mem_append.mp hc with hc | hc
        · exact hall c hc
        · exact List.mem_singleton.mp hc ▸ ha
    · exact Or.inr ⟨as, a, [], u, m', rfl, fun b hb => absurd hb List.not_mem_nil, hu, hborn, rfl⟩

end Member

/-! ## A message to every machine -/

variable {κ : Type*}

variable (move) in
/-- Each of the machines takes the message. -/
def broadcast (b : B) : List (κ × M) → Option (List (κ × M))
  | [] => some []
  | (k, m) :: fleet =>
    (move m b).bind fun m' => (broadcast b fleet).map fun fleet' => (k, m') :: fleet'

theorem broadcast_cons {b : B} {k : κ} {m : M} {fleet fleet' : List (κ × M)} :
    broadcast move b ((k, m) :: fleet) = some fleet' ↔ ∃ m' rest, move m b = some m' ∧
      broadcast move b fleet = some rest ∧ fleet' = (k, m') :: rest := by
  rw [broadcast, Option.bind_eq_some_iff]
  constructor
  · rintro ⟨m', hm, h⟩
    obtain ⟨rest, hrest, rfl⟩ := Option.map_eq_some_iff.mp h
    exact ⟨m', rest, hm, hrest, rfl⟩
  · rintro ⟨m', rest, hm, hrest, rfl⟩
    exact ⟨m', hm, Option.map_eq_some_iff.mpr ⟨rest, hrest, rfl⟩⟩

theorem keys_broadcast {b : B} {fleet : List (κ × M)} : ∀ {fleet' : List (κ × M)},
    broadcast move b fleet = some fleet' → fleet'.map Prod.fst = fleet.map Prod.fst := by
  induction fleet with
  | nil =>
    intro fleet' h
    obtain rfl := Option.some.inj h
    rfl
  | cons p fleet ih =>
    intro fleet' h
    obtain ⟨m', rest, -, hrest, rfl⟩ := broadcast_cons.mp h
    rw [List.map_cons, ih hrest, List.map_cons]

theorem get?_broadcast [DecidableEq κ] {b : B} {k : κ} {m : M} {fleet : List (κ × M)} :
    ∀ {fleet' : List (κ × M)}, broadcast move b fleet = some fleet' →
      Dict.get? fleet k = some m →
      ∃ m', move m b = some m' ∧ Dict.get? fleet' k = some m' := by
  induction fleet with
  | nil => exact fun _ hm => by cases hm
  | cons p fleet ih =>
    intro fleet' h hm
    obtain ⟨k₀, m₀⟩ := p
    obtain ⟨m', rest, hmove, hrest, rfl⟩ := broadcast_cons.mp h
    by_cases hk : k₀ = k
    · rw [Dict.get?, if_pos hk] at hm ⊢
      obtain rfl := Option.some.inj hm
      exact ⟨m', hmove, rfl⟩
    · rw [Dict.get?, if_neg hk] at hm ⊢
      exact ih hrest hm

end Fleet
