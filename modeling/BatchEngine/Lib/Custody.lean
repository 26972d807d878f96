import Mathlib.Data.Multiset.AddSub
import Mathlib.Data.Multiset.Range
import Mathlib.Algebra.Order.Group.Multiset

/-!
# Custody of items

Items are admitted to a pool, held somewhere inside it and settled one by one. Who
holds them is left open: a move keeps the pool as it is, admits an item, or settles
one that is held.
-/

set_option autoImplicit false

namespace Custody

variable {α : Type*}

structure Pool (α : Type*) where
  admitted : Multiset α
  held : Multiset α
  settled : Multiset α

inductive Move : Pool α → Pool α → Prop
  | stay (p : Pool α) : Move p p
  | enter (p : Pool α) (a : α) : Move p ⟨a ::ₘ p.admitted, a ::ₘ p.held, p.settled⟩
  | settle (p : Pool α) (a : α) (held : Multiset α) (h : p.held = a ::ₘ held) :
      Move p ⟨p.admitted, held, a ::ₘ p.settled⟩

/-- Each admitted item is held or settled, as often as it was admitted. -/
def Balanced (p : Pool α) : Prop := p.admitted = p.held + p.settled

theorem Move.balanced {p q : Pool α} (h : Move p q) (hp : Balanced p) : Balanced q := by
  unfold Balanced at hp ⊢
  cases h with
  | stay => exact hp
  | enter a => rw [hp, Multiset.cons_add]
  | settle a held h => rw [hp, h, Multiset.cons_add, Multiset.add_cons]

/-- When nothing is held, exactly the admitted items are settled. -/
theorem Balanced.settled_eq {p : Pool α} (hp : Balanced p) (h : p.held = 0) :
    p.settled = p.admitted := by
  rw [hp, h, zero_add]

/-! ## Many holders

Items move between a queue and holders one holder at a time: what the holder gives up
and what it takes from the queue is what it keeps and what it settles. -/

theorem exchange {queue queue' popped sum sum' old new out : Multiset α}
    (hqueue : queue = popped + queue') (hsum : sum' + old = sum + new)
    (hholder : old + popped = new + out) : queue + sum = out + (queue' + sum') := by
  have hcancel : queue + sum + new = out + (queue' + sum') + new := by
    calc queue + sum + new = popped + queue' + (sum + new) := by rw [hqueue, add_assoc]
      _ = popped + queue' + (sum' + old) := by rw [hsum]
      _ = queue' + sum' + (old + popped) := by ac_rfl
      _ = queue' + sum' + (new + out) := by rw [hholder]
      _ = out + (queue' + sum') + new := by ac_rfl
  exact add_right_cancel hcancel

/-! ## Items dealt by number

The numbers `0`, `1`, … are dealt in this order and come back in another. While at most
`c` of them are out at a time, none comes back `c` places early. -/

/-- Of the first `dealt` numbers those in `order` are back, and the others are out. -/
structure Dealt (c : ℕ) (order : List ℕ) (out : Multiset ℕ) (dealt : ℕ) : Prop where
  all : (order : Multiset ℕ) + out = Multiset.range dealt
  early : ∀ k a, order[k]? = some a → a < k + c

namespace Dealt

variable {c dealt a : ℕ} {order : List ℕ} {out : Multiset ℕ}

theorem nodup (h : Dealt c order out dealt) : order.Nodup := by
  have hrange : ((order : Multiset ℕ) + out).Nodup := by
    rw [h.all]
    exact Multiset.nodup_range dealt
  exact Multiset.coe_nodup.mp (Multiset.nodup_add.mp hrange).1

theorem lt_of_mem (h : Dealt c order out dealt) (ha : a ∈ order) : a < dealt := by
  have hmem : a ∈ (order : Multiset ℕ) + out := Multiset.mem_add.mpr (Or.inl ha)
  rw [h.all] at hmem
  exact Multiset.mem_range.mp hmem

theorem not_mem_of_out (h : Dealt c order out dealt) (ha : a ∈ out) : a ∉ order := by
  have hrange : ((order : Multiset ℕ) + out).Nodup := by
    rw [h.all]
    exact Multiset.nodup_range dealt
  intro hback
  exact Multiset.disjoint_left.mp (Multiset.nodup_add.mp hrange).2.2 hback ha

theorem deal (h : Dealt c order out dealt) : Dealt c order (dealt ::ₘ out) (dealt + 1) where
  all := by rw [Multiset.add_cons, h.all, Multiset.range_succ]
  early := h.early

theorem back (h : Dealt c order (a ::ₘ out) dealt) (hcard : (a ::ₘ out).card ≤ c) :
    Dealt c (order ++ [a]) out dealt := by
  have hcount : order.length + (a ::ₘ out).card = dealt := by
    have hcards := congrArg Multiset.card h.all
    rwa [Multiset.card_add, Multiset.coe_card, Multiset.card_range] at hcards
  have ha : a < dealt := by
    have hmem : a ∈ (order : Multiset ℕ) + a ::ₘ out :=
      Multiset.mem_add.mpr (Or.inr (Multiset.mem_cons_self a out))
    rw [h.all] at hmem
    exact Multiset.mem_range.mp hmem
  constructor
  · rw [← h.all, ← Multiset.coe_add, Multiset.coe_singleton, add_assoc, Multiset.singleton_add]
  · intro k b hb
    by_cases hk : k < order.length
    · rw [List.getElem?_append_left hk] at hb
      exact h.early k b hb
    · have hlast : k < (order ++ [a]).length := (List.getElem?_eq_some_iff.mp hb).1
      rw [List.length_append, List.length_singleton] at hlast
      obtain rfl : k = order.length := by omega
      rw [List.getElem?_concat_length] at hb
      obtain rfl := Option.some.inj hb
      omega

/-- One at a time, they come back as they were dealt. -/
theorem eq_range (h : Dealt c order out dealt) (hc : c = 1) : order = List.range order.length := by
  have hle : ∀ k a : ℕ, order[k]? = some a → a ≤ k := by
    intro k a hk
    have hearly := h.early k a hk
    omega
  apply List.ext_getElem
  · exact List.length_range.symm
  intro k hk _
  rw [List.getElem_range]
  induction k using Nat.strong_induction_on with
  | h k ih =>
    have hbound : order[k] ≤ k := hle k order[k] (List.getElem?_eq_getElem hk)
    by_contra hne
    have hlt : order[k] < k := by omega
    have hback := ih order[k] hlt (hlt.trans hk) (by rw [List.length_range]; exact hlt.trans hk)
    have hsame : order[k] = k := (List.Nodup.getElem_inj_iff h.nodup).mp hback
    omega

end Dealt

end Custody
