import Mathlib.Data.List.Basic
import Mathlib.Algebra.BigOperators.Group.List.Basic
import Mathlib.Algebra.GroupWithZero.Nat

/-!
# Insertion-ordered dictionaries

An association list with the update of a dictionary that remembers insertion
order: writing a present key keeps its place, writing a new key appends it.
-/

set_option autoImplicit false

namespace Dict

variable {κ ν : Type*}

/-- `sum(d.values())`. -/
def total (d : List (κ × ℕ)) : ℕ := (d.map Prod.snd).sum

@[simp] theorem total_nil : total ([] : List (κ × ℕ)) = 0 := rfl

@[simp] theorem total_cons (p : κ × ℕ) (d : List (κ × ℕ)) :
    total (p :: d) = p.2 + total d := by
  simp [total]

variable [DecidableEq κ]

/-- `d.get(k)`. -/
def get? : List (κ × ν) → κ → Option ν
  | [], _ => none
  | (k', v) :: d, k => if k' = k then some v else get? d k

/-- `d[k] = v`. -/
def set : List (κ × ν) → κ → ν → List (κ × ν)
  | [], k, v => [(k, v)]
  | (k', v') :: d, k, v => if k' = k then (k', v) :: d else (k', v') :: set d k v

/-- `d[k] = d.get(k, 0) + 1`. -/
def bump (d : List (κ × ℕ)) (k : κ) : List (κ × ℕ) := set d k ((get? d k).getD 0 + 1)

theorem mem_of_get? {d : List (κ × ν)} {k : κ} {v : ν} (h : get? d k = some v) : (k, v) ∈ d := by
  induction d with
  | nil => cases h
  | cons p d ih =>
    obtain ⟨k', v'⟩ := p
    unfold get? at h
    split at h
    · rename_i hk
      obtain rfl := Option.some.inj h
      rw [hk]
      exact List.mem_cons_self
    · exact List.mem_cons_of_mem _ (ih h)

theorem get?_eq_none_iff {d : List (κ × ν)} {k : κ} :
    get? d k = none ↔ k ∉ d.map Prod.fst := by
  induction d with
  | nil => exact iff_of_true rfl List.not_mem_nil
  | cons p d ih =>
    obtain ⟨k', v'⟩ := p
    rw [get?, List.map_cons, List.mem_cons, not_or]
    by_cases hk : k' = k
    · rw [if_pos hk]
      exact iff_of_false (Option.some_ne_none v') fun h => h.1 hk.symm
    · rw [if_neg hk, ih]
      exact (and_iff_right fun h => hk h.symm).symm

/-- Writing `v` under `k` exchanges the old value of `k`, if any, for `v`. -/
theorem total_set (d : List (κ × ℕ)) (k : κ) (v : ℕ) :
    total (set d k v) + (get? d k).getD 0 = total d + v := by
  induction d with
  | nil => simp [set, get?, total]
  | cons p d ih =>
    obtain ⟨k', v'⟩ := p
    by_cases hk : k' = k
    · simp only [set, get?, hk, ↓reduceIte, total_cons, Option.getD_some]
      omega
    · simp only [set, get?, hk, ↓reduceIte, total_cons]
      omega

@[simp] theorem total_bump (d : List (κ × ℕ)) (k : κ) : total (bump d k) = total d + 1 := by
  have h := total_set d k ((get? d k).getD 0 + 1)
  unfold bump
  omega

/-- Writing under `k` adds no other key. -/
theorem mem_keys_set {d : List (κ × ν)} {k k' : κ} {v : ν} (h : k' ∈ (set d k v).map Prod.fst) :
    k' = k ∨ k' ∈ d.map Prod.fst := by
  induction d with
  | nil => exact Or.inl (List.mem_singleton.mp h)
  | cons p d ih =>
    obtain ⟨k₀, v₀⟩ := p
    unfold set at h
    split at h
    · exact Or.inr h
    · rcases List.mem_cons.mp h with h | h
      · exact Or.inr (h ▸ List.mem_cons_self)
      · exact (ih h).imp_right (List.mem_cons_of_mem _)

/-- The last value written under a key is what is read. -/
theorem get?_set (d : List (κ × ν)) (k k' : κ) (v : ν) :
    get? (set d k v) k' = if k = k' then some v else get? d k' := by
  induction d with
  | nil => rfl
  | cons p d ih =>
    obtain ⟨k₀, v₀⟩ := p
    by_cases hk : k₀ = k
    · subst hk
      rw [set, if_pos rfl, get?, get?]
      split <;> rfl
    · rw [set, if_neg hk, get?, get?, ih]
      by_cases hk' : k₀ = k'
      · rw [if_pos hk', if_pos hk', if_neg fun h => hk (hk'.trans h.symm)]
      · rw [if_neg hk', if_neg hk']

theorem set_of_not_mem {d : List (κ × ν)} {k : κ} (h : k ∉ d.map Prod.fst) (v : ν) :
    set d k v = d ++ [(k, v)] := by
  induction d with
  | nil => rfl
  | cons p d ih =>
    obtain ⟨k₀, v₀⟩ := p
    have hne : k₀ ≠ k := fun hk => h (hk ▸ List.mem_cons_self)
    rw [set, if_neg hne, ih fun hmem => h (List.mem_cons_of_mem _ hmem)]
    rfl

theorem keys_set_of_mem {d : List (κ × ν)} {k : κ} (h : k ∈ d.map Prod.fst) (v : ν) :
    (set d k v).map Prod.fst = d.map Prod.fst := by
  induction d with
  | nil => exact absurd h List.not_mem_nil
  | cons p d ih =>
    obtain ⟨k₀, v₀⟩ := p
    by_cases hk : k₀ = k
    · rw [set, if_pos hk]
      rfl
    · have hmem : k ∈ d.map Prod.fst := (List.mem_cons.mp h).resolve_left fun h => hk h.symm
      rw [set, if_neg hk, List.map_cons, ih hmem]
      rfl

/-- Writing under a key that is there keeps the keys; another is appended to them. -/
theorem keys_set (d : List (κ × ν)) (k : κ) (v : ν) : (set d k v).map Prod.fst =
    if k ∈ d.map Prod.fst then d.map Prod.fst else d.map Prod.fst ++ [k] := by
  split
  · rename_i hmem
    exact keys_set_of_mem hmem v
  · rename_i hnew
    rw [set_of_not_mem hnew, List.map_append]
    rfl

theorem mem_keys_set_iff {d : List (κ × ν)} {k k' : κ} {v : ν} :
    k' ∈ (set d k v).map Prod.fst ↔ k' ∈ d.map Prod.fst ∨ k' = k := by
  rw [keys_set]
  split
  · rename_i hmem
    constructor
    · exact Or.inl
    · rintro (h | rfl)
      · exact h
      · exact hmem
  · rw [List.mem_append, List.mem_singleton]

theorem nodup_set {d : List (κ × ν)} (h : (d.map Prod.fst).Nodup) (k : κ) (v : ν) :
    ((set d k v).map Prod.fst).Nodup := by
  rw [keys_set]
  split
  · exact h
  · rename_i hnew
    exact List.nodup_append.mpr ⟨h, List.pairwise_singleton _ k, fun a ha b hb hab =>
      hnew (List.mem_singleton.mp hb ▸ hab ▸ ha)⟩

/-- A dictionary that is written entry by entry is the list of its entries. -/
theorem foldl_set {ms : List (κ × ν)} : ∀ {d : List (κ × ν)}, ((d ++ ms).map Prod.fst).Nodup →
    ms.foldl (fun d m => set d m.1 m.2) d = d ++ ms := by
  induction ms with
  | nil => exact fun _ => (List.append_nil _).symm
  | cons m ms ih =>
    intro d h
    have hnew : m.1 ∉ d.map Prod.fst := by
      rw [List.map_append, List.nodup_append] at h
      exact fun hmem => h.2.2 _ hmem _ List.mem_cons_self rfl
    rw [List.append_cons] at h ⊢
    rw [List.foldl_cons, set_of_not_mem hnew, ih h]

/-- Distinct keys read back the values that they were paired with. -/
theorem map_get?_zip {ks : List κ} (hnodup : ks.Nodup) : ∀ {vs : List ν},
    ks.length = vs.length → ks.map (get? (ks.zip vs)) = vs.map some := by
  induction ks with
  | nil =>
    intro vs hlength
    rw [List.eq_nil_of_length_eq_zero hlength.symm]
    rfl
  | cons k ks ih =>
    intro vs hlength
    obtain ⟨hnew, hrest⟩ := List.nodup_cons.mp hnodup
    cases vs with
    | nil => cases hlength
    | cons v vs =>
      have hothers : ks.map (get? ((k, v) :: ks.zip vs)) = ks.map (get? (ks.zip vs)) := by
        apply List.map_congr_left
        intro k' hk'
        have hne : k ≠ k' := fun h => hnew (h ▸ hk')
        rw [get?, if_neg hne]
      rw [List.zip_cons_cons, List.map_cons, hothers, ih hrest (Nat.succ.inj hlength), get?,
        if_pos rfl]
      rfl

end Dict
