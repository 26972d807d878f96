import BatchEngine.Lib.JsonRoundTrip

/-!
# The limits of the JSON reader

The reader recurses into containers and converts integers within limits, and a text that
is shorter than both meets neither.
-/

set_option autoImplicit false

namespace Py

variable {nesting : ℕ}

/-- The digits of the integer that is being read. -/
def Mode.digits : Mode → ℕ
  | .number _ n => n.whole.length
  | _ => 0

/-- After at most `k` characters. -/
structure Reader.Within (k : ℕ) (σ : Reader) : Prop where
  stack : σ.stack.length ≤ k
  digits : σ.mode.digits ≤ k

variable (nesting) in
/-- What reading at most `k` characters can come to. -/
def EndsWithin (k : ℕ) : Except LoadError Reader → Prop
  | .ok ρ => ρ.Within k
  | .error e => e = .decode ∨ nesting < k ∨ maxStrDigits < k

theorem deliver_within {v : Json} {stack : List Frame} {k : ℕ} (h : stack.length ≤ k) :
    (deliver v stack).Within k := by
  cases stack with
  | nil => exact ⟨Nat.zero_le k, Nat.zero_le _⟩
  | cons frame rest =>
    cases frame with
    | arr xs => exact ⟨h, Nat.zero_le _⟩
    | obj kvs key => exact ⟨h, Nat.zero_le _⟩

theorem Reader.Within.mono {k m : ℕ} {σ : Reader} (h : σ.Within k) (hle : k ≤ m) : σ.Within m :=
  ⟨h.stack.trans hle, h.digits.trans hle⟩

theorem closeStep_within {k : ℕ} {σ : Reader} (h : σ.Within k) (c : Char) :
    EndsWithin nesting (k + 1) (closeStep σ c) := by
  have hlater := h.stack.trans (Nat.le_succ k)
  unfold closeStep
  split
  · exact h.mono (Nat.le_succ k)
  · split
    · rename_i hstack _
      rw [hstack] at hlater
      exact ⟨hlater, Nat.zero_le _⟩
    · rename_i hstack _
      rw [hstack] at hlater
      exact deliver_within ((Nat.le_succ _).trans hlater)
    · rename_i hstack _
      rw [hstack] at hlater
      exact ⟨hlater, Nat.zero_le _⟩
    · rename_i hstack _
      rw [hstack] at hlater
      exact deliver_within ((Nat.le_succ _).trans hlater)
    · exact Or.inl rfl

theorem setKey_length (key : String) (stack : List Frame) :
    (setKey key stack).length = stack.length := by
  unfold setKey
  split <;> rfl

theorem stringStep_within {k : ℕ} {stack : List Frame} (h : stack.length ≤ k)
    (isKey : Bool) (units : List ℕ) (c : Char) (esc : Escape) :
    EndsWithin nesting (k + 1) (stringStep isKey units stack c esc) := by
  have hlater := h.trans (Nat.le_succ k)
  have hstring : ∀ units esc, (⟨.string isKey units esc, stack⟩ : Reader).Within (k + 1) :=
    fun units esc => ⟨hlater, Nat.zero_le _⟩
  cases esc with
  | plain =>
    simp only [stringStep]
    split
    · cases isKey with
      | true => exact ⟨(setKey_length _ stack).trans_le hlater, Nat.zero_le _⟩
      | false => exact deliver_within hlater
    · split
      · exact hstring _ _
      · split
        · exact Or.inl rfl
        · exact hstring _ _
  | escaped =>
    simp only [stringStep]
    split
    · exact hstring _ _
    · split
      · exact hstring _ _
      · exact Or.inl rfl
  | hex left acc =>
    simp only [stringStep]
    split
    · exact Or.inl rfl
    · split
      · exact hstring _ _
      · exact hstring _ _

theorem openFrame_within {k : ℕ} {stack : List Frame} (h : stack.length ≤ k)
    (frame : Frame) {mode : Mode} (hmode : mode.digits = 0) :
    EndsWithin nesting (k + 1) (openFrame nesting frame mode stack) := by
  unfold openFrame
  split
  · exact ⟨Nat.succ_le_succ h, hmode.trans_le (Nat.zero_le _)⟩
  · rename_i hfull
    exact Or.inr (Or.inl (Nat.lt_succ_of_le ((Nat.le_of_not_lt hfull).trans h)))

theorem advance_whole {n m : NumberText} {phase p : NumberPhase} {c : Char}
    (h : n.advance phase c = some (p, m)) : m.whole.length ≤ n.whole.length + 1 := by
  have hmark : ∀ p m, n.mark c = some (p, m) → m.whole.length ≤ n.whole.length + 1 := by
    intro p m hm
    unfold NumberText.mark at hm
    split at hm
    · cases hm
      exact Nat.le_succ _
    · cases hm
  cases phase with
  | minus =>
    obtain ⟨d, -, hd⟩ := Option.map_eq_some_iff.mp h
    cases hd
    exact Nat.succ_le_succ (Nat.zero_le _)
  | zero =>
    simp only [NumberText.advance] at h
    split at h
    · cases h
      exact Nat.le_succ _
    · exact hmark p m h
  | whole =>
    simp only [NumberText.advance] at h
    split at h
    · cases h
      exact List.length_append.le
    · split at h
      · cases h
        exact Nat.le_succ _
      · exact hmark p m h
  | frac =>
    simp only [NumberText.advance] at h
    split at h
    · cases h
      exact Nat.le_succ _
    · exact hmark p m h
  | e =>
    simp only [NumberText.advance] at h
    split at h
    · cases h
      exact Nat.le_succ _
    · split at h
      · cases h
        exact Nat.le_succ _
      · obtain ⟨d, -, hd⟩ := Option.map_eq_some_iff.mp h
        cases hd
        exact Nat.le_succ _
  | _ =>
    obtain ⟨d, -, hd⟩ := Option.map_eq_some_iff.mp h
    cases hd
    exact Nat.le_succ _

theorem startValue_within {k : ℕ} {stack : List Frame} (h : stack.length ≤ k)
    (c : Char) : EndsWithin nesting (k + 1) (startValue nesting stack c) := by
  have hlater := h.trans (Nat.le_succ k)
  unfold startValue
  split
  · exact ⟨hlater, Nat.zero_le _⟩
  · exact openFrame_within h _ rfl
  · exact openFrame_within h _ rfl
  · exact ⟨hlater, Nat.zero_le _⟩
  · exact ⟨hlater, Nat.zero_le _⟩
  · exact ⟨hlater, Nat.zero_le _⟩
  · exact ⟨hlater, Nat.zero_le _⟩
  · exact ⟨hlater, Nat.zero_le _⟩
  · exact ⟨hlater, Nat.zero_le _⟩
  · split
    · rename_i hadvance
      exact ⟨hlater, (advance_whole hadvance).trans (Nat.succ_le_succ (Nat.zero_le k))⟩
    · exact Or.inl rfl

theorem value_within {n : NumberText} {phase : NumberPhase} {e : LoadError}
    (h : n.value phase = .error e) : e = .decode ∨ maxStrDigits < n.whole.length := by
  by_contra hno
  obtain ⟨hdecode, hshort⟩ := not_or.mp hno
  rcases value_of_short (Nat.not_lt.mp hshort) phase with hv | ⟨v, hv⟩
  · exact hdecode (Except.error.inj (h.symm.trans hv))
  · cases h.symm.trans hv

theorem step_within {k : ℕ} {σ : Reader} (h : σ.Within k) (c : Char) :
    EndsWithin nesting (k + 1) (step nesting σ c) := by
  have hlater := h.stack.trans (Nat.le_succ k)
  have hsame : σ.Within (k + 1) := h.mono (Nat.le_succ k)
  obtain ⟨mode, stack⟩ := σ
  cases mode with
  | value =>
    simp only [step]
    split
    · exact hsame
    · exact startValue_within h.stack c
  | valueOrEnd =>
    simp only [step]
    split
    · exact hsame
    · split
      · exact @closeStep_within _ _ ⟨.afterValue, stack⟩ ⟨h.stack, Nat.zero_le _⟩ c
      · exact startValue_within h.stack c
  | keyOrEnd =>
    simp only [step]
    split
    · exact hsame
    · split
      · exact ⟨hlater, Nat.zero_le _⟩
      · split
        · exact @closeStep_within _ _ ⟨.afterValue, stack⟩ ⟨h.stack, Nat.zero_le _⟩ c
        · exact Or.inl rfl
  | key =>
    simp only [step]
    split
    · exact hsame
    · split
      · exact ⟨hlater, Nat.zero_le _⟩
      · exact Or.inl rfl
  | colon =>
    simp only [step]
    split
    · exact hsame
    · split
      · exact ⟨hlater, Nat.zero_le _⟩
      · exact Or.inl rfl
  | afterValue => exact closeStep_within h c
  | done v => exact closeStep_within h c
  | string isKey units esc => exact stringStep_within h.stack isKey units c esc
  | number phase n =>
    have hdigits : n.whole.length ≤ k := h.digits
    simp only [step]
    split
    · exact ⟨hlater, Nat.zero_le _⟩
    · split
      · rename_i hadvance
        exact ⟨hlater, (advance_whole hadvance).trans (Nat.succ_le_succ hdigits)⟩
      · cases hvalue : n.value phase with
        | error e =>
          refine (value_within hvalue).imp_right fun hlong => Or.inr ?_
          exact Nat.lt_succ_of_le (hlong.le.trans hdigits)
        | ok v => exact closeStep_within (deliver_within h.stack) c
  | literal left v =>
    simp only [step]
    split
    · split
      · exact deliver_within hlater
      · exact ⟨hlater, Nat.zero_le _⟩
    · exact Or.inl rfl

theorem run_within (text : List Char) : ∀ {k : ℕ} {σ : Reader}, σ.Within k →
    EndsWithin nesting (k + text.length) (run nesting σ text) := by
  induction text with
  | nil => exact fun h => h
  | cons c text ih =>
    intro k σ h
    have hstep : EndsWithin nesting (k + 1) (step nesting σ c) := step_within h c
    rw [run]
    cases hs : step nesting σ c with
    | error e =>
      rw [hs] at hstep
      have hle : k + 1 ≤ k + (c :: text).length := Nat.add_le_add_left (Nat.succ_pos _) k
      exact hstep.imp_right (Or.imp hle.trans_lt' hle.trans_lt')
    | ok ρ =>
      rw [hs] at hstep
      have hrun := ih hstep
      rw [List.length_cons, Nat.add_comm text.length, ← Nat.add_assoc]
      exact hrun

/-- `json.loads` raises something else than a `JSONDecodeError` on long texts only. -/
theorem loads_long {text : List Char} {e : LoadError}
    (h : loads nesting text = .error e) (he : e ≠ .decode) :
    nesting < text.length ∨ maxStrDigits < text.length := by
  have hrun := @run_within nesting text 0 ⟨.value, []⟩ ⟨Nat.zero_le 0, Nat.zero_le _⟩
  rw [loads] at h
  cases hr : run nesting ⟨.value, []⟩ text with
  | error e' =>
    rw [hr] at h hrun
    obtain rfl := Except.error.inj h
    rw [Nat.zero_add] at hrun
    exact hrun.resolve_left he
  | ok ρ =>
    rw [hr] at h hrun
    change ρ.finish = _ at h
    rw [Nat.zero_add] at hrun
    unfold Reader.finish at h
    split at h
    · cases h
    · rename_i phase n hmode
      cases hvalue : n.value phase with
      | error e' =>
        rw [hvalue] at h
        obtain rfl := Except.error.inj h
        have hdigits := Reader.Within.digits hrun
        rw [hmode] at hdigits
        exact Or.inr (((value_within hvalue).resolve_left he).trans_le hdigits)
      | ok v =>
        rw [hvalue] at h
        change (if ρ.stack = [] then _ else _) = _ at h
        split at h
        · cases h
        · exact absurd (Except.error.inj h).symm he
    · exact absurd (Except.error.inj h).symm he

end Py
