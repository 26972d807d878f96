import BatchEngine.Lib.JsonText
import Mathlib.Data.Nat.Digits.Lemmas
import Mathlib.Tactic.IntervalCases

/-!
# What is written is read back, and nothing shorter is

Reading the text of a flat object leaves the reader inside that object until its last
character. A text that stops there is a decode error, whatever the strings in it
contain.
-/

set_option autoImplicit false

namespace Py

/-! ## Inside an object -/

/-- A mode in which the text is not over, and in which the reader can fail in no way but a
decode error. -/
def Mode.Harmless : Mode → Prop
  | .number _ n => n.whole.length ≤ maxStrDigits
  | .literal left _ => ∀ c ∈ left, c.isAlpha = true
  | .done _ => False
  | _ => True

/-- The reader is directly inside an object, which stands inside the frames `rest`. -/
structure Torn (rest : List Frame) (σ : Reader) : Prop where
  inObject : ∃ kvs key, σ.stack = .obj kvs key :: rest
  harmless : σ.mode.Harmless

section Paths

variable {nesting : ℕ} {rest : List Frame}

theorem run_cons {σ ρ : Reader} {c : Char} {text : List Char} (h : step nesting σ c = .ok ρ) :
    run nesting σ (c :: text) = run nesting ρ text := by
  rw [run, h]
  rfl

theorem run_append (s t : List Char) : ∀ σ : Reader,
    run nesting σ (s ++ t) = (run nesting σ s).bind fun ρ => run nesting ρ t := by
  induction s with
  | nil => exact fun _ => rfl
  | cons c s ih =>
    intro σ
    rw [List.cons_append, run, run]
    cases step nesting σ c with
    | error e => rfl
    | ok ρ => exact ih ρ

variable (nesting rest) in
/-- The text leads from one state to the other, and all states before the last are inside
the object. -/
def Path : Reader → List Char → Reader → Prop
  | σ, [], τ => σ = τ
  | σ, c :: text, τ => Torn rest σ ∧ ∃ ρ, step nesting σ c = .ok ρ ∧ Path ρ text τ

theorem Path.step {σ ρ τ : Reader} {c : Char} {text : List Char} (hσ : Torn rest σ)
    (hstep : step nesting σ c = .ok ρ) (h : Path nesting rest ρ text τ) :
    Path nesting rest σ (c :: text) τ :=
  ⟨hσ, ρ, hstep, h⟩

theorem Path.append {s t : List Char} {ρ τ : Reader} : ∀ {σ : Reader},
    Path nesting rest σ s ρ → Path nesting rest ρ t τ → Path nesting rest σ (s ++ t) τ := by
  induction s with
  | nil =>
    intro σ hs ht
    obtain rfl := hs
    exact ht
  | cons c s ih =>
    intro σ ⟨hσ, υ, hstep, hs⟩ ht
    exact ⟨hσ, υ, hstep, ih hs ht⟩

theorem Path.run {text : List Char} {τ : Reader} : ∀ {σ : Reader},
    Path nesting rest σ text τ → run nesting σ text = .ok τ := by
  induction text with
  | nil =>
    intro σ h
    obtain rfl := h
    rfl
  | cons c text ih =>
    intro σ ⟨_, ρ, hstep, h⟩
    rw [run_cons hstep]
    exact ih h

/-- A proper prefix leaves the reader inside the object. -/
theorem Path.take {text : List Char} {τ : Reader} : ∀ {σ : Reader} {n : ℕ},
    Path nesting rest σ text τ → n < text.length →
      ∃ ρ, Py.run nesting σ (text.take n) = .ok ρ ∧ Torn rest ρ := by
  induction text with
  | nil => exact fun _ hn => absurd hn (Nat.not_lt_zero _)
  | cons c text ih =>
    intro σ n ⟨hσ, ρ, hstep, h⟩ hn
    cases n with
    | zero => exact ⟨σ, rfl, hσ⟩
    | succ n =>
      rw [List.take_succ_cons, run_cons hstep]
      exact ih h (Nat.lt_of_succ_lt_succ hn)

end Paths

/-! ## Strings -/

section Strings

variable {nesting : ℕ} {rest : List Frame} {kvs : List (String × Json)} {key : String}

theorem torn_mode {mode : Mode} (h : mode.Harmless) : Torn rest ⟨mode, .obj kvs key :: rest⟩ :=
  ⟨⟨kvs, key, rfl⟩, h⟩

theorem hexDigit?_hexChar {d : ℕ} (hd : d < 16) : hexDigit? (hexChar d) = some d := by
  interval_cases d <;> rfl

theorem stringStep_hex {isKey : Bool} {units : List ℕ} {stack : List Frame} {d left acc : ℕ}
    (hd : d < 16) :
    stringStep isKey units stack (hexChar d) (.hex left acc) =
      if left ≤ 1 then .ok ⟨.string isKey (units ++ [acc * 16 + d]) .plain, stack⟩
      else .ok ⟨.string isKey units (.hex (left - 1) (acc * 16 + d)), stack⟩ := by
  simp only [stringStep, hexDigit?_hexChar hd]

/-- A `\u` escape is read as its code point. -/
theorem path_hex4 {u : ℕ} (hu : u < 0x10000) (isKey : Bool) (units : List ℕ) :
    Path nesting rest ⟨.string isKey units .plain, .obj kvs key :: rest⟩ (hex4 u)
      ⟨.string isKey (units ++ [u]) .plain, .obj kvs key :: rest⟩ := by
  have hvalue : ((u / 4096 % 16 * 16 + u / 256 % 16) * 16 + u / 16 % 16) * 16 + u % 16 = u := by
    omega
  have hdigit : ∀ d : ℕ, d % 16 < 16 := fun d => Nat.mod_lt d (by decide)
  refine .step (torn_mode trivial) rfl (.step (torn_mode trivial) rfl ?_)
  refine .step (torn_mode trivial) (stringStep_hex (hdigit _)) ?_
  refine .step (torn_mode trivial) (stringStep_hex (hdigit _)) ?_
  refine .step (torn_mode trivial) (stringStep_hex (hdigit _)) ?_
  refine .step (torn_mode trivial) (stringStep_hex (hdigit _)) ?_
  show _ = _
  simp only [Nat.zero_mul, Nat.zero_add, hvalue]

theorem toNat_lt (c : Char) : c.toNat < 0x110000 := by
  rcases c.valid with h | ⟨_, h⟩
  · exact Nat.lt_trans h (by decide)
  · exact h

theorem unitsOf_lt (c : Char) : ∀ u ∈ unitsOf c, u < 0x10000 := by
  have hc := toNat_lt c
  intro u hu
  unfold unitsOf at hu
  split at hu
  · simp only [List.mem_singleton] at hu
    omega
  · simp only [List.mem_cons, List.not_mem_nil, or_false] at hu
    omega

theorem path_escapes (isKey : Bool) (us : List ℕ) (hus : ∀ u ∈ us, u < 0x10000) :
    ∀ units : List ℕ,
      Path nesting rest ⟨.string isKey units .plain, .obj kvs key :: rest⟩ (us.flatMap hex4)
        ⟨.string isKey (units ++ us) .plain, .obj kvs key :: rest⟩ := by
  induction us with
  | nil =>
    intro units
    rw [List.append_nil]
    rfl
  | cons u us ih =>
    intro units
    have htail := ih (fun v hv => hus v (List.mem_cons_of_mem u hv)) (units ++ [u])
    rw [List.append_assoc] at htail
    exact (path_hex4 (hus u List.mem_cons_self) isKey units).append htail

/-- A written character is read as the code points that it was written as. -/
theorem path_escapeChar (c : Char) (isKey : Bool) (units : List ℕ) :
    Path nesting rest ⟨.string isKey units .plain, .obj kvs key :: rest⟩ (escapeChar c)
      ⟨.string isKey (units ++ unitsOf c) .plain, .obj kvs key :: rest⟩ := by
  have htwo : ∀ d e : Char, d ≠ 'u' → unescape d = some e → unitsOf e = [e.toNat] →
      Path nesting rest ⟨.string isKey units .plain, .obj kvs key :: rest⟩ ['\\', d]
        ⟨.string isKey (units ++ unitsOf e) .plain, .obj kvs key :: rest⟩ := by
    intro d e hd he hu
    refine .step (torn_mode trivial) rfl (.step (torn_mode trivial) ?_ (by rw [hu]; rfl))
    simp only [step, stringStep, if_neg hd, he]
  unfold escapeChar
  split
  · exact htwo '"' '"' (by decide) rfl rfl
  · exact htwo '\\' '\\' (by decide) rfl rfl
  · exact htwo 'n' '\n' (by decide) rfl rfl
  · exact htwo 'r' '\r' (by decide) rfl rfl
  · exact htwo 't' '\t' (by decide) rfl rfl
  · exact htwo 'b' '\x08' (by decide) rfl rfl
  · exact htwo 'f' '\x0c' (by decide) rfl rfl
  · rename_i hquote hslash _ _ _ _ _
    split
    · rename_i hprint
      have hunits : unitsOf c = [c.toNat] := if_pos (by omega)
      refine .step (torn_mode trivial) ?_ (by rw [hunits]; rfl)
      simp only [step, stringStep, if_neg hquote, if_neg hslash]
      rw [if_neg (by omega)]
    · exact path_escapes isKey (unitsOf c) (unitsOf_lt c) units

theorem path_string (isKey : Bool) (s : List Char) : ∀ units : List ℕ,
    Path nesting rest ⟨.string isKey units .plain, .obj kvs key :: rest⟩ (s.flatMap escapeChar)
      ⟨.string isKey (units ++ s.flatMap unitsOf) .plain, .obj kvs key :: rest⟩ := by
  induction s with
  | nil =>
    intro units
    simp only [List.flatMap_nil, List.append_nil]
    rfl
  | cons c s ih =>
    intro units
    have htail := ih (units ++ unitsOf c)
    rw [List.append_assoc] at htail
    exact (path_escapeChar c isKey units).append htail

theorem not_surrogate (c : Char) : ¬ (isHigh c.toNat ∨ isLow c.toNat) := by
  have hc := c.valid
  simp only [isHigh, isLow, decide_eq_true_eq]
  rcases hc with h | ⟨h, _⟩ <;> (change _ < _ at h; simp only [Char.toNat] at *; omega)

/-- Joining the halves of surrogate pairs undoes their split. -/
theorem joinUnits_unitsOf (s : List Char) : joinUnits (s.flatMap unitsOf) = s := by
  induction s with
  | nil => rfl
  | cons c s ih =>
    rw [List.flatMap_cons]
    have hc := not_surrogate c
    rw [not_or] at hc
    have hchar : unitChar c.toNat = c := by
      rw [unitChar, if_neg (not_surrogate c), Char.ofNat_toNat]
    by_cases hsmall : c.toNat < 0x10000
    · have hunits : unitsOf c = [c.toNat] := if_pos hsmall
      rw [hunits, List.singleton_append]
      cases hrest : s.flatMap unitsOf with
      | nil =>
        rw [hrest] at ih
        rw [joinUnits, hchar, ← ih]
        rfl
      | cons u us =>
        rw [joinUnits, if_neg (fun h => hc.1 h.1), hchar, ← hrest, ih]
    · have hunits : unitsOf c =
          [0xD800 + (c.toNat - 0x10000) / 1024, 0xDC00 + (c.toNat - 0x10000) % 1024] :=
        if_neg hsmall
      rw [hunits]
      have hlt := toNat_lt c
      rw [List.cons_append, List.cons_append, List.nil_append, joinUnits, if_pos, ih]
      · have hjoin : 0x10000 + (0xD800 + (c.toNat - 0x10000) / 1024 - 0xD800) * 1024 +
            (0xDC00 + (c.toNat - 0x10000) % 1024 - 0xDC00) = c.toNat := by omega
        rw [hjoin, Char.ofNat_toNat]
      · simp only [isHigh, isLow, decide_eq_true_eq]
        omega

theorem path_quoted (isKey : Bool) (s : String) {ρ : Reader}
    (hend : step nesting ⟨.string isKey (s.toList.flatMap unitsOf) .plain, .obj kvs key :: rest⟩ '"' =
      .ok ρ) :
    Path nesting rest ⟨.string isKey [] .plain, .obj kvs key :: rest⟩
      (s.toList.flatMap escapeChar ++ ['"']) ρ := by
  exact (path_string isKey s.toList []).append (.step (torn_mode trivial) hend rfl)

theorem ofList_joinUnits (s : String) : String.ofList (joinUnits (s.toList.flatMap unitsOf)) = s := by
  rw [joinUnits_unitsOf, String.ofList_toList]

/-- A quoted string is read as itself. -/
theorem path_quote_value (s : String) :
    Path nesting rest ⟨.value, .obj kvs key :: rest⟩ (quote s)
      (deliver (.str s) (.obj kvs key :: rest)) := by
  refine .step (torn_mode trivial) rfl (path_quoted false s ?_)
  simp only [step, stringStep, ↓reduceIte, Bool.false_eq_true, ofList_joinUnits]

theorem path_quote_key {mode : Mode} (hmode : mode = .key ∨ mode = .keyOrEnd) (s : String) :
    Path nesting rest ⟨mode, .obj kvs key :: rest⟩ (quote s) ⟨.colon, .obj kvs s :: rest⟩ := by
  have hbody : Path nesting rest ⟨.string true [] .plain, .obj kvs key :: rest⟩
      (s.toList.flatMap escapeChar ++ ['"']) ⟨.colon, .obj kvs s :: rest⟩ := by
    refine path_quoted true s ?_
    simp only [step, stringStep, ↓reduceIte, setKey, ofList_joinUnits]
  rcases hmode with rfl | rfl
  · exact .step (torn_mode trivial) rfl hbody
  · exact .step (torn_mode trivial) rfl hbody

end Strings

/-! ## Numbers -/

theorem natOfDigits_digitsOf (n : ℕ) : natOfDigits (digitsOf n) = n := by
  unfold digitsOf
  split
  · rename_i hn
    rw [hn]
    rfl
  · unfold natOfDigits
    rw [List.foldl_reverse]
    have hfold : (Nat.digits 10 n).foldr (fun d m => 10 * m + d) 0 =
        Nat.ofDigits 10 (Nat.digits 10 n) := by
      rw [Nat.ofDigits_eq_foldr]
      congr 1
      funext d m
      rw [Nat.cast_id, Nat.add_comm]
    rw [hfold, Nat.ofDigits_digits]

theorem intValue_intText (z : ℤ) : (intText z).intValue = z := by
  unfold intText NumberText.intValue
  rw [natOfDigits_digitsOf]
  split
  · rename_i h
    have hz := of_decide_eq_true h
    omega
  · rename_i h
    have hz : ¬ z < 0 := fun hlt => h (decide_eq_true hlt)
    omega

/-- A number text as `json.dumps` writes them. -/
structure NumberText.Canonical (n : NumberText) : Prop where
  digits : ∀ d ∈ n.whole ++ n.frac ++ n.exp, d < 10
  leading : n.whole = [0] ∨ ∃ d ds, n.whole = d :: ds ∧ d ≠ 0
  short : n.whole.length ≤ maxStrDigits
  signed : n.exp = [] → n.expNegative = false

theorem digitsOf_lt (n : ℕ) : ∀ d ∈ digitsOf n, d < 10 := by
  intro d hd
  unfold digitsOf at hd
  split at hd
  · rw [List.mem_singleton.mp hd]
    decide
  · exact Nat.digits_lt_base (by decide) (List.mem_reverse.mp hd)

theorem digitsOf_leading (n : ℕ) : digitsOf n = [0] ∨ ∃ d ds, digitsOf n = d :: ds ∧ d ≠ 0 := by
  unfold digitsOf
  split
  · exact Or.inl rfl
  · rename_i hn
    right
    have hne : Nat.digits 10 n ≠ [] := Nat.digits_ne_nil_iff_ne_zero.mpr hn
    refine ⟨(Nat.digits 10 n).getLast hne, (Nat.digits 10 n).dropLast.reverse, ?_, ?_⟩
    · rw [← List.reverse_concat, List.dropLast_concat_getLast]
    · exact Nat.getLast_digit_ne_zero 10 hn

theorem canonical_intText {z : ℤ} (h : (Scalar.int z).Printable) : (intText z).Canonical where
  digits := by
    intro d hd
    simp only [intText, List.append_nil] at hd
    exact digitsOf_lt _ d hd
  leading := digitsOf_leading _
  short := h
  signed _ := rfl

theorem canonical_floatText (x : FloatText) : x.toNumberText.Canonical where
  digits := x.digits
  leading := x.leading
  short := x.short
  signed := x.signed

section Numbers

variable {nesting : ℕ} {rest : List Frame} {kvs : List (String × Json)} {key : String}

theorem digit?_digitChar {d : ℕ} (hd : d < 10) : digit? (Nat.digitChar d) = some d := by
  interval_cases d <;> rfl

theorem step_advance {n n' : NumberText} {phase phase' : NumberPhase} {stack : List Frame} {c : Char}
    (hc : c ≠ 'I') (h : n.advance phase c = some (phase', n')) :
    step nesting ⟨.number phase n, stack⟩ c = .ok ⟨.number phase' n', stack⟩ := by
  simp only [step, if_neg (fun hi : phase = .minus ∧ c = 'I' => hc hi.2), h]

theorem digitChar_ne_I {d : ℕ} (hd : d < 10) : Nat.digitChar d ≠ 'I' := by
  interval_cases d <;> decide

/-- Digits in a phase that takes them one after another; `f` puts them in their field. -/
theorem path_digits {phase : NumberPhase} (f : List ℕ → NumberText) {ds : List ℕ}
    (hds : ∀ d ∈ ds, d < 10)
    (hadvance : ∀ acc d, d < 10 →
      (f acc).advance phase (Nat.digitChar d) = some (phase, f (acc ++ [d]))) :
    ∀ acc : List ℕ,
      (∀ acc', acc'.length ≤ acc.length + ds.length → (f acc').whole.length ≤ maxStrDigits) →
      Path nesting rest ⟨.number phase (f acc), .obj kvs key :: rest⟩ (ds.map Nat.digitChar)
        ⟨.number phase (f (acc ++ ds)), .obj kvs key :: rest⟩ := by
  induction ds with
  | nil =>
    intro acc _
    rw [List.append_nil]
    rfl
  | cons d ds ih =>
    intro acc hshort
    have hd : d < 10 := hds d List.mem_cons_self
    have htail := ih (fun e he => hds e (List.mem_cons_of_mem d he)) (acc ++ [d]) (by
      intro acc' hlen
      refine hshort acc' (hlen.trans (le_of_eq ?_))
      simp only [List.length_append, List.length_cons, List.length_nil]
      omega)
    rw [List.append_assoc] at htail
    exact .step (torn_mode (hshort acc (Nat.le_add_right _ _)))
      (step_advance (digitChar_ne_I hd) (hadvance acc d hd)) htail

variable (nesting rest kvs key) in
/-- The sign and the digits before the point. -/
theorem path_whole (negative : Bool) {whole : List ℕ} (hdigits : ∀ d ∈ whole, d < 10)
    (hleading : whole = [0] ∨ ∃ d ds, whole = d :: ds ∧ d ≠ 0)
    (hshort : whole.length ≤ maxStrDigits) :
    ∃ phase, (phase = .zero ∨ phase = .whole) ∧
      Path nesting rest ⟨.value, .obj kvs key :: rest⟩
        ((if negative then ['-'] else []) ++ whole.map Nat.digitChar)
        ⟨.number phase { negative, whole }, .obj kvs key :: rest⟩ := by
  have hfirst : ∀ (d : ℕ) (text : List Char) (τ : Reader), d < 10 →
      Path nesting rest
        ⟨.number (if d = 0 then .zero else .whole) { negative, whole := [d] }, .obj kvs key :: rest⟩
        text τ →
      Path nesting rest ⟨.value, .obj kvs key :: rest⟩
        ((if negative then ['-'] else []) ++ Nat.digitChar d :: text) τ := by
    intro d text τ hd h
    cases negative with
    | false =>
      refine .step (torn_mode trivial) ?_ h
      interval_cases d <;> rfl
    | true =>
      refine .step (torn_mode trivial) rfl (.step (torn_mode (Nat.zero_le _)) ?_ h)
      interval_cases d <;> rfl
  rcases hleading with rfl | ⟨d, ds, rfl, hd⟩
  · exact ⟨.zero, Or.inl rfl, hfirst 0 [] _ (by decide) rfl⟩
  · refine ⟨.whole, Or.inr rfl, hfirst d _ _ (hdigits d List.mem_cons_self) ?_⟩
    rw [if_neg hd]
    refine path_digits (fun ds => { negative, whole := ds })
      (fun e he => hdigits e (List.mem_cons_of_mem d he)) ?_ [d] ?_
    · intro acc e he
      simp only [NumberText.advance, digit?_digitChar he]
    · intro acc' hlen
      exact hlen.trans (by simpa [Nat.add_comm] using hshort)

/-- The point and the digits after it. -/
theorem path_frac {phase : NumberPhase} {n : NumberText} {frac : List ℕ}
    (hphase : phase = .zero ∨ phase = .whole) (hshort : n.whole.length ≤ maxStrDigits)
    (hdigits : ∀ d ∈ frac, d < 10) (hne : frac ≠ []) :
    Path nesting rest ⟨.number phase n, .obj kvs key :: rest⟩ ('.' :: frac.map Nat.digitChar)
      ⟨.number .frac { n with frac }, .obj kvs key :: rest⟩ := by
  obtain ⟨d, ds, rfl⟩ := List.exists_cons_of_ne_nil hne
  have hd : d < 10 := hdigits d List.mem_cons_self
  have hpoint : n.advance phase '.' = some (.dot, n) := by rcases hphase with rfl | rfl <;> rfl
  have hfirst : n.advance .dot (Nat.digitChar d) = some (.frac, { n with frac := [d] }) := by
    simp only [NumberText.advance, digit?_digitChar hd, Option.map_some]
  refine .step (torn_mode hshort) (step_advance (by decide) hpoint) ?_
  refine .step (torn_mode hshort) (step_advance (digitChar_ne_I hd) hfirst) ?_
  refine path_digits (fun ds => { n with frac := ds })
    (fun e he => hdigits e (List.mem_cons_of_mem d he)) ?_ [d] fun _ _ => hshort
  intro acc e he
  simp only [NumberText.advance, digit?_digitChar he]

/-- The exponent, which always carries a sign. -/
theorem path_exp {phase : NumberPhase} {n : NumberText} {exp : List ℕ} {expNegative : Bool}
    (hphase : phase = .zero ∨ phase = .whole ∨ phase = .frac)
    (hshort : n.whole.length ≤ maxStrDigits) (hdigits : ∀ d ∈ exp, d < 10) (hne : exp ≠ [])
    (hfresh : n.expNegative = false) :
    Path nesting rest ⟨.number phase n, .obj kvs key :: rest⟩
      ('e' :: (if expNegative then '-' else '+') :: exp.map Nat.digitChar)
      ⟨.number .exp { n with exp, expNegative }, .obj kvs key :: rest⟩ := by
  obtain ⟨d, ds, rfl⟩ := List.exists_cons_of_ne_nil hne
  have hd : d < 10 := hdigits d List.mem_cons_self
  have hmark : n.advance phase 'e' = some (.e, n) := by
    rcases hphase with rfl | rfl | rfl <;> rfl
  have hsign : n.advance .e (if expNegative then '-' else '+') =
      some (.eSign, { n with expNegative }) := by
    cases expNegative with
    | false =>
      show some (NumberPhase.eSign, n) = _
      rw [← hfresh]
    | true => rfl
  have hfirst : NumberText.advance { n with expNegative } .eSign (Nat.digitChar d) =
      some (.exp, { n with exp := [d], expNegative }) := by
    simp only [NumberText.advance, digit?_digitChar hd, Option.map_some]
  refine .step (torn_mode hshort) (step_advance (by decide) hmark) ?_
  refine .step (torn_mode hshort) (step_advance (by cases expNegative <;> decide) hsign) ?_
  refine .step (torn_mode hshort) (step_advance (digitChar_ne_I hd) hfirst) ?_
  refine path_digits (fun ds => { n with exp := ds, expNegative })
    (fun e he => hdigits e (List.mem_cons_of_mem d he)) ?_ [d] fun _ _ => hshort
  intro acc e he
  simp only [NumberText.advance, digit?_digitChar he, Option.map_some]

/-- The phases in which a number may end. -/
def NumberText.EndPhase (n : NumberText) (phase : NumberPhase) : Prop :=
  if n.frac = [] ∧ n.exp = [] then phase = .zero ∨ phase = .whole else phase = .frac ∨ phase = .exp

variable (nesting rest kvs key) in
theorem path_number {n : NumberText} (h : n.Canonical) :
    ∃ phase, n.EndPhase phase ∧ Path nesting rest ⟨.value, .obj kvs key :: rest⟩ n.text
      ⟨.number phase n, .obj kvs key :: rest⟩ := by
  obtain ⟨negative, whole, frac, expNegative, exp⟩ := n
  obtain ⟨hdigits, hleading, hshort, hsigned⟩ := h
  have hwhole : ∀ d ∈ whole, d < 10 := fun d hd => hdigits d (by simp [hd])
  have hfrac : ∀ d ∈ frac, d < 10 := fun d hd => hdigits d (by simp [hd])
  have hexp : ∀ d ∈ exp, d < 10 := fun d hd => hdigits d (by simp [hd])
  obtain ⟨p₀, hp₀, hpath₀⟩ := path_whole nesting rest kvs key negative hwhole hleading
    hshort
  have hfirst : ∃ phase, (if frac = [] then phase = .zero ∨ phase = .whole else phase = .frac) ∧
      Path nesting rest ⟨.number p₀ { negative, whole }, .obj kvs key :: rest⟩
        (if frac = [] then [] else '.' :: frac.map Nat.digitChar)
        ⟨.number phase { negative, whole, frac }, .obj kvs key :: rest⟩ := by
    by_cases hf : frac = []
    · subst hf
      exact ⟨p₀, hp₀, rfl⟩
    · simp only [if_neg hf]
      exact ⟨.frac, rfl, path_frac hp₀ hshort hfrac hf⟩
  obtain ⟨p₁, hp₁, hpath₁⟩ := hfirst
  have hbefore := hpath₀.append hpath₁
  by_cases he : exp = []
  · subst he
    obtain rfl := hsigned rfl
    refine ⟨p₁, ?_, ?_⟩
    · unfold NumberText.EndPhase
      by_cases hf : frac = []
      · rw [if_pos ⟨hf, rfl⟩]
        rwa [if_pos hf] at hp₁
      · rw [if_neg (fun hboth => hf hboth.1)]
        rw [if_neg hf] at hp₁
        exact Or.inl hp₁
    · show Path nesting rest _ (_ ++ _ ++ []) _
      rw [List.append_nil]
      exact hbefore
  · have hphase : p₁ = .zero ∨ p₁ = .whole ∨ p₁ = .frac := by
      split at hp₁
      · rcases hp₁ with rfl | rfl
        · exact Or.inl rfl
        · exact Or.inr (Or.inl rfl)
      · exact Or.inr (Or.inr hp₁)
    refine ⟨.exp, ?_, ?_⟩
    · unfold NumberText.EndPhase
      rw [if_neg (fun hboth => he hboth.2)]
      exact Or.inr rfl
    · simp only [NumberText.text, if_neg he]
      exact hbefore.append (path_exp hphase hshort hexp he rfl)

end Numbers

/-! ## Objects -/

section Objects

variable {nesting : ℕ} {rest : List Frame} {kvs : List (String × Json)} {key : String}

/-- The reader has read all of a value, and what comes next ends it. -/
def Ready (nesting : ℕ) (v : Json) (stack : List Frame) (σ : Reader) : Prop :=
  ∀ c, c = ',' ∨ c = '}' → step nesting σ c = closeStep (deliver v stack) c

theorem ready_deliver (v : Json) :
    Ready nesting v (.obj kvs key :: rest) (deliver v (.obj kvs key :: rest)) := by
  intro c _
  rfl

theorem ready_number {phase : NumberPhase} {n : NumberText} {v : Json} {stack : List Frame}
    (hphase : n.EndPhase phase) (hv : n.value phase = .ok v) :
    Ready nesting v stack ⟨.number phase n, stack⟩ := by
  intro c hc
  have hnone : n.advance phase c = none := by
    unfold NumberText.EndPhase at hphase
    split at hphase
    · rcases hphase with rfl | rfl <;> rcases hc with rfl | rfl <;> rfl
    · rcases hphase with rfl | rfl <;> rcases hc with rfl | rfl <;> rfl
  have hI : ¬ (phase = .minus ∧ c = 'I') := by
    rintro ⟨-, rfl⟩
    rcases hc with h | h <;> exact absurd h (by decide)
  simp only [step, if_neg hI, hnone, hv, Except.bind]

variable (nesting rest kvs key) in
theorem path_scalar {x : Scalar} (h : x.Printable) :
    ∃ σ, Path nesting rest ⟨.value, .obj kvs key :: rest⟩ x.text σ ∧ Torn rest σ ∧
      Ready nesting x.toJson (.obj kvs key :: rest) σ := by
  have hnumber : ∀ (n : NumberText) (v : Json), n.Canonical →
      (∀ phase, n.EndPhase phase → n.value phase = .ok v) →
      ∃ σ, Path nesting rest ⟨.value, .obj kvs key :: rest⟩ n.text σ ∧ Torn rest σ ∧
        Ready nesting v (.obj kvs key :: rest) σ := by
    intro n v hn hv
    obtain ⟨phase, hphase, hpath⟩ := path_number nesting rest kvs key hn
    exact ⟨_, hpath, torn_mode hn.short, ready_number hphase (hv phase hphase)⟩
  cases x with
  | null =>
    refine ⟨deliver .null (.obj kvs key :: rest), ?_, torn_mode trivial, ready_deliver .null⟩
    have hletters : ∀ c ∈ "ull".toList, c.isAlpha = true := List.all_eq_true.mp (by decide)
    refine .step (torn_mode trivial) rfl (.step (torn_mode hletters) rfl ?_)
    refine .step (torn_mode fun c hc => hletters c (List.mem_of_mem_tail hc)) rfl ?_
    exact .step (torn_mode fun c hc => hletters c (List.mem_of_mem_drop (i := 2) hc)) rfl rfl
  | str s =>
    exact ⟨_, path_quote_value s, torn_mode trivial, ready_deliver _⟩
  | int z =>
    refine hnumber (intText z) (.int z) (canonical_intText h) ?_
    intro phase hphase
    have hshort : ¬ maxStrDigits < (intText z).whole.length := Nat.not_lt.mpr h
    rcases hphase with rfl | rfl <;>
      simp only [NumberText.value, if_neg hshort, intValue_intText]
  | float x =>
    refine hnumber x.toNumberText (.float x.floatValue) (canonical_floatText x) ?_
    intro phase hphase
    have hfloat : ¬ (x.frac = [] ∧ x.exp = []) := by
      rintro ⟨hf, he⟩
      rcases x.isFloat with h | h
      · exact h hf
      · exact h he
    unfold NumberText.EndPhase at hphase
    rw [if_neg hfloat] at hphase
    rcases hphase with rfl | rfl <;> rfl

/-- What `json.loads` makes of a written object. -/
def objectOf (kvs : List (String × Json)) (ms : List (String × Scalar)) : List (String × Json) :=
  ms.foldl (fun kvs m => Dict.set kvs m.1 m.2.toJson) kvs

variable (nesting rest kvs key) in
theorem path_member {mode : Mode} (hmode : mode = .key ∨ mode = .keyOrEnd) {m : String × Scalar}
    (h : m.2.Printable) :
    ∃ σ, Path nesting rest ⟨mode, .obj kvs key :: rest⟩ (memberText m) σ ∧ Torn rest σ ∧
      Ready nesting m.2.toJson (.obj kvs m.1 :: rest) σ := by
  obtain ⟨σ, hpath, htorn, hready⟩ := path_scalar nesting rest kvs m.1 h
  refine ⟨σ, (path_quote_key hmode m.1).append ?_, htorn, hready⟩
  exact .step (torn_mode trivial) rfl (.step (torn_mode trivial) rfl hpath)

/-- The members of an object, up to the brace that closes it. -/
theorem path_members {ms : List (String × Scalar)} (hall : ∀ m ∈ ms, m.2.Printable) (hne : ms ≠ []) :
    ∀ {mode : Mode} {kvs : List (String × Json)} {key : String}, mode = .key ∨ mode = .keyOrEnd →
      Path nesting rest ⟨mode, .obj kvs key :: rest⟩ (membersText ms ++ ['}'])
        (deliver (.obj (objectOf kvs ms)) rest) := by
  induction ms with
  | nil => exact absurd rfl hne
  | cons m ms ih =>
    intro mode kvs key hmode
    obtain ⟨σ, hpath, htorn, hready⟩ := path_member nesting rest kvs key hmode
      (hall m List.mem_cons_self)
    have hrest : ∀ m' ∈ ms, m'.2.Printable := fun m' hm' => hall m' (List.mem_cons_of_mem m hm')
    cases ms with
    | nil => exact hpath.append (.step htorn (hready '}' (Or.inr rfl)) rfl)
    | cons m' ms =>
      show Path nesting rest _ (memberText m ++ ',' :: ' ' :: membersText (m' :: ms) ++ ['}']) _
      rw [List.append_assoc]
      refine hpath.append (.step htorn (hready ',' (Or.inl rfl)) ?_)
      exact .step (torn_mode trivial) rfl (ih hrest (List.cons_ne_nil m' ms) (Or.inl rfl))

theorem path_object {ms : List (String × Scalar)} (hall : ∀ m ∈ ms, m.2.Printable) :
    Path nesting rest ⟨.keyOrEnd, .obj [] "" :: rest⟩ (membersText ms ++ ['}'])
      (deliver (.obj (objectOf [] ms)) rest) := by
  by_cases hne : ms = []
  · subst hne
    exact .step (torn_mode trivial) rfl rfl
  · exact path_members hall hne (Or.inr rfl)

end Objects

/-! ## Whole and torn texts -/

section Texts

variable {nesting : ℕ} {rest : List Frame}

/-- A number that stops here is converted, or is no number. -/
theorem value_of_short {n : NumberText} (h : n.whole.length ≤ maxStrDigits) (phase : NumberPhase) :
    n.value phase = .error .decode ∨ ∃ v, n.value phase = .ok v := by
  have hn : ¬ maxStrDigits < n.whole.length := Nat.not_lt.mpr h
  have hno : ¬ (n.frac = [] ∧ maxStrDigits < n.whole.length) := fun hboth => hn hboth.2
  cases phase <;> simp only [NumberText.value, if_neg hn, if_neg hno] <;> simp

theorem Torn.finish {σ : Reader} (h : Torn rest σ) : σ.finish = .error .decode := by
  obtain ⟨mode, stack⟩ := σ
  obtain ⟨⟨kvs, key, hstack⟩, hharmless⟩ := h
  cases mode with
  | number phase n =>
    have hne : ¬ stack = [] := by
      rintro rfl
      cases hstack
    show (n.value phase).bind (fun v => if stack = [] then .ok v else .error .decode) = _
    rcases value_of_short hharmless phase with hv | ⟨v, hv⟩
    · rw [hv]
      rfl
    · rw [hv]
      exact if_neg hne
  | done v => exact absurd hharmless id
  | _ => rfl

variable (nesting) in
/-- Inside an object the brace that opens another one can only be part of a string or open
a value, and the bracket that closes an array can only be part of a string. -/
theorem torn_step {σ : Reader} (h : Torn rest σ) {c : Char} (hc : c = '{' ∨ c = ']') :
    (∃ isKey units, σ.mode = .string isKey units .plain) ∨
      ((σ.mode = .value ∨ σ.mode = .valueOrEnd) ∧ c = '{') ∨ step nesting σ c = .error .decode := by
  obtain ⟨mode, stack⟩ := σ
  obtain ⟨⟨kvs, key, rfl⟩, hharmless⟩ := h
  cases mode with
  | value =>
    rcases hc with rfl | rfl
    · exact Or.inr (Or.inl ⟨Or.inl rfl, rfl⟩)
    · exact Or.inr (Or.inr rfl)
  | valueOrEnd =>
    rcases hc with rfl | rfl
    · exact Or.inr (Or.inl ⟨Or.inr rfl, rfl⟩)
    · exact Or.inr (Or.inr rfl)
  | string isKey units esc =>
    cases esc with
    | plain => exact Or.inl ⟨isKey, units, rfl⟩
    | escaped => rcases hc with rfl | rfl <;> exact Or.inr (Or.inr rfl)
    | hex left acc => rcases hc with rfl | rfl <;> exact Or.inr (Or.inr rfl)
  | number phase n =>
    refine Or.inr (Or.inr ?_)
    have hI : ¬ (phase = .minus ∧ c = 'I') := by
      rintro ⟨-, rfl⟩
      rcases hc with hc | hc <;> exact absurd hc (by decide)
    have hnone : n.advance phase c = none := by
      rcases hc with rfl | rfl <;> cases phase <;> rfl
    simp only [step, if_neg hI, hnone]
    rcases value_of_short hharmless phase with hv | ⟨v, hv⟩
    · rw [hv]
      rfl
    · rw [hv]
      rcases hc with rfl | rfl <;> rfl
  | literal left v =>
    refine Or.inr (Or.inr ?_)
    have hhead : ¬ left.head? = some c := by
      intro hhead
      have halpha := hharmless c (List.mem_of_mem_head? hhead)
      rcases hc with rfl | rfl <;> exact absurd halpha (by decide)
    simp only [step, if_neg hhead]
  | done v => exact absurd hharmless id
  | _ => rcases hc with rfl | rfl <;> exact Or.inr (Or.inr rfl)

variable (nesting) in
/-- A bracket after a torn object does not complete anything. -/
theorem torn_bracket {σ : Reader} (h : Torn rest σ) :
    step nesting σ ']' = .error .decode ∨ ∃ ρ, step nesting σ ']' = .ok ρ ∧ Torn rest ρ := by
  rcases torn_step nesting h (Or.inr rfl) with ⟨isKey, units, hmode⟩ | ⟨-, hc⟩ | herror
  · obtain ⟨mode, stack⟩ := σ
    obtain rfl := hmode
    exact Or.inr ⟨_, rfl, h.inObject, trivial⟩
  · exact absurd hc (by decide)
  · exact Or.inl herror

theorem run_object {ms : List (String × Scalar)} (hall : ∀ m ∈ ms, m.2.Printable) {mode : Mode}
    (hmode : mode = .value ∨ mode = .valueOrEnd) (hdepth : rest.length < nesting) :
    run nesting ⟨mode, rest⟩ (objectText ms) = .ok (deliver (.obj (objectOf [] ms)) rest) := by
  have hopen : step nesting ⟨mode, rest⟩ '{' = .ok ⟨.keyOrEnd, .obj [] "" :: rest⟩ := by
    rcases hmode with rfl | rfl <;> exact if_pos hdepth
  show run nesting _ ('{' :: (membersText ms ++ ['}'])) = _
  rw [run_cons hopen]
  exact (path_object hall).run

variable (rest) in
/-- Part of an object leaves the reader inside it. -/
theorem run_torn {ms : List (String × Scalar)} (hall : ∀ m ∈ ms, m.2.Printable) {mode : Mode}
    (hmode : mode = .value ∨ mode = .valueOrEnd) (hdepth : rest.length < nesting) {n : ℕ}
    (hpos : 0 < n) (hn : n < (objectText ms).length) :
    ∃ σ, run nesting ⟨mode, rest⟩ ((objectText ms).take n) = .ok σ ∧ Torn rest σ := by
  have hopen : step nesting ⟨mode, rest⟩ '{' = .ok ⟨.keyOrEnd, .obj [] "" :: rest⟩ := by
    rcases hmode with rfl | rfl <;> exact if_pos hdepth
  obtain ⟨n, rfl⟩ := Nat.exists_eq_succ_of_ne_zero hpos.ne'
  have htake : (objectText ms).take (n + 1) = '{' :: (membersText ms ++ ['}']).take n := rfl
  rw [htake, run_cons hopen]
  exact (path_object hall).take (Nat.lt_of_succ_lt_succ hn)

theorem loads_objectText {ms : List (String × Scalar)} (hall : ∀ m ∈ ms, m.2.Printable)
    (hnesting : 0 < nesting) :
    loads nesting (objectText ms) = .ok (.obj (objectOf [] ms)) := by
  rw [loads, run_object hall (Or.inl rfl) hnesting]
  rfl

/-- No proper prefix of an object is a JSON text. -/
theorem loads_torn {ms : List (String × Scalar)} (hall : ∀ m ∈ ms, m.2.Printable)
    (hnesting : 0 < nesting) {n : ℕ} (hpos : 0 < n) (hn : n < (objectText ms).length) :
    loads nesting ((objectText ms).take n) = .error .decode := by
  obtain ⟨σ, hrun, htorn⟩ := run_torn [] hall (Or.inl rfl) hnesting hpos hn
  rw [loads, hrun]
  exact htorn.finish

/-- The key of the first member starts with a letter. -/
def LetterFirst : List (String × Scalar) → Prop
  | [] => False
  | m :: _ => ∃ c cs, m.1.toList = c :: cs ∧ c.isAlpha = true

theorem escapeChar_of_isAlpha {c : Char} (h : c.isAlpha = true) : escapeChar c = [c] := by
  have hrange : 0x20 ≤ c.toNat ∧ c.toNat ≤ 0x7E := by
    change (c.isUpper || c.isLower) = true at h
    have hbetween : ('A'.toNat ≤ c.toNat ∧ c.toNat ≤ 'Z'.toNat) ∨
        ('a'.toNat ≤ c.toNat ∧ c.toNat ≤ 'z'.toNat) := by
      refine (Bool.or_eq_true_iff.mp h).imp (fun hupper => of_decide_eq_true hupper) fun hlower => ?_
      obtain ⟨hl, hr⟩ := Bool.and_eq_true_iff.mp hlower
      exact ⟨of_decide_eq_true hl, of_decide_eq_true hr⟩
    rcases hbetween with ⟨hl, hr⟩ | ⟨hl, hr⟩
    · exact ⟨Nat.le_trans (by decide) hl, Nat.le_trans hr (by decide)⟩
    · exact ⟨Nat.le_trans (by decide) hl, Nat.le_trans hr (by decide)⟩
  unfold escapeChar
  split
  · exact absurd h (by decide)
  · exact absurd h (by decide)
  · exact absurd h (by decide)
  · exact absurd h (by decide)
  · exact absurd h (by decide)
  · exact absurd h (by decide)
  · exact absurd h (by decide)
  · exact if_pos hrange

theorem objectText_of_letterFirst {ms : List (String × Scalar)} (h : LetterFirst ms) :
    ∃ c text, c.isAlpha = true ∧ objectText ms = '{' :: '"' :: c :: text := by
  cases ms with
  | nil => exact absurd h id
  | cons m ms =>
    obtain ⟨c, cs, hkey, hc⟩ := h
    have hquote : quote m.1 = '"' :: c :: (cs.flatMap escapeChar ++ ['"']) := by
      rw [quote, hkey, List.flatMap_cons, escapeChar_of_isAlpha hc]
      rfl
    have hmembers : ∃ tail, membersText (m :: ms) = memberText m ++ tail := by
      cases ms with
      | nil => exact ⟨[], (List.append_nil _).symm⟩
      | cons m' ms => exact ⟨',' :: ' ' :: membersText (m' :: ms), rfl⟩
    obtain ⟨tail, htail⟩ := hmembers
    refine ⟨c, cs.flatMap escapeChar ++ ['"'] ++ ':' :: ' ' :: m.2.text ++ tail ++ ['}'], hc, ?_⟩
    rw [objectText, htail, memberText, hquote]
    rfl

/-- After the end of a string a letter is an error. -/
theorem letter_refused {c : Char} (hc : c.isAlpha = true) {mode : Mode} {stack : List Frame}
    (hmode : mode = .colon ∨ mode = .afterValue) :
    step nesting ⟨mode, stack⟩ c = .error .decode := by
  have hne : ∀ d : Char, d.isAlpha = false → c ≠ d := by
    rintro d hd rfl
    rw [hc] at hd
    cases hd
  have hspace : isJsonSpace c = false := by
    simp only [isJsonSpace, decide_eq_false_iff_not, not_or]
    exact ⟨hne _ rfl, hne _ rfl, hne _ rfl, hne _ rfl⟩
  rcases hmode with rfl | rfl
  · simp only [step, hspace, Bool.false_eq_true, ↓reduceIte, if_neg (hne ':' rfl)]
  · simp only [step, closeStep, hspace, Bool.false_eq_true, ↓reduceIte]
    split
    · exact absurd rfl (hne ',' rfl)
    · exact absurd rfl (hne ']' rfl)
    · exact absurd rfl (hne ',' rfl)
    · exact absurd rfl (hne '}' rfl)
    · rfl

/-- An object that follows a torn one is swallowed: the text is refused, or the reader is
still inside the torn object at its end. -/
theorem run_glued {ms : List (String × Scalar)} (hall : ∀ m ∈ ms, m.2.Printable)
    (hfirst : LetterFirst ms) {σ : Reader} (h : Torn rest σ) (hdepth : rest.length + 1 < nesting) :
    run nesting σ (objectText ms) = .error .decode ∨
      ∃ ρ, run nesting σ (objectText ms) = .ok ρ ∧ Torn rest ρ := by
  rcases torn_step nesting h (Or.inl rfl) with
    ⟨isKey, units, hmode⟩ | ⟨hmode, -⟩ | herror
  · left
    obtain ⟨c, text, hc, htext⟩ := objectText_of_letterFirst hfirst
    obtain ⟨mode, stack⟩ := σ
    obtain ⟨kvs, key, rfl⟩ := h.inObject
    obtain rfl := hmode
    have hbrace : step nesting ⟨.string isKey units .plain, .obj kvs key :: rest⟩ '{' =
        .ok ⟨.string isKey (units ++ ['{'.toNat]) .plain, .obj kvs key :: rest⟩ := rfl
    -- The quote that opens the first key ends the torn string, and the key's letter follows it.
    have hclosed : ∃ mode stack, (mode = .colon ∨ mode = .afterValue) ∧
        step nesting ⟨.string isKey (units ++ ['{'.toNat]) .plain, .obj kvs key :: rest⟩ '"' =
          .ok ⟨mode, stack⟩ := by
      cases isKey with
      | true => exact ⟨_, _, Or.inl rfl, rfl⟩
      | false => exact ⟨_, _, Or.inr rfl, rfl⟩
    obtain ⟨mode, stack, hmode, hquote⟩ := hclosed
    rw [htext, run_cons hbrace, run_cons hquote, run, letter_refused hc hmode]
    rfl
  · right
    obtain ⟨mode, stack⟩ := σ
    obtain ⟨kvs, key, rfl⟩ := h.inObject
    exact ⟨_, run_object hall hmode hdepth, torn_mode trivial⟩
  · left
    show (step nesting σ '{').bind _ = _
    rw [herror]
    rfl

/-- Two objects, the first of them torn or not, are no JSON text when nothing separates
them. -/
theorem loads_glued {ms ms' : List (String × Scalar)} (hall : ∀ m ∈ ms, m.2.Printable)
    (hall' : ∀ m ∈ ms', m.2.Printable) (hfirst : LetterFirst ms') (hnesting : 1 < nesting) {n : ℕ}
    (hpos : 0 < n) :
    loads nesting ((objectText ms).take n ++ objectText ms') = .error .decode := by
  unfold loads
  rw [run_append]
  by_cases hn : n < (objectText ms).length
  · obtain ⟨σ, hrun, htorn⟩ := run_torn [] hall (Or.inl rfl)
      (Nat.lt_of_succ_lt hnesting) hpos hn
    rw [hrun]
    show (run nesting σ (objectText ms')).bind _ = _
    rcases run_glued hall' hfirst htorn hnesting with herror | ⟨ρ, hrun', htorn'⟩
    · rw [herror]
      rfl
    · rw [hrun']
      exact htorn'.finish
  · rw [List.take_of_length_le (Nat.not_lt.mp hn),
      run_object hall (Or.inl rfl) (Nat.lt_of_succ_lt hnesting)]
    rfl

end Texts

/-! ## The characters of a text -/

/-- A printable ASCII character. -/
def Plain (c : Char) : Prop := 0x20 ≤ c.toNat ∧ c.toNat ≤ 0x7E

instance (c : Char) : Decidable (Plain c) := inferInstanceAs (Decidable (_ ∧ _))

theorem plain_digitChar {d : ℕ} (hd : d < 16) : Plain (Nat.digitChar d) := by
  interval_cases d <;> decide

theorem plain_of_all {text : List Char} (h : (text.all fun c => decide (Plain c)) = true) :
    ∀ c ∈ text, Plain c :=
  fun c hc => of_decide_eq_true (List.all_eq_true.mp h c hc)

theorem plain_escapeChar (c : Char) : ∀ d ∈ escapeChar c, Plain d := by
  have hhex : ∀ us : List ℕ, ∀ d ∈ us.flatMap hex4, Plain d := by
    intro us d hd
    obtain ⟨u, -, hu⟩ := List.mem_flatMap.mp hd
    have hdigit : ∀ k : ℕ, Plain (hexChar (k % 16)) :=
      fun k => plain_digitChar (Nat.mod_lt k (by decide))
    simp only [hex4, List.mem_cons, List.not_mem_nil, or_false] at hu
    rcases hu with rfl | rfl | rfl | rfl | rfl | rfl
    · decide
    · decide
    · exact hdigit _
    · exact hdigit _
    · exact hdigit _
    · exact hdigit _
  unfold escapeChar
  split
  · exact plain_of_all (by decide)
  · exact plain_of_all (by decide)
  · exact plain_of_all (by decide)
  · exact plain_of_all (by decide)
  · exact plain_of_all (by decide)
  · exact plain_of_all (by decide)
  · exact plain_of_all (by decide)
  · split
    · rename_i hc
      intro d hd
      exact List.mem_singleton.mp hd ▸ hc
    · exact hhex _

theorem plain_quote (s : String) : ∀ c ∈ quote s, Plain c := by
  intro c hc
  simp only [quote, List.cons_append, List.mem_cons, List.mem_append, List.not_mem_nil, or_false,
    List.mem_flatMap] at hc
  rcases hc with rfl | ⟨d, -, hd⟩ | rfl
  · decide
  · exact plain_escapeChar d c hd
  · decide

theorem plain_number {n : NumberText} (h : ∀ d ∈ n.whole ++ n.frac ++ n.exp, d < 10) :
    ∀ c ∈ n.text, Plain c := by
  have hdigits : ∀ ds : List ℕ, (∀ d ∈ ds, d < 10) → ∀ c ∈ ds.map Nat.digitChar, Plain c := by
    intro ds hds c hc
    obtain ⟨d, hd, rfl⟩ := List.mem_map.mp hc
    exact plain_digitChar (Nat.lt_trans (hds d hd) (by decide))
  have hwhole := hdigits n.whole fun d hd => h d (by simp [hd])
  have hfrac := hdigits n.frac fun d hd => h d (by simp [hd])
  have hexp := hdigits n.exp fun d hd => h d (by simp [hd])
  intro c hc
  rw [NumberText.text] at hc
  rcases List.mem_append.mp hc with hc | hc
  · rcases List.mem_append.mp hc with hc | hc
    · rcases List.mem_append.mp hc with hc | hc
      · split at hc
        · exact List.mem_singleton.mp hc ▸ (by decide)
        · cases hc
      · exact hwhole c hc
    · split at hc
      · cases hc
      · rcases List.mem_cons.mp hc with rfl | hc
        · decide
        · exact hfrac c hc
  · split at hc
    · cases hc
    · rcases List.mem_cons.mp hc with rfl | hc
      · decide
      · rcases List.mem_cons.mp hc with rfl | hc
        · split <;> decide
        · exact hexp c hc

theorem plain_scalar (x : Scalar) : ∀ c ∈ x.text, Plain c := by
  cases x with
  | null => exact plain_of_all (by decide)
  | int z =>
    refine plain_number fun d hd => ?_
    simp only [intText, List.append_nil] at hd
    exact digitsOf_lt _ d hd
  | float x => exact plain_number x.digits
  | str s => exact plain_quote s

theorem plain_members (ms : List (String × Scalar)) : ∀ c ∈ membersText ms, Plain c := by
  have hmember : ∀ m : String × Scalar, ∀ c ∈ memberText m, Plain c := by
    intro m c hc
    simp only [memberText, List.mem_append, List.mem_cons] at hc
    rcases hc with hc | rfl | rfl | hc
    · exact plain_quote m.1 c hc
    · decide
    · decide
    · exact plain_scalar m.2 c hc
  induction ms with
  | nil => exact fun c hc => absurd hc List.not_mem_nil
  | cons m ms ih =>
    cases ms with
    | nil => exact hmember m
    | cons m' ms =>
      intro c hc
      simp only [membersText, List.mem_append, List.mem_cons] at hc
      rcases hc with hc | rfl | rfl | hc
      · exact hmember m c hc
      · decide
      · decide
      · exact ih c hc

/-- A written object is printable ASCII, so it holds no line break. -/
theorem plain_object (ms : List (String × Scalar)) : ∀ c ∈ objectText ms, Plain c := by
  intro c hc
  simp only [objectText, List.cons_append, List.mem_cons, List.mem_append, List.not_mem_nil,
    or_false] at hc
  rcases hc with rfl | hc | rfl
  · decide
  · exact plain_members ms c hc
  · decide

end Py
