import BatchEngine.Providers.DigitalOcean

/-!
# Which replies the live provider turns into data

`complete` navigates the body of a 200 inside one `try`. Its `except` names four exceptions;
an `AttributeError` and an `OverflowError` of the token counts are not among them.
-/

set_option autoImplicit false

namespace BatchEngine.Providers

open Py (Json Exc PyFloat)
open BatchEngine.Core (UsageDelta)

/-- The string at `choices[0].message.content`. -/
def HasContent (body : Json) (text : String) : Prop :=
  ∃ kvs choice rest message, body = .obj kvs ∧
    Py.lookup "choices" kvs = some (.arr (.obj choice :: rest)) ∧
      Py.lookup "message" choice = some (.obj message) ∧
        Py.lookup "content" message = some (.str text)

/-- The reply has become a response with its status; a 200 is malformed, or its text and its
token counts are those of the body. -/
def IntoData (statusCode : ℤ) (body : Except Exc Json) (result : CallResult) : Prop :=
  ∃ resp, result = .returned resp ∧ resp.statusCode = statusCode ∧
    (statusCode = 200 → resp.malformed = true ∨ ∃ value, body = .ok value ∧
      HasContent value resp.text ∧ tokensOf "prompt_tokens" value = .ok resp.inputTokens ∧
        tokensOf "completion_tokens" value = .ok resp.outputTokens)

def isInfinite : Json → Bool
  | .float .posInf => true
  | .float .negInf => true
  | _ => false

/-- The count under `field`, zero if there is none. -/
def countIn (field : String) (usage : List (String × Json)) : Json :=
  (Py.lookup field usage).getD (.int 0)

/-- What is under `usage` is no object, or the first of its counts that is no integer is
infinite. -/
def BadUsage : Json → Prop
  | .obj usage =>
    isInfinite (countIn "prompt_tokens" usage) = true ∨
      (∃ n, Py.int (countIn "prompt_tokens" usage) = .ok n) ∧
        isInfinite (countIn "completion_tokens" usage) = true
  | _ => True

/-- A text, with a bad usage. -/
def BadBody (body : Json) : Prop :=
  (∃ text, HasContent body text) ∧
    ∃ kvs usage, body = .obj kvs ∧ Py.lookup "usage" kvs = some usage ∧ BadUsage usage

/-! ## The accesses -/

theorem bind_ok {α β : Type} {x : Except Exc α} {f : α → Except Exc β} {b : β}
    (h : (x >>= f) = .ok b) : ∃ a, x = .ok a ∧ f a = .ok b := by
  cases x with
  | error e => cases h
  | ok a => exact ⟨a, rfl, h⟩

theorem bind_error {α β : Type} {x : Except Exc α} {f : α → Except Exc β} {e : Exc}
    (h : (x >>= f) = .error e) : x = .error e ∨ ∃ a, x = .ok a ∧ f a = .error e := by
  cases x with
  | error e' => exact Or.inl (congrArg Except.error (Except.error.inj h))
  | ok a => exact Or.inr ⟨a, rfl, h⟩

theorem getKey_ok {k : String} {v w : Json} (h : Py.getKey k v = .ok w) :
    ∃ kvs, v = .obj kvs ∧ Py.lookup k kvs = some w := by
  cases v with
  | obj kvs =>
    rw [Py.getKey] at h
    cases hlookup : Py.lookup k kvs with
    | none =>
      rw [hlookup] at h
      cases h
    | some u =>
      rw [hlookup] at h
      obtain rfl := Except.ok.inj h
      exact ⟨kvs, rfl, hlookup⟩
  | _ => cases h

theorem getKey_obj {k : String} {kvs : List (String × Json)} {w : Json}
    (h : Py.lookup k kvs = some w) : Py.getKey k (.obj kvs) = .ok w := by
  rw [Py.getKey, h]

theorem getKey_caught {k : String} {v : Json} {e : Exc} (h : Py.getKey k v = .error e) :
    caught e = true := by
  cases v with
  | obj kvs =>
    rw [Py.getKey] at h
    cases hlookup : Py.lookup k kvs with
    | none =>
      rw [hlookup] at h
      obtain rfl := Except.error.inj h
      rfl
    | some u =>
      rw [hlookup] at h
      cases h
  | _ => obtain rfl := Except.error.inj h; rfl

/-- Only an array has an object at its front. -/
theorem getZero_obj {v : Json} {kvs : List (String × Json)} (h : Py.getZero v = .ok (.obj kvs)) :
    ∃ rest, v = .arr (.obj kvs :: rest) := by
  cases v with
  | arr xs =>
    cases xs with
    | nil => cases h
    | cons x xs =>
      obtain rfl := Except.ok.inj h
      exact ⟨xs, rfl⟩
  | str s =>
    rw [Py.getZero] at h
    split at h
    · cases h
    · cases h
  | _ => cases h

theorem getZero_caught {v : Json} {e : Exc} (h : Py.getZero v = .error e) : caught e = true := by
  cases v with
  | arr xs =>
    cases xs with
    | nil => obtain rfl := Except.error.inj h; rfl
    | cons x xs => cases h
  | str s =>
    rw [Py.getZero] at h
    split at h
    · cases h
    · obtain rfl := Except.error.inj h
      rfl
  | _ => obtain rfl := Except.error.inj h; rfl

theorem contentOf_str_iff {body : Json} {text : String} :
    contentOf body = .ok (.str text) ↔ HasContent body text := by
  constructor
  · intro h
    obtain ⟨choices, hfirst, h⟩ := bind_ok h
    obtain ⟨choice, hsecond, h⟩ := bind_ok h
    obtain ⟨message, hthird, hfourth⟩ := bind_ok h
    obtain ⟨kvs, rfl, hchoices⟩ := getKey_ok hfirst
    obtain ⟨choice, rfl, hmessage⟩ := getKey_ok hthird
    obtain ⟨message, rfl, hcontent⟩ := getKey_ok hfourth
    obtain ⟨rest, rfl⟩ := getZero_obj hsecond
    exact ⟨kvs, choice, rest, message, rfl, hchoices, hmessage, hcontent⟩
  · rintro ⟨kvs, choice, rest, message, rfl, hchoices, hmessage, hcontent⟩
    simp only [contentOf, getKey_obj hchoices, bind, Except.bind, Py.getZero, getKey_obj hmessage,
      getKey_obj hcontent]

/-- On the way to the text only what is caught is raised. -/
theorem contentOf_caught {body : Json} {e : Exc} (h : contentOf body = .error e) :
    caught e = true := by
  rcases bind_error h with hchoices | ⟨choices, -, h⟩
  · exact getKey_caught hchoices
  · rcases bind_error h with hchoice | ⟨choice, -, h⟩
    · exact getZero_caught hchoice
    · rcases bind_error h with hmessage | ⟨message, -, hcontent⟩
      · exact getKey_caught hmessage
      · exact getKey_caught hcontent

/-! ## The conversions -/

/-- `int` raises nothing that escapes but of an infinite float. -/
theorem int_cases (v : Json) :
    (isInfinite v = false ∧ ((∃ n, Py.int v = .ok n) ∨
      ∃ e, Py.int v = .error e ∧ caught e = true)) ∨
    (isInfinite v = true ∧ Py.int v = .error .overflowError) := by
  cases v with
  | float x =>
    cases x with
    | fin q => exact Or.inl ⟨rfl, Or.inl ⟨_, rfl⟩⟩
    | nan => exact Or.inl ⟨rfl, Or.inr ⟨_, rfl, rfl⟩⟩
    | posInf => exact Or.inr ⟨rfl, rfl⟩
    | negInf => exact Or.inr ⟨rfl, rfl⟩
  | str s =>
    refine Or.inl ⟨rfl, ?_⟩
    rw [Py.int]
    cases Py.intOfString s with
    | none => exact Or.inr ⟨_, rfl, rfl⟩
    | some n => exact Or.inl ⟨n, rfl⟩
  | int n => exact Or.inl ⟨rfl, Or.inl ⟨n, rfl⟩⟩
  | bool b => exact Or.inl ⟨rfl, Or.inl ⟨_, rfl⟩⟩
  | null => exact Or.inl ⟨rfl, Or.inr ⟨_, rfl, rfl⟩⟩
  | arr xs => exact Or.inl ⟨rfl, Or.inr ⟨_, rfl, rfl⟩⟩
  | obj kvs => exact Or.inl ⟨rfl, Or.inr ⟨_, rfl, rfl⟩⟩

/-- A result of `parseBody` that `complete` hands on to its caller as an exception. -/
def Escapes {α : Type} (result : Except Exc α) : Prop := ∃ e, result = .error e ∧ caught e = false

theorem int_escapes_iff (v : Json) : Escapes (Py.int v) ↔ isInfinite v = true := by
  rcases int_cases v with ⟨hfinite, ⟨n, hok⟩ | ⟨e, herror, hcaught⟩⟩ | ⟨hinfinite, herror⟩
  · rw [hfinite, hok]
    exact iff_of_false (fun ⟨_, h, _⟩ => by cases h) Bool.false_ne_true
  · rw [hfinite, herror]
    refine iff_of_false (fun ⟨e', h, huncaught⟩ => ?_) Bool.false_ne_true
    obtain rfl := Except.error.inj h
    rw [hcaught] at huncaught
    cases huncaught
  · rw [hinfinite, herror]
    exact iff_of_true ⟨_, rfl, rfl⟩ rfl

theorem ok_stays {α : Type} (a : α) : ¬ Escapes (.ok a : Except Exc α) := by
  rintro ⟨e, h, -⟩
  cases h

theorem bind_escapes_iff {α β : Type} {x : Except Exc α} {f : α → Except Exc β} :
    Escapes (x >>= f) ↔ Escapes x ∨ ∃ a, x = .ok a ∧ Escapes (f a) := by
  cases x with
  | error e =>
    constructor
    · rintro ⟨e', h, hescapes⟩
      obtain rfl := Except.error.inj h
      exact Or.inl ⟨e, rfl, hescapes⟩
    · rintro (⟨e', h, hescapes⟩ | ⟨a, h, -⟩)
      · obtain rfl := Except.error.inj h
        exact ⟨e, rfl, hescapes⟩
      · cases h
  | ok a =>
    rw [or_iff_right (ok_stays a)]
    constructor
    · exact fun h => ⟨a, rfl, h⟩
    · rintro ⟨b, hb, h⟩
      obtain rfl := Except.ok.inj hb
      exact h

/-! ## The body of a 200 -/

theorem tokensOf_obj (field : String) {kvs usage : List (String × Json)}
    (h : Py.lookup "usage" kvs = some (.obj usage)) :
    tokensOf field (.obj kvs) = Py.int (countIn field usage) := by
  simp only [tokensOf, Py.getD, h, Option.getD_some, bind, Except.bind, countIn]

theorem tokensOf_absent (field : String) {kvs : List (String × Json)}
    (h : Py.lookup "usage" kvs = none) : tokensOf field (.obj kvs) = .ok 0 := by
  simp [tokensOf, Py.getD, h, bind, Except.bind, Py.lookup, Py.int]

/-- Where `usage` is no object, `.get` is no attribute of it. -/
theorem tokensOf_noObject (field : String) {kvs : List (String × Json)} {usage : Json}
    (h : Py.lookup "usage" kvs = some usage) (hobj : ∀ us, usage ≠ .obj us) :
    tokensOf field (.obj kvs) = .error .attributeError := by
  simp only [tokensOf, Py.getD, h, Option.getD_some, bind, Except.bind]

def usageOf (text : String) (body : Json) : Except Exc (Option (String × UsageDelta)) := do
  let inputTokens ← tokensOf "prompt_tokens" body
  let outputTokens ← tokensOf "completion_tokens" body
  return some (text, ⟨inputTokens, outputTokens⟩)

theorem usageOf_escapes_iff (text : String) (kvs : List (String × Json)) :
    Escapes (usageOf text (.obj kvs)) ↔
      ∃ usage, Py.lookup "usage" kvs = some usage ∧ BadUsage usage := by
  have hsplit : Escapes (usageOf text (.obj kvs)) ↔ Escapes (tokensOf "prompt_tokens" (.obj kvs)) ∨
      (∃ n, tokensOf "prompt_tokens" (.obj kvs) = .ok n) ∧
        Escapes (tokensOf "completion_tokens" (.obj kvs)) := by
    unfold usageOf
    rw [bind_escapes_iff]
    refine or_congr_right ?_
    rw [← exists_and_right]
    refine exists_congr fun n => and_congr_right fun _ => ?_
    rw [bind_escapes_iff, or_iff_left]
    rintro ⟨m, -, h⟩
    exact ok_stays _ h
  rw [hsplit]
  cases hlookup : Py.lookup "usage" kvs with
  | none =>
    rw [tokensOf_absent _ hlookup, tokensOf_absent _ hlookup]
    refine iff_of_false ?_ ?_
    · rintro (h | ⟨-, h⟩)
      · exact ok_stays _ h
      · exact ok_stays _ h
    · rintro ⟨usage, h, -⟩
      cases h
  | some usage =>
    simp only [Option.some.injEq, exists_eq_left']
    cases hshape : usage with
    | obj us =>
      rw [hshape] at hlookup
      rw [tokensOf_obj _ hlookup, tokensOf_obj _ hlookup, int_escapes_iff, int_escapes_iff]
      rfl
    | _ =>
      have hobj : ∀ us, usage ≠ .obj us := by
        intro us h
        rw [hshape] at h
        cases h
      rw [tokensOf_noObject _ hlookup hobj]
      exact iff_of_true (Or.inl ⟨_, rfl, rfl⟩) trivial

theorem parseBody_escapes_iff (body : Json) : Escapes (parseBody body) ↔ BadBody body := by
  unfold parseBody
  rw [bind_escapes_iff, or_iff_right]
  · constructor
    · rintro ⟨content, hcontent, hescapes⟩
      cases content with
      | str text =>
        have htext := contentOf_str_iff.mp hcontent
        obtain ⟨kvs, -, -, -, rfl, -⟩ := htext
        obtain ⟨usage, husage, hbad⟩ := (usageOf_escapes_iff text kvs).mp hescapes
        exact ⟨⟨text, contentOf_str_iff.mp hcontent⟩, kvs, usage, rfl, husage, hbad⟩
      | _ => exact absurd hescapes (ok_stays none)
    · rintro ⟨⟨text, htext⟩, kvs, usage, rfl, husage, hbad⟩
      exact ⟨.str text, contentOf_str_iff.mpr htext,
        (usageOf_escapes_iff text kvs).mpr ⟨usage, husage, hbad⟩⟩
  · rintro ⟨e, herror, huncaught⟩
    rw [contentOf_caught herror] at huncaught
    cases huncaught

theorem parseBody_text {body : Json} {text : String} {usage : UsageDelta}
    (h : parseBody body = .ok (some (text, usage))) : HasContent body text := by
  unfold parseBody at h
  obtain ⟨content, hcontent, h⟩ := bind_ok h
  cases content with
  | str s =>
    obtain ⟨inputTokens, -, h⟩ := bind_ok h
    obtain ⟨outputTokens, -, h⟩ := bind_ok h
    obtain ⟨rfl, -⟩ := Prod.mk.inj (Option.some.inj (Except.ok.inj h))
    exact contentOf_str_iff.mp hcontent
  | _ => cases Except.ok.inj h

/-! ## The law -/

/-- A 200 whose body has the exception that `complete` does not catch. -/
def HttpReply.bad (statusCode : ℤ) (body : Except Exc Json) : Prop :=
  statusCode = 200 ∧ ∃ value, body = .ok value ∧ BadBody value

/-- A reply of the client becomes data unless it is a 200 with a text and a bad usage. -/
theorem into_data_iff (statusCode : ℤ) (headers : List (String × String)) (text : String)
    (body : Except Exc Json) (hbody : ∀ e, body = .error e → e = .valueError) :
    IntoData statusCode body
        (DigitalOceanProvider.complete (.response statusCode headers text body)) ↔
      ¬ HttpReply.bad statusCode body := by
  by_cases hstatus : statusCode = 200
  · subst hstatus
    have hparsed : Escapes (body >>= parseBody) ↔ HttpReply.bad 200 body := by
      rw [bind_escapes_iff, or_iff_right]
      · simp only [parseBody_escapes_iff, HttpReply.bad, true_and]
      · rintro ⟨e, herror, huncaught⟩
        obtain rfl := hbody e herror
        cases huncaught
    rw [← hparsed, DigitalOceanProvider.complete, if_neg (not_not.mpr rfl)]
    cases hparse : body >>= parseBody with
    | ok parsed =>
      refine iff_of_true ?_ (ok_stays parsed)
      cases parsed with
      | none => exact ⟨_, rfl, rfl, fun _ => Or.inl rfl⟩
      | some answer =>
        obtain ⟨value, hvalue, hanswer⟩ := bind_ok hparse
        obtain ⟨hinput, houtput⟩ := parseBody_some hanswer
        exact ⟨_, rfl, rfl, fun _ =>
          Or.inr ⟨value, hvalue, parseBody_text hanswer, hinput, houtput⟩⟩
    | error e =>
      cases hcaught : caught e with
      | true =>
        refine iff_of_true ?_ ?_
        · simp only [hcaught, ↓reduceIte]
          exact ⟨_, rfl, rfl, fun _ => Or.inl rfl⟩
        · rintro ⟨e', h, huncaught⟩
          obtain rfl := Except.error.inj h
          rw [hcaught] at huncaught
          cases huncaught
      | false =>
        refine iff_of_false ?_ (not_not.mpr ⟨e, rfl, hcaught⟩)
        simp only [hcaught, Bool.false_eq_true, ↓reduceIte]
        rintro ⟨resp, h, -⟩
        cases h
  · have hgood : ¬ HttpReply.bad statusCode body := fun h => hstatus h.1
    refine iff_of_true ?_ hgood
    rw [DigitalOceanProvider.complete, if_pos hstatus]
    exact ⟨_, rfl, rfl, fun h => absurd h hstatus⟩

/-- A completion as the upstream sends it, with this value under `usage`. -/
def completion (usage : Json) : Json :=
  .obj [("choices", .arr [.obj [("message", .obj [("content", .str "hi")])]]), ("usage", usage)]

/-- `"usage": null` makes `complete` raise. -/
theorem null_usage_escapes : ∃ (statusCode : ℤ) (headers : List (String × String)) (text : String)
    (body : Except Exc Json), (∀ e, body = .error e → e = .valueError) ∧
      ¬ IntoData statusCode body
        (DigitalOceanProvider.complete (.response statusCode headers text body)) := by
  refine ⟨200, [], "", .ok (completion .null), fun e h => (by cases h), ?_⟩
  rintro ⟨resp, h, -⟩
  cases h

theorem into_data_iff_completion : IntoData 200
    (.ok (completion (.obj [("prompt_tokens", .int 3), ("completion_tokens", .int 1)])))
    (DigitalOceanProvider.complete (.response 200 [] ""
      (.ok (completion (.obj [("prompt_tokens", .int 3), ("completion_tokens", .int 1)]))))) := by
  refine (into_data_iff 200 [] "" _ fun e h => by cases h).mpr ?_
  rintro ⟨-, value, hvalue, -, kvs, usage, hkvs, husage, hbad⟩
  obtain rfl := Except.ok.inj hvalue
  obtain rfl := Json.obj.inj hkvs
  obtain rfl := Option.some.inj husage
  rcases hbad with h | ⟨-, h⟩
  · cases h
  · cases h

end BatchEngine.Providers
