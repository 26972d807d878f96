import BatchEngine.Lib.JsonRoundTrip

/-!
# Objects inside objects

`json.dumps` of values without arrays: null, booleans, integers, all floats and strings,
in objects that may stand inside one another. The text is read back as the value, and a
text that stops short is a decode error.
-/

set_option autoImplicit false

namespace Py

/-- A value without parts: a scalar, or what `json.dumps` writes as a name. -/
inductive Atom where
  | scalar (x : Scalar)
  | bool (b : Bool)
  | infinity (negative : Bool)
  | nan

/-- A value with no arrays in it. -/
inductive Nested where
  | leaf (a : Atom)
  | node (ms : List (String × Nested))

namespace Atom

def text : Atom → List Char
  | scalar x => x.text
  | bool true => "true".toList
  | bool false => "false".toList
  | infinity true => "-Infinity".toList
  | infinity false => "Infinity".toList
  | nan => "NaN".toList

def toJson : Atom → Json
  | scalar x => x.toJson
  | bool b => .bool b
  | infinity true => .float .negInf
  | infinity false => .float .posInf
  | nan => .float .nan

def Printable : Atom → Prop
  | scalar x => x.Printable
  | _ => True

instance : (a : Atom) → Decidable a.Printable
  | scalar x => inferInstanceAs (Decidable x.Printable)
  | bool _ | infinity _ | nan => .isTrue trivial

end Atom

namespace Nested

mutual

def text : Nested → List Char
  | leaf a => a.text
  | node ms => '{' :: textOf ms ++ ['}']

/-- The members of an object, without its braces. -/
def textOf : List (String × Nested) → List Char
  | [] => []
  | [(key, t)] => quote key ++ ':' :: ' ' :: t.text
  | (key, t) :: m :: ms => quote key ++ ':' :: ' ' :: t.text ++ ',' :: ' ' :: textOf (m :: ms)

end

mutual

/-- What `json.loads` makes of the text; of two members with one key the later counts. -/
def toJson : Nested → Json
  | leaf a => a.toJson
  | node ms => .obj ((jsonOf ms).foldl (fun kvs m => Dict.set kvs m.1 m.2) [])

def jsonOf : List (String × Nested) → List (String × Json)
  | [] => []
  | (key, t) :: ms => (key, t.toJson) :: jsonOf ms

end

mutual

/-- How deep the objects stand inside one another. -/
def depth : Nested → ℕ
  | leaf _ => 0
  | node ms => depthOf ms + 1

def depthOf : List (String × Nested) → ℕ
  | [] => 0
  | (_, t) :: ms => max t.depth (depthOf ms)

end

mutual

def printable : Nested → Bool
  | leaf a => decide a.Printable
  | node ms => printableOf ms

def printableOf : List (String × Nested) → Bool
  | [] => true
  | (_, t) :: ms => t.printable && printableOf ms

end

/-- `json.dumps`. -/
def dumps (t : Nested) : Except Exc (List Char) :=
  if t.printable then .ok t.text else .error .valueError

end Nested

/-! ## The way of the reader -/

/-- The text is not over, and the reader can fail in no way but a decode error. -/
structure Inside (σ : Reader) : Prop where
  opened : σ.stack ≠ []
  harmless : σ.mode.Harmless

theorem Inside.finish {σ : Reader} (h : Inside σ) : σ.finish = .error .decode := by
  obtain ⟨mode, stack⟩ := σ
  obtain ⟨frame, frames, hstack⟩ := List.exists_cons_of_ne_nil h.opened
  obtain rfl : stack = frame :: frames := hstack
  cases mode with
  | number phase n =>
    show (n.value phase).bind (fun v => if frame :: frames = [] then .ok v else .error .decode) = _
    rcases value_of_short h.harmless phase with hv | ⟨v, hv⟩
    · rw [hv]
      rfl
    · have hopen : ¬ frame :: frames = [] := List.cons_ne_nil frame frames
      simp only [hv, Except.bind, if_neg hopen]
  | done v => exact absurd h.harmless id
  | _ => rfl

theorem Torn.inside {rest : List Frame} {σ : Reader} (h : Torn rest σ) : Inside σ := by
  obtain ⟨⟨kvs, key, hstack⟩, hharmless⟩ := h
  exact ⟨hstack ▸ List.cons_ne_nil _ _, hharmless⟩

section Trails

variable {nesting : ℕ}

variable (nesting) in
/-- The text leads from one state to the other, and in all states before the last the text
is not over. -/
def Trail : Reader → List Char → Reader → Prop
  | σ, [], τ => σ = τ
  | σ, c :: text, τ => Inside σ ∧ ∃ ρ, step nesting σ c = .ok ρ ∧ Trail ρ text τ

theorem Trail.step {σ ρ τ : Reader} {c : Char} {text : List Char} (hσ : Inside σ)
    (hstep : step nesting σ c = .ok ρ) (h : Trail nesting ρ text τ) :
    Trail nesting σ (c :: text) τ :=
  ⟨hσ, ρ, hstep, h⟩

theorem Trail.append {s t : List Char} {ρ τ : Reader} : ∀ {σ : Reader},
    Trail nesting σ s ρ → Trail nesting ρ t τ → Trail nesting σ (s ++ t) τ := by
  induction s with
  | nil =>
    intro σ hs ht
    obtain rfl := hs
    exact ht
  | cons c s ih =>
    intro σ ⟨hσ, υ, hstep, hs⟩ ht
    exact ⟨hσ, υ, hstep, ih hs ht⟩

theorem Trail.run {text : List Char} {τ : Reader} : ∀ {σ : Reader},
    Trail nesting σ text τ → Py.run nesting σ text = .ok τ := by
  induction text with
  | nil =>
    intro σ h
    obtain rfl := h
    rfl
  | cons c text ih =>
    intro σ ⟨_, ρ, hstep, h⟩
    rw [run_cons hstep]
    exact ih h

/-- A proper prefix leaves the reader before the end of the text. -/
theorem Trail.take {text : List Char} {τ : Reader} : ∀ {σ : Reader} {n : ℕ},
    Trail nesting σ text τ → n < text.length →
      ∃ ρ, Py.run nesting σ (text.take n) = .ok ρ ∧ Inside ρ := by
  induction text with
  | nil => exact fun _ hn => absurd hn (Nat.not_lt_zero _)
  | cons c text ih =>
    intro σ n ⟨hσ, ρ, hstep, h⟩ hn
    cases n with
    | zero => exact ⟨σ, rfl, hσ⟩
    | succ n =>
      rw [List.take_succ_cons, run_cons hstep]
      exact ih h (Nat.lt_of_succ_lt_succ hn)

theorem Path.trail {rest : List Frame} {text : List Char} {τ : Reader} : ∀ {σ : Reader},
    Path nesting rest σ text τ → Trail nesting σ text τ := by
  induction text with
  | nil => exact id
  | cons c text ih =>
    intro σ ⟨hσ, ρ, hstep, h⟩
    exact ⟨hσ.inside, ρ, hstep, ih h⟩

variable {rest : List Frame} {kvs : List (String × Json)} {key : String}

theorem inside_mode {mode : Mode} (h : mode.Harmless) : Inside ⟨mode, .obj kvs key :: rest⟩ :=
  ⟨List.cons_ne_nil _ _, h⟩

/-- A name is read letter by letter. -/
theorem trail_literal (v : Json) {left : List Char} (halpha : ∀ c ∈ left, c.isAlpha = true)
    (hne : left ≠ []) :
    Trail nesting ⟨.literal left v, .obj kvs key :: rest⟩ left
      (deliver v (.obj kvs key :: rest)) := by
  induction left with
  | nil => exact absurd rfl hne
  | cons c left ih =>
    have hstep : Py.step nesting ⟨.literal (c :: left) v, .obj kvs key :: rest⟩ c =
        .ok (if left = [] then deliver v (.obj kvs key :: rest)
          else ⟨.literal left v, .obj kvs key :: rest⟩) := if_pos rfl
    refine .step (inside_mode halpha) hstep ?_
    cases left with
    | nil => exact rfl
    | cons d left =>
      exact ih (fun e he => halpha e (List.mem_cons_of_mem c he)) (List.cons_ne_nil d left)

variable (nesting rest kvs key) in
theorem trail_atom {a : Atom} (h : a.Printable) :
    ∃ σ, Trail nesting ⟨.value, .obj kvs key :: rest⟩ a.text σ ∧ Inside σ ∧
      Ready nesting a.toJson (.obj kvs key :: rest) σ := by
  have hname : ∀ (v : Json) (c : Char) (left : List Char),
      step nesting ⟨.value, .obj kvs key :: rest⟩ c =
        .ok ⟨.literal left v, .obj kvs key :: rest⟩ →
      (left.all Char.isAlpha) = true → left ≠ [] →
      ∃ σ, Trail nesting ⟨.value, .obj kvs key :: rest⟩ (c :: left) σ ∧ Inside σ ∧
        Ready nesting v (.obj kvs key :: rest) σ := by
    intro v c left hfirst halpha hne
    refine ⟨deliver v (.obj kvs key :: rest), ?_, inside_mode trivial, ready_deliver v⟩
    exact .step (inside_mode trivial) hfirst
      (trail_literal v (List.all_eq_true.mp halpha) hne)
  cases a with
  | scalar x =>
    obtain ⟨σ, hpath, htorn, hready⟩ := path_scalar nesting rest kvs key h
    exact ⟨σ, hpath.trail, htorn.inside, hready⟩
  | bool b =>
    cases b with
    | true => exact hname (.bool true) 't' "rue".toList rfl (by decide) (by decide)
    | false => exact hname (.bool false) 'f' "alse".toList rfl (by decide) (by decide)
  | nan => exact hname (.float .nan) 'N' "aN".toList rfl (by decide) (by decide)
  | infinity negative =>
    cases negative with
    | false => exact hname (.float .posInf) 'I' "nfinity".toList rfl (by decide) (by decide)
    | true =>
      refine ⟨deliver (.float .negInf) (.obj kvs key :: rest), ?_, inside_mode trivial,
        ready_deliver _⟩
      refine .step (inside_mode trivial) rfl (.step (inside_mode (Nat.zero_le _)) rfl ?_)
      exact trail_literal (.float .negInf) (List.all_eq_true.mp (by decide)) (by decide)

/-! ## Objects -/

/-- A member, once its value can be read. -/
theorem trail_member {mode : Mode} (hmode : mode = .key ∨ mode = .keyOrEnd) (k : String)
    {text : List Char} {σ : Reader}
    (hvalue : Trail nesting ⟨.value, .obj kvs k :: rest⟩ text σ) :
    Trail nesting ⟨mode, .obj kvs key :: rest⟩ (quote k ++ ':' :: ' ' :: text) σ := by
  refine (path_quote_key hmode k).trail.append ?_
  exact .step (inside_mode trivial) rfl (.step (inside_mode trivial) rfl hvalue)

/-- An object, once its members can be read. -/
theorem trail_node {mode : Mode} {v : Json} {text : List Char} {stack : List Frame}
    (hmode : mode = .value) (hinside : Inside ⟨mode, stack⟩) (hdepth : stack.length < nesting)
    (hmembers : Trail nesting ⟨.keyOrEnd, .obj [] "" :: stack⟩ (text ++ ['}']) (deliver v stack)) :
    Trail nesting ⟨mode, stack⟩ ('{' :: text ++ ['}']) (deliver v stack) := by
  subst hmode
  exact .step hinside (if_pos hdepth) hmembers

mutual

/-- A value inside an object is read up to what ends it. -/
theorem trail_nested (nesting : ℕ) (rest : List Frame) (kvs : List (String × Json)) (key : String)
    (t : Nested) (hprint : t.printable = true) (hdepth : rest.length + 1 + t.depth ≤ nesting) :
    ∃ σ, Trail nesting ⟨.value, .obj kvs key :: rest⟩ t.text σ ∧ Inside σ ∧
      Ready nesting t.toJson (.obj kvs key :: rest) σ := by
  cases t with
  | leaf a => exact trail_atom nesting rest kvs key (of_decide_eq_true hprint)
  | node ms =>
    have hmembers : rest.length + 1 + (Nested.depthOf ms + 1) ≤ nesting := hdepth
    refine ⟨deliver (.obj _) (.obj kvs key :: rest), ?_, inside_mode trivial, ready_deliver _⟩
    refine trail_node rfl (inside_mode trivial) ?_ ?_
    · rw [List.length_cons]
      omega
    · refine trail_all nesting (.obj kvs key :: rest) ms hprint ?_ .keyOrEnd [] "" (Or.inr rfl)
        (Or.inr rfl)
      rw [List.length_cons]
      omega

/-- The members of an object, up to the brace that closes it. -/
theorem trail_all (nesting : ℕ) (rest : List Frame) (ms : List (String × Nested))
    (hprint : Nested.printableOf ms = true) (hdepth : rest.length + 1 + Nested.depthOf ms ≤ nesting)
    (mode : Mode) (kvs : List (String × Json)) (key : String)
    (hmode : mode = .key ∨ mode = .keyOrEnd) (hempty : ms ≠ [] ∨ mode = .keyOrEnd) :
    Trail nesting ⟨mode, .obj kvs key :: rest⟩ (Nested.textOf ms ++ ['}'])
      (deliver (.obj ((Nested.jsonOf ms).foldl (fun kvs m => Dict.set kvs m.1 m.2) kvs)) rest) := by
  match ms with
  | [] =>
    obtain rfl := hempty.resolve_left (fun h => h rfl)
    exact .step (inside_mode trivial) rfl rfl
  | [(k, t)] =>
    have hmax : rest.length + 1 + max t.depth 0 ≤ nesting := hdepth
    obtain ⟨σ, hvalue, hinside, hready⟩ := trail_nested nesting rest kvs k t
      (Bool.and_eq_true_iff.mp hprint).1 (by omega)
    exact (trail_member hmode k hvalue).append (.step hinside (hready '}' (Or.inr rfl)) rfl)
  | (k, t) :: m :: ms =>
    have hmax : rest.length + 1 + max t.depth (Nested.depthOf (m :: ms)) ≤ nesting := hdepth
    obtain ⟨hfirst, hothers⟩ := Bool.and_eq_true_iff.mp hprint
    obtain ⟨σ, hvalue, hinside, hready⟩ := trail_nested nesting rest kvs k t hfirst (by omega)
    have htail := trail_all nesting rest (m :: ms) hothers (by omega) .key
      (Dict.set kvs k t.toJson) k (Or.inl rfl) (Or.inl (List.cons_ne_nil m ms))
    show Trail nesting _ (quote k ++ ':' :: ' ' :: t.text ++
      ',' :: ' ' :: Nested.textOf (m :: ms) ++ ['}']) _
    rw [List.append_assoc]
    refine (trail_member hmode k hvalue).append (.step hinside (hready ',' (Or.inl rfl)) ?_)
    exact .step (inside_mode trivial) rfl htail

end

end Trails

/-! ## Whole and torn texts -/

section Texts

variable {nesting : ℕ} {ms : List (String × Nested)}

theorem run_node (hprint : Nested.printableOf ms = true) (hdepth : Nested.depthOf ms < nesting) :
    Trail nesting ⟨.keyOrEnd, [.obj [] ""]⟩ (Nested.textOf ms ++ ['}'])
      ⟨.done (Nested.node ms).toJson, []⟩ := by
  refine trail_all nesting [] ms hprint ?_ .keyOrEnd [] "" (Or.inr rfl) (Or.inr rfl)
  rw [List.length_nil]
  omega

/-- An object that was written is read back. -/
theorem loads_nested (hprint : Nested.printableOf ms = true)
    (hdepth : Nested.depthOf ms < nesting) :
    loads nesting (Nested.node ms).text = .ok (Nested.node ms).toJson := by
  have hopen : step nesting ⟨.value, []⟩ '{' = .ok ⟨.keyOrEnd, [.obj [] ""]⟩ :=
    if_pos (Nat.zero_lt_of_lt hdepth)
  show (run nesting _ ('{' :: (Nested.textOf ms ++ ['}']))).bind _ = _
  rw [run_cons hopen, (run_node hprint hdepth).run]
  rfl

/-- Nothing that is shorter is a JSON text. -/
theorem loads_nested_torn (hprint : Nested.printableOf ms = true)
    (hdepth : Nested.depthOf ms < nesting) {n : ℕ} (hn : n < (Nested.node ms).text.length) :
    loads nesting ((Nested.node ms).text.take n) = .error .decode := by
  cases n with
  | zero => rfl
  | succ n =>
    have hopen : step nesting ⟨.value, []⟩ '{' = .ok ⟨.keyOrEnd, [.obj [] ""]⟩ :=
      if_pos (Nat.zero_lt_of_lt hdepth)
    obtain ⟨σ, hrun, hinside⟩ := (run_node hprint hdepth).take (Nat.lt_of_succ_lt_succ hn)
    show (run nesting _ ('{' :: (Nested.textOf ms ++ ['}']).take n)).bind _ = _
    rw [run_cons hopen, hrun]
    exact hinside.finish

end Texts

/-! ## The characters of a text -/

theorem plain_atom (a : Atom) : ∀ c ∈ a.text, Plain c := by
  cases a with
  | scalar x => exact plain_scalar x
  | bool b =>
    cases b with
    | true => exact plain_of_all (by decide)
    | false => exact plain_of_all (by decide)
  | infinity negative =>
    cases negative with
    | true => exact plain_of_all (by decide)
    | false => exact plain_of_all (by decide)
  | nan => exact plain_of_all (by decide)

mutual

theorem plain_nested (t : Nested) : ∀ c ∈ t.text, Plain c := by
  cases t with
  | leaf a => exact plain_atom a
  | node ms =>
    intro c hc
    simp only [Nested.text, List.cons_append, List.mem_cons, List.mem_append, List.not_mem_nil,
      or_false] at hc
    rcases hc with rfl | hc | rfl
    · decide
    · exact plain_nestedMembers ms c hc
    · decide

theorem plain_nestedMembers (ms : List (String × Nested)) : ∀ c ∈ Nested.textOf ms, Plain c := by
  match ms with
  | [] => exact fun c hc => absurd hc List.not_mem_nil
  | [(key, t)] =>
    intro c hc
    simp only [Nested.textOf, List.mem_append, List.mem_cons] at hc
    rcases hc with hc | rfl | rfl | hc
    · exact plain_quote key c hc
    · decide
    · decide
    · exact plain_nested t c hc
  | (key, t) :: m :: ms =>
    intro c hc
    simp only [Nested.textOf, List.mem_append, List.mem_cons] at hc
    rcases hc with (hc | rfl | rfl | hc) | rfl | rfl | hc
    · exact plain_quote key c hc
    · decide
    · decide
    · exact plain_nested t c hc
    · decide
    · decide
    · exact plain_nestedMembers (m :: ms) c hc

end

/-! ## Objects with distinct keys -/

theorem keys_jsonOf (ms : List (String × Nested)) :
    (Nested.jsonOf ms).map Prod.fst = ms.map Prod.fst := by
  induction ms with
  | nil => rfl
  | cons m ms ih => exact congrArg (m.1 :: ·) ih

theorem toJson_node {ms : List (String × Nested)} (h : (ms.map Prod.fst).Nodup) :
    (Nested.node ms).toJson = .obj (Nested.jsonOf ms) := by
  rw [Nested.toJson, Dict.foldl_set, List.nil_append]
  rwa [List.nil_append, keys_jsonOf]

end Py
