import BatchEngine.Core.Models
import BatchEngine.Lib.JsonRoundTrip
import Mathlib.Data.Finset.Dedup
import Mathlib.Data.Finset.Insert
import Mathlib.Data.Finset.Lattice.Basic
import Mathlib.Data.List.DropRight

/-!
# The result file and its replay

The bytes that the sink writes for its rows, and what `replay` counts in them.
-/

set_option autoImplicit false

namespace BatchEngine.Core

open Py

/-! ## The texts of a row -/

/-- `f"{http_status}"`. -/
def statusText : Option ℤ → String
  | none => "None"
  | some code => toString code

def AbortReason.text (host : Host) : AbortReason → String
  | .fatal failureClass httpStatus =>
    failureClass.value ++ " (HTTP " ++ statusText httpStatus ++ ")"
  | .spendGuard costSoFar projected cap =>
    "spend guard: cost $" ++ fixed 4 costSoFar ++ " / projected $" ++ fixed 4 projected ++
      " >= cap $" ++ String.ofList (host.reprFloat cap).text

def Message.text (host : Host) : Message → String
  | .ingest text => text
  | .jobCancelledBeforeDispatch => "job cancelled before dispatch"
  | .jobAborted => "job aborted"
  | .abort reason => reason.text host
  | .fatalHttp httpStatus => "fatal: HTTP " ++ statusText httpStatus
  | .maxAttemptsExhausted => "max attempts exhausted"
  | .retryBudgetExhausted => "retry budget exhausted"
  | .unexpectedExceptionEscapedProcessItem => "unexpected exception escaped process_item"

/-- `_result_line`. -/
def resultLine (host : Host) (result : RowResult) : List (String × Scalar) :=
  [("item_id", .str result.itemId), ("status", .str "success"),
    ("response_text", .str result.responseText), ("input_tokens", .int result.usage.inputTokens),
    ("output_tokens", .int result.usage.outputTokens),
    ("latency_s", .float (host.reprFloat result.latencyS)), ("attempt", .int result.attempt)]

/-- `_error_line`. -/
def errorLine (host : Host) (error : RowError) : List (String × Scalar) :=
  [("item_id", .str error.itemId), ("status", .str "error"),
    ("failure_class", .str error.failureClass.value), ("message", .str (error.message.text host)),
    ("attempt", .int error.attempt),
    ("http_status", match error.httpStatus with
      | none => .null
      | some code => .int code)]

def Row.line (host : Host) : Row → List (String × Scalar)
  | .result r => resultLine host r
  | .error e => errorLine host e

/-- `json.dumps` of the row does not raise. -/
def Row.Printable (host : Host) (row : Row) : Prop := ∀ m ∈ row.line host, m.2.Printable

instance (host : Host) (row : Row) : Decidable (row.Printable host) :=
  inferInstanceAs (Decidable (∀ m ∈ row.line host, m.2.Printable))

/-- A row that the writer wrote. -/
structure Written (host : Host) where
  row : Row
  printable : row.Printable host

namespace Written

variable {host : Host}

/-- The JSON object of the row, without the line end. -/
def text (w : Written host) : List Char := objectText (w.row.line host)

def toJson (w : Written host) : Json := .obj (objectOf [] (w.row.line host))

theorem dumps_line (w : Written host) : dumps (w.row.line host) = .ok w.text := if_pos w.printable

end Written

/-- What the writer appends for the rows. -/
def fileText {host : Host} (rows : List (Written host)) : List Char :=
  rows.flatMap fun w => w.text ++ ['\n']

def fileBytes {host : Host} (rows : List (Written host)) : List UInt8 :=
  TextFile.encode (fileText rows)

/-! ## Replay -/

structure ReplayState where
  succeeded : ℕ := 0
  failed : ℕ := 0
  seenItemIds : Finset String := ∅
  deriving DecidableEq

def LoadError.exc : LoadError → Exc
  | .decode | .intDigits => .valueError
  | .nesting => .recursionError

/-- `row.get("status") == value`. -/
def hasStatus (value : String) (row : Json) : Except Exc Bool :=
  (getD "status" .null row).map fun
    | .str s => s = value
    | _ => false

/-- A row that `json.loads` read. -/
def countRow (host : Host) (state : ReplayState) (row : Json) : Except Exc ReplayState := do
  let itemId ← getD "item_id" .null row
  let success ← hasStatus "success" row
  let state := { state with seenItemIds := insert (host.str itemId) state.seenItemIds }
  pure (if success then { state with succeeded := state.succeeded + 1 }
    else { state with failed := state.failed + 1 })

def replayLine (host : Host) (state : ReplayState) (line : List Char) : Except Exc ReplayState :=
  let line := strip line
  if line = [] then .ok state
  else match loads host.nesting line with
    | .error .decode => .ok state
    | .error e => .error (LoadError.exc e)
    | .ok row => countRow host state row

def replayLines (host : Host) : ReplayState → List (List Char) → Except Exc ReplayState
  | state, [] => .ok state
  | state, line :: lines =>
    (replayLine host state line).bind fun state => replayLines host state lines

/-- `replay` of an existing file. -/
def replay (host : Host) (bytes : List UInt8) : Except Exc ReplayState :=
  let (lines, undecodable) := host.readLines bytes
  (replayLines host {} lines).bind fun state =>
    if undecodable then .error .valueError else .ok state

/-! ## The text of one row -/

section Rows

variable {host : Host}

theorem Written.plain (w : Written host) : ∀ c ∈ w.text, Plain c := plain_object _

theorem unbroken_of_plain {text : List Char} (h : ∀ c ∈ text, Plain c) : TextFile.Unbroken text := by
  intro c hc hbreak
  have hplain := h c hc
  rcases hbreak with rfl | rfl <;> exact absurd hplain (by decide)

theorem Written.ascii (w : Written host) : TextFile.Ascii w.text :=
  fun c hc => Nat.lt_succ_of_le (Nat.le_succ_of_le (w.plain c hc).2)

theorem ascii_fileText (rows : List (Written host)) : TextFile.Ascii (fileText rows) := by
  intro c hc
  obtain ⟨w, -, hw⟩ := List.mem_flatMap.mp hc
  rcases List.mem_append.mp hw with hw | hw
  · exact w.ascii c hw
  · exact List.mem_singleton.mp hw ▸ (by decide)

theorem Written.text_eq (w : Written host) :
    ∃ members, w.text = '{' :: (members ++ ['}']) := ⟨membersText (w.row.line host), rfl⟩

theorem Written.text_pos (w : Written host) : 0 < w.text.length := by
  obtain ⟨members, h⟩ := w.text_eq
  rw [h]
  exact Nat.succ_pos _

theorem Written.letterFirst (w : Written host) : LetterFirst (w.row.line host) := by
  have hletters : ∃ c cs, "item_id".toList = c :: cs ∧ c.isAlpha = true := ⟨_, _, rfl, rfl⟩
  obtain ⟨row, _⟩ := w
  cases row with
  | result r => exact hletters
  | error e => exact hletters

theorem nesting_pos (host : Host) : 0 < host.nesting :=
  Nat.lt_of_lt_of_le Nat.zero_lt_two host.two_le_nesting

/-- A text that begins and ends with a brace is not stripped. -/
theorem strip_braced (middle : List Char) :
    strip ('{' :: (middle ++ ['}'])) = '{' :: (middle ++ ['}']) := by
  have hfront : ('{' :: (middle ++ ['}'])).dropWhile isSpace = '{' :: (middle ++ ['}']) :=
    List.dropWhile_cons_of_neg (by decide)
  unfold strip
  rw [hfront, ← List.cons_append]
  exact List.rdropWhile_concat_neg isSpace _ '}' (by decide)

/-- Stripping a beginning of a row's text leaves a beginning of it. -/
theorem strip_take (w : Written host) {k : ℕ} (hk : 0 < k) :
    ∃ m, 0 < m ∧ m ≤ k ∧ strip (w.text.take k) = w.text.take m := by
  obtain ⟨members, htext⟩ := w.text_eq
  obtain ⟨k, rfl⟩ := Nat.exists_eq_succ_of_ne_zero hk.ne'
  have hhead : w.text.take (k + 1) = '{' :: (members ++ ['}']).take k := by rw [htext]; rfl
  have hstrip : strip (w.text.take (k + 1)) = (w.text.take (k + 1)).rdropWhile isSpace := by
    have hfront : (w.text.take (k + 1)).dropWhile isSpace = w.text.take (k + 1) := by
      rw [hhead]
      exact List.dropWhile_cons_of_neg (by decide)
    rw [strip, hfront]
    rfl
  have hbegin := List.rdropWhile_prefix isSpace (w.text.take (k + 1))
  have hwhole := List.prefix_iff_eq_take.mp (hbegin.trans (List.take_prefix (k + 1) w.text))
  have hne : (w.text.take (k + 1)).rdropWhile isSpace ≠ [] := by
    intro hnil
    have hall := List.rdropWhile_eq_nil_iff.mp hnil '{' (hhead ▸ List.mem_cons_self)
    exact absurd hall (by decide)
  refine ⟨_, List.length_pos_of_ne_nil hne, ?_, hstrip.trans hwhole⟩
  exact hbegin.length_le.trans (List.length_take_le _ _)

theorem loads_row (w : Written host) : loads host.nesting w.text = .ok w.toJson :=
  loads_objectText w.printable (nesting_pos host)

theorem getD_itemId (w : Written host) : getD "item_id" .null w.toJson = .ok (.str w.row.itemId) := by
  obtain ⟨row, _⟩ := w
  cases row <;>
    simp [Written.toJson, Row.line, resultLine, errorLine, objectOf, Dict.set, getD, lookup,
      Scalar.toJson, Row.itemId]

def Row.status : Row → String
  | .result _ => "success"
  | .error _ => "error"

theorem getD_status (w : Written host) : getD "status" .null w.toJson = .ok (.str w.row.status) := by
  obtain ⟨row, _⟩ := w
  cases row <;>
    simp [Written.toJson, Row.line, resultLine, errorLine, objectOf, Dict.set, getD, lookup,
      Scalar.toJson, Row.status]

/-- `row.get("status") == value` of a row that the sink wrote. -/
theorem hasStatus_row (w : Written host) (value : String) :
    hasStatus value w.toJson = .ok (decide (w.row.status = value)) := by
  rw [hasStatus, getD_status]
  rfl

end Rows

/-! ## Cutting the file -/

section Cuts

variable {host : Host}

/-- The bytes of the row's object. -/
def Written.size (w : Written host) : ℕ := (TextFile.encode w.text).length

theorem Written.size_eq (w : Written host) : w.size = w.text.length := by
  rw [Written.size, TextFile.encode_ascii w.ascii, List.length_map]

/-- The rows whose whole object lies in the first `n` bytes of the file. -/
def complete : List (Written host) → ℕ → List (Written host)
  | [], _ => []
  | w :: rows, n => if w.size ≤ n then w :: complete rows (n - (w.size + 1)) else []

@[simp] theorem fileText_nil : fileText ([] : List (Written host)) = [] := rfl

theorem fileText_cons (w : Written host) (rows : List (Written host)) :
    fileText (w :: rows) = w.text ++ '\n' :: fileText rows := by
  rw [fileText, List.flatMap_cons, List.append_assoc]
  rfl

/-- The first `n` bytes of the file end inside the object of a row. -/
def MidRow : List (Written host) → ℕ → Prop
  | [], _ => False
  | w :: rows, n => (0 < n ∧ n < w.size) ∨ (w.size < n ∧ MidRow rows (n - (w.size + 1)))

/-- What is left of the file after a cut: some rows with their line ends, and possibly a
beginning of the next one. -/
inductive Cut (rows : List (Written host)) (n : ℕ) : Prop
  | atLineStart (ws : List (Written host)) (htext : (fileText rows).take n = fileText ws)
      (hcomplete : complete rows n = ws) (hmid : ¬ MidRow rows n)
  | inRow (ws : List (Written host)) (w : Written host) (k : ℕ)
      (htext : (fileText rows).take n = fileText ws ++ w.text.take k) (hpos : 0 < k)
      (hk : k < w.text.length) (hcomplete : complete rows n = ws) (hmid : MidRow rows n)
  | afterRow (ws : List (Written host)) (w : Written host)
      (htext : (fileText rows).take n = fileText ws ++ w.text)
      (hcomplete : complete rows n = ws ++ [w]) (hmid : ¬ MidRow rows n)

theorem complete_zero (rows : List (Written host)) : complete rows 0 = [] := by
  cases rows with
  | nil => rfl
  | cons w rows =>
    have hpos := w.text_pos
    rw [← w.size_eq] at hpos
    exact if_neg (Nat.not_le.mpr hpos)

theorem cut_cases (rows : List (Written host)) : ∀ n, Cut rows n := by
  induction rows with
  | nil =>
    intro n
    refine .atLineStart [] ?_ rfl id
    rw [fileText_nil, List.take_nil]
  | cons w rows ih =>
    intro n
    have hsize := w.size_eq
    rcases Nat.lt_trichotomy n w.size with hlt | rfl | hgt
    · have htext : (fileText (w :: rows)).take n = w.text.take n := by
        rw [fileText_cons, List.take_append_of_le_length (by omega)]
      have hnone : complete (w :: rows) n = [] := if_neg (Nat.not_le.mpr hlt)
      rcases Nat.eq_zero_or_pos n with rfl | hpos
      · refine .atLineStart [] (by rw [htext]; rfl) hnone ?_
        rintro (⟨hpos, -⟩ | ⟨hpos, -⟩)
        · exact absurd hpos (Nat.lt_irrefl 0)
        · exact absurd hpos (Nat.not_lt_zero _)
      · exact .inRow [] w n (by rw [htext]; rfl) hpos (by omega) hnone (Or.inl ⟨hpos, hlt⟩)
    · have htext : (fileText (w :: rows)).take w.size = w.text := by
        rw [fileText_cons, List.take_left' hsize.symm]
      have hone : complete (w :: rows) w.size = [w] := by
        rw [complete, if_pos (Nat.le_refl _), Nat.sub_eq_zero_of_le (Nat.le_succ _), complete_zero]
      refine .afterRow [] w (by rw [htext]; rfl) hone ?_
      rintro (⟨-, hlt⟩ | ⟨hlt, -⟩)
      · exact absurd hlt (Nat.lt_irrefl _)
      · exact absurd hlt (Nat.lt_irrefl _)
    · obtain ⟨m, rfl⟩ := Nat.exists_eq_add_of_lt hgt
      have htext : (fileText (w :: rows)).take (w.size + m + 1) =
          w.text ++ '\n' :: (fileText rows).take m := by
        have hlen : w.size + m + 1 - w.text.length = m + 1 := by omega
        rw [fileText_cons, List.take_append, List.take_of_length_le (by omega), hlen,
          List.take_succ_cons]
      have hcomplete : complete (w :: rows) (w.size + m + 1) = w :: complete rows m := by
        rw [complete, if_pos (by omega)]
        congr 2
        omega
      have hmid : MidRow (w :: rows) (w.size + m + 1) ↔ MidRow rows m := by
        have hm : w.size + m + 1 - (w.size + 1) = m := by omega
        rw [MidRow, hm]
        constructor
        · rintro (⟨-, hlt⟩ | ⟨-, hmid⟩)
          · omega
          · exact hmid
        · exact fun hmid => Or.inr ⟨hgt, hmid⟩
      cases ih m with
      | atLineStart ws ht hc hno =>
        exact .atLineStart (w :: ws) (by rw [htext, ht, fileText_cons]) (by rw [hcomplete, hc])
          (mt hmid.mp hno)
      | inRow ws v k ht hpos hk hc hin =>
        refine .inRow (w :: ws) v k ?_ hpos hk (by rw [hcomplete, hc]) (hmid.mpr hin)
        rw [htext, ht, fileText_cons, List.append_assoc]
        rfl
      | afterRow ws v ht hc hno =>
        refine .afterRow (w :: ws) v ?_ (by rw [hcomplete, hc]; rfl) (mt hmid.mp hno)
        rw [htext, ht, fileText_cons, List.append_assoc]
        rfl

/-- The lines of whole rows, and of what follows them. -/
theorem lines_fileText_append (rows : List (Written host)) (rest : List Char) :
    TextFile.lines (fileText rows ++ rest) = rows.map Written.text ++ TextFile.lines rest := by
  induction rows with
  | nil => rfl
  | cons w rows ih =>
    rw [fileText_cons, List.append_assoc, List.cons_append,
      TextFile.lines_append_newline (unbroken_of_plain w.plain), ih]
    rfl

theorem readLines_ascii (host : Host) {text : List Char} (h : TextFile.Ascii text) :
    host.readLines (TextFile.encode text) = (TextFile.lines text, false) := by
  rw [Host.readLines, TextFile.decode_encode_ascii h]
  rfl

theorem fileBytes_take (rows : List (Written host)) (n : ℕ) :
    (fileBytes rows).take n = TextFile.encode ((fileText rows).take n) :=
  TextFile.encode_take (ascii_fileText rows) n

end Cuts

/-! ## What replay counts -/

section Counts

variable {host : Host}

/-- A state that has counted the rows as well. -/
def ReplayState.add (state : ReplayState) (rows : List (Written host)) : ReplayState where
  succeeded := state.succeeded + rows.countP fun w => w.row.isResult
  failed := state.failed + rows.countP fun w => !w.row.isResult
  seenItemIds := state.seenItemIds ∪ (rows.map fun w => w.row.itemId).toFinset

@[simp] theorem add_nil (state : ReplayState) : state.add ([] : List (Written host)) = state := by
  simp [ReplayState.add]

theorem add_append (state : ReplayState) (rows rows' : List (Written host)) :
    state.add (rows ++ rows') = (state.add rows).add rows' := by
  simp [ReplayState.add, Nat.add_assoc, Finset.union_assoc]

/-- A whole line is counted as its row. -/
theorem replayLine_row (w : Written host) (state : ReplayState) :
    replayLine host state w.text = .ok (state.add [w]) := by
  have hstrip : strip w.text = w.text := by
    obtain ⟨members, htext⟩ := w.text_eq
    rw [htext]
    exact strip_braced members
  have hne : w.text ≠ [] := List.ne_nil_of_length_pos w.text_pos
  have hcount : countRow host state w.toJson = .ok (state.add [w]) := by
    rw [countRow, getD_itemId, hasStatus_row]
    obtain ⟨row, _⟩ := w
    cases row with
    | result r => simp [bind, Except.bind, pure, Except.pure, Host.str, Row.status, ReplayState.add,
        Row.isResult]
    | error e => simp [bind, Except.bind, pure, Except.pure, Host.str, Row.status, ReplayState.add,
        Row.isResult]
  simp only [replayLine, hstrip, if_neg hne, loads_row, hcount]

theorem replayLines_rows (rows : List (Written host)) (rest : List (List Char)) :
    ∀ state : ReplayState, replayLines host state (rows.map Written.text ++ rest) =
      replayLines host (state.add rows) rest := by
  induction rows with
  | nil =>
    intro state
    rw [add_nil]
    rfl
  | cons w rows ih =>
    intro state
    have hadd : state.add (w :: rows) = (state.add [w]).add rows := add_append state [w] rows
    show (replayLine host state w.text).bind _ = _
    rw [replayLine_row, hadd]
    exact ih _

theorem take_text_ne (w : Written host) {k : ℕ} (hpos : 0 < k) : w.text.take k ≠ [] := by
  rw [Ne, List.take_eq_nil_iff]
  rintro (rfl | h)
  · exact absurd hpos (Nat.lt_irrefl 0)
  · exact List.ne_nil_of_length_pos w.text_pos h

theorem unbroken_take (w : Written host) (k : ℕ) : TextFile.Unbroken (w.text.take k) :=
  fun c hc => unbroken_of_plain w.plain c (List.mem_of_mem_take hc)

/-- A torn line is skipped. -/
theorem replayLine_torn (w : Written host) {k : ℕ} (hpos : 0 < k) (hk : k < w.text.length)
    (state : ReplayState) : replayLine host state (w.text.take k) = .ok state := by
  obtain ⟨m, hm, hle, hstrip⟩ := strip_take w hpos
  have hloads : loads host.nesting (w.text.take m) = .error .decode :=
    loads_torn w.printable (nesting_pos host) hm (Nat.lt_of_le_of_lt hle hk)
  simp only [replayLine, hstrip, if_neg (take_text_ne w hm), hloads]

/-- A line that starts with a row, torn or not, and goes on with another is skipped. -/
theorem replayLine_glued (w v : Written host) {k : ℕ} (hpos : 0 < k) (state : ReplayState) :
    replayLine host state (w.text.take k ++ v.text) = .ok state := by
  obtain ⟨members, htext⟩ := w.text_eq
  obtain ⟨members', htext'⟩ := v.text_eq
  obtain ⟨k, rfl⟩ := Nat.exists_eq_succ_of_ne_zero hpos.ne'
  have hshape : w.text.take (k + 1) ++ v.text =
      '{' :: ((members ++ ['}']).take k ++ '{' :: members' ++ ['}']) := by
    rw [htext, htext', List.take_succ_cons, List.append_assoc]
    rfl
  have hstrip : strip (w.text.take (k + 1) ++ v.text) = w.text.take (k + 1) ++ v.text := by
    rw [hshape]
    exact strip_braced _
  have hne : w.text.take (k + 1) ++ v.text ≠ [] := by
    rw [hshape]
    exact List.cons_ne_nil _ _
  have hloads : loads host.nesting (w.text.take (k + 1) ++ v.text) = .error .decode :=
    loads_glued w.printable v.printable v.letterFirst host.two_le_nesting hpos
  simp only [replayLine, hstrip, if_neg hne, hloads]

theorem replay_ascii {text : List Char} (h : TextFile.Ascii text) :
    replay host (TextFile.encode text) = replayLines host {} (TextFile.lines text) := by
  rw [replay, readLines_ascii host h]
  show (replayLines host {} (TextFile.lines text)).bind _ = _
  cases replayLines host {} (TextFile.lines text) <;> rfl

/-- Replay of any beginning of the file counts exactly the rows whose whole object lies in
it. -/
theorem replay_take (rows : List (Written host)) (n : ℕ) :
    replay host ((fileBytes rows).take n) = .ok (ReplayState.add {} (complete rows n)) := by
  rw [fileBytes_take, replay_ascii ((ascii_fileText rows).take n)]
  cases cut_cases rows n with
  | atLineStart ws htext hcomplete _ =>
    have hlines := lines_fileText_append ws []
    rw [List.append_nil] at hlines
    rw [htext, hlines, replayLines_rows, hcomplete]
    rfl
  | inRow ws w k htext hpos hk hcomplete _ =>
    rw [htext, lines_fileText_append,
      TextFile.lines_unbroken (unbroken_take w k) (take_text_ne w hpos), replayLines_rows,
      hcomplete, replayLines, replayLine_torn w hpos hk]
    rfl
  | afterRow ws w htext hcomplete _ =>
    have hne : w.text ≠ [] := List.ne_nil_of_length_pos w.text_pos
    rw [htext, lines_fileText_append, TextFile.lines_unbroken (unbroken_of_plain w.plain) hne,
      replayLines_rows, hcomplete, add_append, replayLines, replayLine_row]
    rfl

/-- On every beginning of the file `replay` counts the success rows and the error rows whose
whole object lies in it, and has seen exactly their item ids. -/
theorem replay_exact (rows : List (Written host)) (n : ℕ) :
    ∃ state, replay host ((fileBytes rows).take n) = .ok state ∧
      state.succeeded = (complete rows n).countP (fun w => w.row.isResult) ∧
      state.failed = (complete rows n).countP (fun w => !w.row.isResult) ∧
      ∀ itemId, itemId ∈ state.seenItemIds ↔ ∃ w ∈ complete rows n, w.row.itemId = itemId := by
  refine ⟨_, replay_take rows n, ?_, ?_, ?_⟩
  · simp only [ReplayState.add, Nat.zero_add]
  · simp only [ReplayState.add, Nat.zero_add]
  · intro itemId
    simp only [ReplayState.add, Finset.empty_union, List.mem_toFinset, List.mem_map]

/-! ## Restart after a crash -/

/-- A new sink on the same path appends: replay of the whole counts each later row once
more than replay of what the crash left. -/
def CountsLater (rows : List (Written host)) (n : ℕ) (later : List (Written host)) : Prop :=
  replay host ((fileBytes rows).take n ++ fileBytes later) =
    (replay host ((fileBytes rows).take n)).map fun state => state.add later

/-- The crash left whole lines, or nothing. -/
def AtLineStart (bytes : List UInt8) : Prop := bytes = [] ∨ bytes.getLast? = some 10

instance (bytes : List UInt8) : Decidable (AtLineStart bytes) := inferInstanceAs (Decidable (_ ∨ _))

theorem atLineStart_fileText (rows : List (Written host)) :
    AtLineStart (TextFile.encode (fileText rows)) := by
  induction rows with
  | nil => exact Or.inl rfl
  | cons w rows ih =>
    right
    rw [fileText_cons, ← List.singleton_append, TextFile.encode_append, TextFile.encode_append]
    have hnewline : TextFile.encode ['\n'] = [10] := by decide
    rw [hnewline, ← List.append_assoc, List.getLast?_append]
    rcases ih with hnil | hlast
    · rw [hnil]
      simp
    · rw [hlast]
      rfl

theorem not_atLineStart {text : List Char} (h : ∀ c ∈ text, Plain c) (hne : text ≠ [])
    (before : List Char) : ¬ AtLineStart (TextFile.encode (before ++ text)) := by
  obtain ⟨init, c, rfl⟩ := List.eq_nil_or_concat text |>.resolve_left hne
  have hc : Plain c := h c (by simp)
  have hbyte : TextFile.encode [c] = [c.toUInt8] :=
    TextFile.encode_ascii fun d hd =>
      List.mem_singleton.mp hd ▸ Nat.lt_succ_of_le (Nat.le_succ_of_le hc.2)
  have hlast : TextFile.encode (before ++ init.concat c) =
      TextFile.encode (before ++ init) ++ [c.toUInt8] := by
    rw [← hbyte, ← TextFile.encode_append, List.concat_eq_append, List.append_assoc]
  rw [hlast]
  rintro (hnil | hten)
  · exact absurd hnil (List.append_ne_nil_of_right_ne_nil _ (List.cons_ne_nil _ _))
  · rw [List.getLast?_concat] at hten
    have hmod : c.toNat % 256 = 10 := congrArg UInt8.toNat (Option.some.inj hten)
    have hrange := hc
    unfold Plain at hrange
    omega

theorem fileBytes_append (text : List Char) (rows : List (Written host)) :
    TextFile.encode text ++ fileBytes rows = TextFile.encode (text ++ fileText rows) :=
  (TextFile.encode_append _ _).symm

/-- After whole lines the later rows are counted. -/
theorem replay_after_lines (ws later : List (Written host)) :
    replay host (TextFile.encode (fileText ws) ++ fileBytes later) =
      .ok ((ReplayState.add {} ws).add later) := by
  have hlines := lines_fileText_append later []
  rw [List.append_nil] at hlines
  rw [fileBytes_append, replay_ascii ((ascii_fileText ws).append (ascii_fileText later)),
    lines_fileText_append, hlines, replayLines_rows, replayLines_rows]
  rfl

/-- After a part of a row, or a row without its line end, the first later row is lost, and
the row before it. -/
theorem replay_after_part (ws : List (Written host)) (w : Written host) {k : ℕ} (hpos : 0 < k)
    (v : Written host) (later : List (Written host)) :
    replay host (TextFile.encode (fileText ws ++ w.text.take k) ++ fileBytes (v :: later)) =
      .ok ((ReplayState.add {} ws).add later) := by
  have hlines := lines_fileText_append later []
  rw [List.append_nil] at hlines
  have hascii := ((ascii_fileText ws).append (w.ascii.take k)).append (ascii_fileText (v :: later))
  have hbroken : TextFile.Unbroken (w.text.take k ++ v.text) := by
    intro c hc
    rcases List.mem_append.mp hc with hc | hc
    · exact unbroken_take w k c hc
    · exact unbroken_of_plain v.plain c hc
  rw [fileBytes_append, replay_ascii hascii, List.append_assoc, lines_fileText_append, fileText_cons,
    ← List.append_assoc, TextFile.lines_append_newline hbroken, hlines, replayLines_rows,
    replayLines, replayLine_glued w v hpos]
  exact replayLines_rows later [] _

def ReplayState.total (state : ReplayState) : ℕ := state.succeeded + state.failed

theorem total_add (state : ReplayState) (rows : List (Written host)) :
    (state.add rows).total = state.total + rows.length := by
  have hsplit := List.length_eq_countP_add_countP (fun w : Written host => w.row.isResult) (l := rows)
  simp only [ReplayState.total, ReplayState.add]
  simp only [Bool.not_eq_true, Bool.decide_eq_false] at hsplit
  omega

/-- The part of a row that a crash leaves swallows the first row of the next sink. -/
theorem countsLater_iff (rows : List (Written host)) (n : ℕ) (later : List (Written host)) :
    CountsLater rows n later ↔ later = [] ∨ AtLineStart ((fileBytes rows).take n) := by
  cases later with
  | nil =>
    refine iff_of_true ?_ (Or.inl rfl)
    have hsame : (fun state : ReplayState => state.add ([] : List (Written host))) = id :=
      funext add_nil
    have hnone : fileBytes ([] : List (Written host)) = [] := rfl
    rw [CountsLater, hsame, hnone, List.append_nil]
    cases replay host ((fileBytes rows).take n) <;> rfl
  | cons v later =>
    have hlost : ∀ (ws : List (Written host)) (w : Written host) (k : ℕ), 0 < k →
        (fileText rows).take n = fileText ws ++ w.text.take k →
        ws.length ≤ (complete rows n).length →
        (CountsLater rows n (v :: later) ↔
          v :: later = [] ∨ AtLineStart ((fileBytes rows).take n)) := by
      intro ws w k hpos htext hle
      have hplain : ∀ c ∈ w.text.take k, Plain c := fun c hc => w.plain c (List.mem_of_mem_take hc)
      refine iff_of_false ?_ ?_
      · intro hcounts
        rw [CountsLater, replay_take, fileBytes_take, htext, replay_after_part ws w hpos] at hcounts
        have htotal := congrArg ReplayState.total (Except.ok.inj hcounts)
        rw [total_add, total_add, total_add, total_add, List.length_cons] at htotal
        omega
      · rintro (hnil | hstart)
        · cases hnil
        · rw [fileBytes_take, htext] at hstart
          exact not_atLineStart hplain (take_text_ne w hpos) _ hstart
    cases cut_cases rows n with
    | atLineStart ws htext hcomplete _ =>
      refine iff_of_true ?_ (Or.inr ?_)
      · rw [CountsLater, replay_take, fileBytes_take, htext, replay_after_lines, hcomplete]
        rfl
      · rw [fileBytes_take, htext]
        exact atLineStart_fileText ws
    | inRow ws w k htext hpos hk hcomplete _ =>
      exact hlost ws w k hpos htext (hcomplete ▸ Nat.le_refl _)
    | afterRow ws w htext hcomplete _ =>
      refine hlost ws w w.text.length w.text_pos ?_ ?_
      · rw [htext, List.take_length]
      · rw [hcomplete, List.length_append]
        exact Nat.le_add_right _ _

end Counts

/-! ## A torn row and a resumed job -/

/-- `repr` of a float with one decimal and at most 4300 digits before it. -/
def tenths (q : ℚ) : FloatText :=
  if h : (digitsOf ⌊|q|⌋.toNat).length ≤ maxStrDigits then
    { negative := q < 0
      whole := digitsOf ⌊|q|⌋.toNat
      frac := [⌊|q| * 10⌋.toNat % 10]
      digits := by
        intro d hd
        rw [List.append_nil] at hd
        rcases List.mem_append.mp hd with hd | hd
        · exact digitsOf_lt _ d hd
        · exact List.mem_singleton.mp hd ▸ Nat.mod_lt _ (by decide)
      leading := digitsOf_leading _
      short := h
      signed := fun _ => rfl
      isFloat := Or.inl (List.cons_ne_nil _ _) }
  else
    { whole := [0], frac := [0], digits := by decide, leading := Or.inl rfl, short := by decide
      signed := fun _ => rfl, isFloat := Or.inl (List.cons_ne_nil _ _) }

/-- An interpreter on the few values that the runs below write. -/
def tenthsHost : Host where
  nesting := 1000
  two_le_nesting := by decide
  reprFloat := tenths
  repr
    | .null => "None"
    | .bool b => if b then "True" else "False"
    | .int n => toString n
    | _ => ""
  decodeMessage := fun _ => "Expecting value: line 1 column 1 (char 0)"
  linesHandedOut := fun _ => 0

/-- An item that gave up after five attempts. -/
def exhausted (itemId : String) : Row :=
  .error ⟨itemId, .transientExhausted, .maxAttemptsExhausted, 5, some 500⟩

def exhaustedWritten (itemId : String) : Written tenthsHost where
  row := exhausted itemId
  printable := by
    intro m hm
    simp only [exhausted, Row.line, errorLine, List.mem_cons, List.not_mem_nil, or_false] at hm
    rcases hm with rfl | rfl | rfl | rfl | rfl | rfl <;> first | exact trivial | decide

/-- A crash leaves 34 bytes of the row of `torn`; the job is resumed and writes the row of
`b`; replay counts nothing. -/
theorem tornRow_swallows :
    ¬ CountsLater [exhaustedWritten "torn"] 34 [exhaustedWritten "b"] := by
  intro hcounts
  have hlost : (replay tenthsHost ((fileBytes [exhaustedWritten "torn"]).take 34 ++
      fileBytes [exhaustedWritten "b"])).toOption.map ReplayState.total = some 0 := by
    decide +kernel
  have hkept : ((replay tenthsHost ((fileBytes [exhaustedWritten "torn"]).take 34)).map
      fun state => state.add [exhaustedWritten "b"]).toOption.map ReplayState.total = some 1 := by
    decide +kernel
  rw [CountsLater] at hcounts
  rw [hcounts, hkept] at hlost
  cases hlost

end BatchEngine.Core
