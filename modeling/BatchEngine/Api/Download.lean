import BatchEngine.Core.ResultFile

/-!
# The download of a result file

`GET /job/{id}/download` streams the result file while it may still be growing. The two
framings are written by hand around the raw lines. A filter parses each line and drops
what it cannot parse; without a filter no line is parsed.
-/

set_option autoImplicit false

namespace BatchEngine.Api

open BatchEngine.Core Py

inductive Format where
  | ndjson
  | json
  deriving DecidableEq, Repr

inductive Include where
  | errors
  | success
  | all
  deriving DecidableEq, Repr

/-- `{"success": "success", "errors": "error"}.get(include)`. -/
def Include.wantedStatus : Include → Option String
  | success => some "success"
  | errors => some "error"
  | all => none

/-- One pass of `lines()`: the line that it yields, if any. -/
def selectLine (host : Host) (incl : Include) (line : List Char) :
    Except Exc (Option (List Char)) :=
  if line = [] then .ok none
  else match incl.wantedStatus with
    | none => .ok (some line)
    | some status =>
      match loads host.nesting line with
      | .error .decode => .ok none
      | .error e => .error (LoadError.exc e)
      | .ok row => (hasStatus status row).map fun wanted => if wanted then some line else none

/-- The lines that are yielded, and the exception that ends them early. -/
def selectLines (host : Host) (incl : Include) : List (List Char) → List (List Char) × Option Exc
  | [] => ([], none)
  | line :: rest =>
    match selectLine host incl line with
    | .error e => ([], some e)
    | .ok selected =>
      let (lines, exc) := selectLines host incl rest
      (selected.toList ++ lines, exc)

/-- `lines()`; `none` is a path that does not exist. -/
def downloadLines (host : Host) (incl : Include) :
    Option (List UInt8) → List (List Char) × Option Exc
  | none => ([], none)
  | some bytes =>
    let (lines, undecodable) := host.readLines bytes
    let (selected, exc) := selectLines host incl lines
    (selected, exc.or (if undecodable then some .valueError else none))

/-- What `gen_json` puts between its brackets. -/
def joinLines : List (List Char) → List Char
  | [] => []
  | line :: rest => line ++ rest.flatMap (',' :: ·)

/-- The answer: a refusal, or the body that was streamed and the exception that broke it
off. -/
inductive DownloadAnswer where
  | conflict
  | body (text : List Char) (exc : Option Exc)
  deriving DecidableEq, Repr

def frame (lines : List (List Char)) (exc : Option Exc) : Format → DownloadAnswer
  | .ndjson => .body (lines.flatMap (· ++ ['\n'])) exc
  | .json => .body ('[' :: joinLines lines ++ if exc = none then [']'] else []) exc

/-- The streaming response for a result file with these bytes. -/
def streamFile (host : Host) (format : Format) (incl : Include) (file : Option (List UInt8)) :
    DownloadAnswer :=
  let (lines, exc) := downloadLines host incl file
  frame lines exc format

/-- `download_job` of a known job; `isPartial` is the query's `partial`. -/
def downloadJob (host : Host) (status : JobStatus) (isPartial : Bool) (format : Format)
    (incl : Include) (file : Option (List UInt8)) : DownloadAnswer :=
  if (status = .queued ∨ status = .running) ∧ isPartial = false then .conflict
  else streamFile host format incl file

/-! ## Which rows are yielded -/

section Selection

variable {host : Host}

/-- The rows that a filter lets through. -/
def Include.wants (incl : Include) (row : Row) : Bool :=
  match incl with
  | all => true
  | success => row.isResult
  | errors => !row.isResult

def chosen (incl : Include) (rows : List (Written host)) : List (Written host) :=
  rows.filter fun w => incl.wants w.row

theorem selectLine_row (incl : Include) (w : Written host) :
    selectLine host incl w.text = .ok (if incl.wants w.row then some w.text else none) := by
  have hne : w.text ≠ [] := List.ne_nil_of_length_pos w.text_pos
  unfold selectLine
  rw [if_neg hne]
  cases incl with
  | all => rfl
  | success =>
    simp only [Include.wantedStatus, loads_row, hasStatus_row, Except.map]
    obtain ⟨row, _⟩ := w
    cases row <;> rfl
  | errors =>
    simp only [Include.wantedStatus, loads_row, hasStatus_row, Except.map]
    obtain ⟨row, _⟩ := w
    cases row <;> rfl

theorem selectLines_rows (incl : Include) (rows : List (Written host)) (rest : List (List Char)) :
    selectLines host incl (rows.map Written.text ++ rest) =
      ((chosen incl rows).map Written.text ++ (selectLines host incl rest).1,
        (selectLines host incl rest).2) := by
  induction rows with
  | nil => rfl
  | cons w rows ih =>
    rw [List.map_cons, List.cons_append, selectLines, selectLine_row, chosen, List.filter_cons]
    simp only [ih]
    by_cases hw : incl.wants w.row = true
    · simp [hw, chosen]
    · simp [hw, chosen]

/-- A torn line is dropped by the filters and passed on without one. -/
theorem selectLine_torn (incl : Include) (w : Written host) {k : ℕ} (hpos : 0 < k)
    (hk : k < w.text.length) :
    selectLine host incl (w.text.take k) =
      .ok (if incl = .all then some (w.text.take k) else none) := by
  have hloads : loads host.nesting (w.text.take k) = .error .decode :=
    loads_torn w.printable (nesting_pos host) hpos hk
  unfold selectLine
  rw [if_neg (take_text_ne w hpos)]
  cases incl with
  | all => rfl
  | success =>
    simp only [Include.wantedStatus, hloads]
    rfl
  | errors =>
    simp only [Include.wantedStatus, hloads]
    rfl

theorem downloadLines_ascii (incl : Include) {text : List Char} (h : TextFile.Ascii text) :
    downloadLines host incl (some (TextFile.encode text)) =
      selectLines host incl (TextFile.lines text) := by
  rw [downloadLines, readLines_ascii host h]
  show ((selectLines host incl (TextFile.lines text)).1,
    (selectLines host incl (TextFile.lines text)).2.or none) = _
  rw [Option.or_none]

theorem lines_fileText (rows : List (Written host)) :
    TextFile.lines (fileText rows) = rows.map Written.text := by
  have hlines := lines_fileText_append rows []
  rw [List.append_nil] at hlines
  exact hlines.trans (List.append_nil _)

/-- A download of the whole file yields the rows that are wanted. -/
theorem downloadLines_file (incl : Include) (rows : List (Written host)) :
    downloadLines host incl (some (fileBytes rows)) =
      ((chosen incl rows).map Written.text, none) := by
  have hselect := selectLines_rows incl rows []
  rw [List.append_nil] at hselect
  rw [fileBytes, downloadLines_ascii incl (ascii_fileText rows), lines_fileText, hselect]
  show (_ ++ [], none) = _
  rw [List.append_nil]

/-- The lines that a download of part of the file yields: the whole rows that are wanted
and, without a filter, the part of a row after them. -/
theorem downloadLines_take (incl : Include) (rows : List (Written host)) (n : ℕ) :
    (downloadLines host incl (some ((fileBytes rows).take n)) =
        ((chosen incl (complete rows n)).map Written.text, none) ∧
      (incl = .all → ¬ MidRow rows n)) ∨
    (incl = .all ∧ MidRow rows n ∧ ∃ (w : Written host) (k : ℕ), 0 < k ∧ k < w.text.length ∧
      downloadLines host incl (some ((fileBytes rows).take n)) =
        ((complete rows n).map Written.text ++ [w.text.take k], none)) := by
  rw [fileBytes_take, downloadLines_ascii incl ((ascii_fileText rows).take n)]
  cases cut_cases rows n with
  | atLineStart ws htext hcomplete hmid =>
    left
    refine ⟨?_, fun _ => hmid⟩
    have hfile := downloadLines_file incl ws
    rw [fileBytes, downloadLines_ascii incl (ascii_fileText ws)] at hfile
    rw [htext, hfile, hcomplete]
  | inRow ws w k htext hpos hk hcomplete hmid =>
    rw [htext, lines_fileText_append,
      TextFile.lines_unbroken (unbroken_take w k) (take_text_ne w hpos), selectLines_rows, hcomplete,
      selectLines, selectLine_torn incl w hpos hk]
    by_cases hall : incl = .all
    · right
      subst hall
      refine ⟨rfl, hmid, w, k, hpos, hk, ?_⟩
      have hkeep : chosen .all ws = ws := List.filter_eq_self.mpr fun _ _ => rfl
      rw [hkeep]
      rfl
    · left
      refine ⟨?_, fun h => absurd h hall⟩
      simp only [if_neg hall, selectLines, Option.toList_none, List.append_nil]
  | afterRow ws w htext hcomplete hmid =>
    left
    refine ⟨?_, fun _ => hmid⟩
    have hne : w.text ≠ [] := List.ne_nil_of_length_pos w.text_pos
    have hlast := selectLines_rows incl [w] []
    rw [List.map_singleton, List.append_nil] at hlast
    rw [htext, lines_fileText_append, TextFile.lines_unbroken (unbroken_of_plain w.plain) hne,
      selectLines_rows, hlast, hcomplete, chosen, chosen, chosen, List.filter_append,
      List.map_append]
    show (_ ++ (_ ++ []), none) = _
    rw [List.append_nil]

end Selection

/-! ## The JSON array -/

section Array

variable {host : Host}

theorem run_more (ws : List (Written host)) : ∀ xs : List Json,
    run host.nesting ⟨.afterValue, [.arr xs]⟩ ((ws.map Written.text).flatMap (',' :: ·)) =
      .ok ⟨.afterValue, [.arr (xs ++ ws.map Written.toJson)]⟩ := by
  induction ws with
  | nil =>
    intro xs
    simp only [List.map_nil, List.append_nil]
    rfl
  | cons w ws ih =>
    intro xs
    have hcomma : step host.nesting ⟨.afterValue, [.arr xs]⟩ ',' = .ok ⟨.value, [.arr xs]⟩ := rfl
    have hobject : run host.nesting ⟨.value, [.arr xs]⟩ w.text =
        .ok ⟨.afterValue, [.arr (xs ++ [w.toJson])]⟩ :=
      run_object w.printable (Or.inl rfl) host.two_le_nesting
    rw [List.map_cons, List.flatMap_cons, List.cons_append, run_cons hcomma, run_append, hobject]
    show run host.nesting _ _ = _
    rw [ih, List.append_assoc]
    rfl

/-- The objects of an array, up to the bracket that closes it. -/
theorem run_joinLines (w : Written host) (ws : List (Written host)) :
    run host.nesting ⟨.valueOrEnd, [.arr []]⟩ (joinLines ((w :: ws).map Written.text)) =
      .ok ⟨.afterValue, [.arr ((w :: ws).map Written.toJson)]⟩ := by
  have hobject : run host.nesting ⟨.valueOrEnd, [.arr []]⟩ w.text =
      .ok ⟨.afterValue, [.arr [w.toJson]]⟩ :=
    run_object w.printable (Or.inr rfl) host.two_le_nesting
  rw [List.map_cons, joinLines, run_append, hobject]
  exact run_more ws [w.toJson]

theorem run_open (host : Host) (text : List Char) :
    run host.nesting ⟨.value, []⟩ ('[' :: text) = run host.nesting ⟨.valueOrEnd, [.arr []]⟩ text :=
  run_cons (if_pos (nesting_pos host))

/-- Whole rows are framed as the array of their objects. -/
theorem loads_json (ws : List (Written host)) :
    loads host.nesting ('[' :: joinLines (ws.map Written.text) ++ [']']) =
      .ok (.arr (ws.map Written.toJson)) := by
  rw [loads, List.cons_append, run_open]
  cases ws with
  | nil => rfl
  | cons w ws =>
    rw [run_append, run_joinLines]
    rfl

/-- With a torn row at its end the frame is no JSON text. -/
theorem loads_json_torn (ws : List (Written host)) (w : Written host) {k : ℕ} (hpos : 0 < k)
    (hk : k < w.text.length) :
    loads host.nesting ('[' :: joinLines (ws.map Written.text ++ [w.text.take k]) ++ [']']) =
      .error .decode := by
  have htorn : ∃ xs σ, run host.nesting ⟨.valueOrEnd, [.arr []]⟩
      (joinLines (ws.map Written.text ++ [w.text.take k])) = .ok σ ∧ Torn [.arr xs] σ := by
    cases ws with
    | nil =>
      obtain ⟨σ, hrun, hσ⟩ := run_torn [.arr []] w.printable (Or.inr rfl) host.two_le_nesting hpos hk
      refine ⟨[], σ, ?_, hσ⟩
      show run host.nesting _ (w.text.take k ++ []) = _
      rw [List.append_nil]
      exact hrun
    | cons v ws =>
      obtain ⟨σ, hrun, hσ⟩ := run_torn [.arr ((v :: ws).map Written.toJson)] w.printable
        (Or.inl rfl) host.two_le_nesting hpos hk
      refine ⟨_, σ, ?_, hσ⟩
      have hsplit : joinLines ((v :: ws).map Written.text ++ [w.text.take k]) =
          joinLines ((v :: ws).map Written.text) ++ ',' :: w.text.take k := by
        simp [joinLines]
      rw [hsplit, run_append, run_joinLines]
      exact hrun
  obtain ⟨xs, σ, hrun, hσ⟩ := htorn
  rw [loads, List.cons_append, run_open, run_append, hrun]
  show (run host.nesting σ [']']).bind _ = _
  rcases torn_bracket host.nesting hσ with herror | ⟨ρ, hstep, hρ⟩
  · rw [run, herror]
    rfl
  · rw [run_cons hstep]
    exact hρ.finish

end Array

/-! ## When the download is well formed -/

section Framing

variable {host : Host}

/-- The answer for the first `n` bytes of the file holds the whole rows that are wanted, in
the order of the file. -/
def WellFormed (rows : List (Written host)) (n : ℕ) (format : Format) (incl : Include) : Prop :=
  ∃ text, streamFile host format incl (some ((fileBytes rows).take n)) = .body text none ∧
    match format with
    | .json => loads host.nesting text =
        .ok (.arr ((chosen incl (complete rows n)).map Written.toJson))
    | .ndjson => text = (chosen incl (complete rows n)).flatMap fun w => w.text ++ ['\n']

theorem wellFormed_of_lines {rows : List (Written host)} {n : ℕ} {incl : Include} (format : Format)
    (hlines : downloadLines host incl (some ((fileBytes rows).take n)) =
      ((chosen incl (complete rows n)).map Written.text, none)) :
    WellFormed rows n format incl := by
  rw [WellFormed, streamFile, hlines]
  cases format with
  | json => exact ⟨_, rfl, loads_json _⟩
  | ndjson => exact ⟨_, rfl, List.flatMap_map _ _ _⟩

/-- A download is well formed unless it is unfiltered and the file ends inside a row: the
part of the row is passed on as it is. -/
theorem wellFormed_iff (rows : List (Written host)) (n : ℕ) (format : Format) (incl : Include) :
    WellFormed rows n format incl ↔ incl ≠ .all ∨ ¬ MidRow rows n := by
  rcases downloadLines_take incl rows n with ⟨hlines, hmid⟩ | ⟨rfl, hmid, w, k, hpos, hk, hlines⟩
  · refine iff_of_true (wellFormed_of_lines format hlines) ?_
    by_cases hall : incl = .all
    · exact Or.inr (hmid hall)
    · exact Or.inl hall
  · refine iff_of_false ?_ ?_
    · rw [WellFormed, streamFile, hlines]
      rintro ⟨text, hbody, hright⟩
      cases format with
      | json =>
        obtain ⟨rfl, -⟩ := DownloadAnswer.body.inj hbody
        have herror := loads_json_torn (complete rows n) w hpos hk
        rw [if_pos rfl, herror] at hright
        cases hright
      | ndjson =>
        obtain ⟨rfl, -⟩ := DownloadAnswer.body.inj hbody
        have hkeep : chosen .all (complete rows n) = complete rows n :=
          List.filter_eq_self.mpr fun _ _ => rfl
        have hextra := congrArg List.length hright
        rw [hkeep, List.flatMap_append, List.flatMap_map, List.length_append] at hextra
        simp only [List.flatMap_singleton, List.length_append, List.length_singleton] at hextra
        omega
    · rintro (hall | hno)
      · exact hall rfl
      · exact hno hmid

/-- A crash inside the second row: the unfiltered JSON download cannot be parsed. -/
theorem tornRow_passedOn :
    ¬ WellFormed [exhaustedWritten "a", exhaustedWritten "b"] 150 .json .all := by
  rintro ⟨text, hbody, hjson⟩
  have hbroken : (match streamFile tenthsHost .json .all
      (some ((fileBytes [exhaustedWritten "a", exhaustedWritten "b"]).take 150)) with
      | .body text _ => (loads 1000 text).toOption.isSome
      | .conflict => true) = false := by
    decide +kernel
  have hloads : loads 1000 text = _ := hjson
  rw [hbody] at hbroken
  simp only [hloads, Except.toOption, Option.isSome_some] at hbroken
  cases hbroken

end Framing

end BatchEngine.Api
