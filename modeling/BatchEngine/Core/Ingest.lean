import BatchEngine.Core.IngestBridge
import BatchEngine.Core.ResultFile
import BatchEngine.Core.Scheduler
import BatchEngine.Lib.JsonLimits

/-!
# The parser of the input file

`iter_items_sync` reads a JSON array with a streaming parser, and every other file line by
line. A line that is no JSON text becomes an error row; an exception that is not a
`JSONDecodeError` ends the file.
-/

set_option autoImplicit false

namespace BatchEngine.Core

open Py

def peekBytes : ℕ := 64

/-- `_sniff_is_json_array`. -/
def sniffIsJsonArray (bytes : List UInt8) : Bool :=
  match ((bytes.take peekBytes).map fun b => Char.ofNat b.toNat).find? fun ch => !isSpace ch with
  | some ch => ch = '['
  | none => false

/-- The string under `prompt`, if the row is a dictionary that has one. -/
def promptOf : Json → Option String
  | .obj kvs =>
    match lookup "prompt" kvs with
    | some (.str prompt) => some prompt
    | _ => none
  | _ => none

/-- `str(raw.get("id", f"offset-{offset}"))`; what is no dictionary has no id. -/
def rowId (host : Host) (raw : Json) (offset : ℕ) : String :=
  let absent := "offset-" ++ toString offset
  match raw with
  | .obj kvs =>
    match lookup "id" kvs with
    | some id => host.str id
    | none => absent
  | _ => absent

/-- `_row_to_item`. -/
def rowToItem (host : Host) (raw : Json) (offset : ℕ) : Entry :=
  match promptOf raw with
  | none =>
    .error
      { itemId := rowId host raw offset, failureClass := .invalidInput,
        message := .ingest "row missing a string 'prompt' field", attempt := 1 }
  | some prompt => .item { id := rowId host raw offset, prompt }

/-- The row of a line that is no JSON text. -/
def malformedLine (host : Host) (line : List Char) (offset : ℕ) : Entry :=
  .error
    { itemId := "line-" ++ toString offset, failureClass := .invalidInput,
      message := .ingest ("malformed JSON line: " ++ host.decodeMessage line), attempt := 1 }

/-- One pass over the lines of a file: what is yielded, if anything. -/
def lineItem (host : Host) (line : List Char) (offset : ℕ) : Except Exc (Option Entry) :=
  let line := strip line
  if line = [] then .ok none
  else match loads host.nesting line with
    | .error .decode => .ok (some (malformedLine host line offset))
    | .error e => .error (LoadError.exc e)
    | .ok raw => .ok (some (rowToItem host raw offset))

/-- The entries that are yielded, and the exception that ends them early. -/
def iterLines (host : Host) : ℕ → List (List Char) → List Entry × Option Exc
  | _, [] => ([], none)
  | offset, line :: rest =>
    match lineItem host line offset with
    | .error e => ([], some e)
    | .ok entry =>
      let (entries, exc) := iterLines host (offset + 1) rest
      (entry.toList ++ entries, exc)

/-- `iter_items_sync` of a file with these bytes. `arrayItems` is the streaming parser of
JSON arrays. -/
def iterItemsSync (host : Host) (arrayItems : List UInt8 → List Json × Option Exc)
    (bytes : List UInt8) : List Entry × Option Exc :=
  if sniffIsJsonArray bytes then
    let (raws, exc) := arrayItems bytes
    (raws.zipIdx.map fun (raw, offset) => rowToItem host raw offset, exc)
  else
    let (lines, undecodable) := host.readLines bytes
    let (entries, exc) := iterLines host 0 lines
    (entries, exc.or (if undecodable then some .valueError else none))

/-! ## A line by itself -/

section Lines

variable {host : Host}

/-- The entry of a line. It depends on the line and its number only. -/
def entryOf (host : Host) (line : List Char) (offset : ℕ) : Option Entry :=
  if strip line = [] then none
  else some (match loads host.nesting (strip line) with
    | .ok raw => rowToItem host raw offset
    | .error _ => malformedLine host (strip line) offset)

/-- A blank line has no entry, a dictionary with a string `prompt` is an item, and all
else is an error row. -/
structure EntryOf (host : Host) (line : List Char) (entry : Option Entry) : Prop where
  blank : entry = none ↔ strip line = []
  item : ∀ p, entry = some (.item p) →
    ∃ raw, loads host.nesting (strip line) = .ok raw ∧ promptOf raw = some p.prompt
  error : ∀ e, entry = some (.error e) → e.failureClass = .invalidInput ∧
    ∀ raw, loads host.nesting (strip line) = .ok raw → promptOf raw = none

/-- `json.loads` raises something else than a `JSONDecodeError`. -/
def uncaught : Except LoadError Json → Bool
  | .error .intDigits | .error .nesting => true
  | .error .decode | .ok _ => false

/-- The line makes the parser raise. -/
def Escapes (host : Host) (line : List Char) : Prop :=
  strip line ≠ [] ∧ uncaught (loads host.nesting (strip line)) = true

instance (host : Host) (line : List Char) : Decidable (Escapes host line) :=
  inferInstanceAs (Decidable (_ ∧ _))

theorem rowToItem_item {raw : Json} {offset : ℕ} {p : PromptItem}
    (h : rowToItem host raw offset = .item p) : promptOf raw = some p.prompt := by
  unfold rowToItem at h
  cases hprompt : promptOf raw with
  | none =>
    rw [hprompt] at h
    cases h
  | some prompt =>
    rw [hprompt] at h
    obtain rfl := Entry.item.inj h
    rfl

theorem rowToItem_error {raw : Json} {offset : ℕ} {e : RowError}
    (h : rowToItem host raw offset = .error e) :
    e.failureClass = .invalidInput ∧ promptOf raw = none := by
  unfold rowToItem at h
  cases hprompt : promptOf raw with
  | none =>
    rw [hprompt] at h
    obtain rfl := Entry.error.inj h
    exact ⟨rfl, rfl⟩
  | some prompt =>
    rw [hprompt] at h
    cases h

theorem entryOf_spec (host : Host) (line : List Char) (offset : ℕ) :
    EntryOf host line (entryOf host line offset) := by
  unfold entryOf
  by_cases hblank : strip line = []
  · rw [if_pos hblank]
    exact ⟨iff_of_true rfl hblank, fun _ h => absurd h.symm (Option.some_ne_none _),
      fun _ h => absurd h.symm (Option.some_ne_none _)⟩
  rw [if_neg hblank]
  cases hloads : loads host.nesting (strip line) with
  | error _ =>
    refine ⟨iff_of_false nofun hblank, nofun, fun e he => ?_⟩
    obtain rfl := Entry.error.inj (Option.some.inj he)
    refine ⟨rfl, fun raw hraw => ?_⟩
    cases hloads.symm.trans hraw
  | ok raw =>
    refine ⟨iff_of_false nofun hblank, fun p hp => ?_, fun e he => ?_⟩
    · exact ⟨raw, hloads, rowToItem_item (Option.some.inj hp)⟩
    · obtain ⟨hclass, hprompt⟩ := rowToItem_error (Option.some.inj he)
      refine ⟨hclass, fun raw' hraw => ?_⟩
      obtain rfl := Except.ok.inj (hloads.symm.trans hraw)
      exact hprompt

theorem lineItem_escapes {line : List Char} (h : Escapes host line) (offset : ℕ) :
    ∃ e, lineItem host line offset = .error e := by
  obtain ⟨hline, hescapes⟩ := h
  unfold lineItem
  simp only [if_neg hline]
  cases hloads : loads host.nesting (strip line) with
  | error e =>
    rw [hloads] at hescapes
    cases e with
    | decode => cases hescapes
    | intDigits => exact ⟨_, rfl⟩
    | nesting => exact ⟨_, rfl⟩
  | ok raw =>
    rw [hloads] at hescapes
    cases hescapes

theorem lineItem_tolerated {line : List Char} (h : ¬ Escapes host line) (offset : ℕ) :
    lineItem host line offset = .ok (entryOf host line offset) := by
  unfold lineItem entryOf
  by_cases hblank : strip line = []
  · simp only [if_pos hblank]
  have hno : ¬ uncaught (loads host.nesting (strip line)) = true := fun he => h ⟨hblank, he⟩
  simp only [if_neg hblank]
  cases hloads : loads host.nesting (strip line) with
  | error e =>
    rw [hloads] at hno
    cases e with
    | decode => rfl
    | intDigits => exact absurd rfl hno
    | nesting => exact absurd rfl hno
  | ok raw => rfl

/-- The pass goes through exactly if no line makes it raise. -/
theorem iterLines_none_iff (lines : List (List Char)) : ∀ offset,
    (iterLines host offset lines).2 = none ↔ ∀ line ∈ lines, ¬ Escapes host line := by
  induction lines with
  | nil => exact fun offset => iff_of_true rfl fun line hline => absurd hline List.not_mem_nil
  | cons line lines ih =>
    intro offset
    rw [List.forall_mem_cons, iterLines]
    by_cases hescapes : Escapes host line
    · obtain ⟨e, he⟩ := lineItem_escapes hescapes offset
      rw [he]
      exact iff_of_false nofun fun hall => hall.1 hescapes
    · rw [lineItem_tolerated hescapes]
      exact (ih (offset + 1)).trans (and_iff_right hescapes).symm

/-- Without an exception every line has its own entry. -/
theorem iterLines_entries (lines : List (List Char)) : ∀ offset,
    (iterLines host offset lines).2 = none → (iterLines host offset lines).1 =
      (lines.zipIdx offset).filterMap fun x => entryOf host x.1 x.2 := by
  induction lines with
  | nil => exact fun offset _ => rfl
  | cons line lines ih =>
    intro offset hnone
    have hall := (iterLines_none_iff (line :: lines) offset).mp hnone
    have hline := hall line List.mem_cons_self
    have hrest := (iterLines_none_iff lines (offset + 1)).mpr fun l hl =>
      hall l (List.mem_cons_of_mem line hl)
    rw [iterLines, lineItem_tolerated hline, List.zipIdx_cons, List.filterMap_cons]
    show (entryOf host line offset).toList ++ (iterLines host (offset + 1) lines).1 = _
    rw [ih (offset + 1) hrest]
    cases entryOf host line offset with
    | none => rfl
    | some entry => rfl

end Lines

/-! ## What the scheduler is given -/

section Stream

variable {host : Host} {arrayItems : List UInt8 → List Json × Option Exc}

/-- The stream of a job whose input file has these bytes. -/
def streamItems (host : Host) (arrayItems : List UInt8 → List Json × Option Exc)
    (bytes : List UInt8) : InputStream :=
  let (entries, exc) := iterItemsSync host arrayItems bytes
  { entries, raises := exc.isSome }

/-- A generator that is read to its end has handed on the stream of the file. -/
theorem streamItems_bridge {bytes : List UInt8} {actions : List BridgeAction}
    {s : Bridge Entry Exc} {exc : Option Exc}
    (hrun : Runs.exec Bridge.step (Bridge.start (iterItemsSync host arrayItems bytes).1
      (iterItemsSync host arrayItems bytes).2) actions = some s)
    (hc : s.consumer = .ended false exc) :
    streamItems host arrayItems bytes = { entries := s.yielded, raises := exc.isSome } := by
  obtain ⟨hyielded, hexc⟩ := (facts_of_run hrun).read_to_end hc
  rw [hyielded, hexc]
  rfl

theorem lineItem_labelled {line : List Char} {offset : ℕ} {e : RowError}
    (h : lineItem host line offset = .ok (some (.error e))) : e.failureClass = .invalidInput := by
  simp only [lineItem] at h
  split at h
  · cases h
  · split at h
    · obtain rfl := Entry.error.inj (Option.some.inj (Except.ok.inj h))
      rfl
    · cases h
    · exact (rowToItem_error (Option.some.inj (Except.ok.inj h))).1

theorem iterLines_labelled (lines : List (List Char)) : ∀ offset e,
    .error e ∈ (iterLines host offset lines).1 → e.failureClass = .invalidInput := by
  induction lines with
  | nil => exact fun offset e he => absurd he List.not_mem_nil
  | cons line lines ih =>
    intro offset e he
    cases hitem : lineItem host line offset with
    | error exc =>
      rw [iterLines, hitem] at he
      exact absurd he List.not_mem_nil
    | ok entry =>
      rw [iterLines, hitem] at he
      rcases List.mem_append.mp he with he | he
      · rw [Option.mem_toList.mp he] at hitem
        exact lineItem_labelled hitem
      · exact ih (offset + 1) e he

/-- A row that fails in the parser is an `INVALID_INPUT` row. -/
theorem streamItems_labelled (bytes : List UInt8) :
    (streamItems host arrayItems bytes).Labelled := by
  intro e he
  change .error e ∈ (iterItemsSync host arrayItems bytes).1 at he
  unfold iterItemsSync at he
  split at he
  · obtain ⟨⟨raw, offset⟩, -, hrow⟩ := List.mem_map.mp he
    exact (rowToItem_error hrow).1
  · exact iterLines_labelled _ 0 e he

end Stream

/-! ## The law -/

section Law

variable {host : Host} {arrayItems : List UInt8 → List Json × Option Exc}

/-- The parser does not raise, and each line has the entry that it has by itself. -/
structure Tolerates (host : Host) (arrayItems : List UInt8 → List Json × Option Exc)
    (bytes : List UInt8) : Prop where
  raises : (iterItemsSync host arrayItems bytes).2 = none
  entries : (iterItemsSync host arrayItems bytes).1 =
    (TextFile.lines (TextFile.decode bytes).1).zipIdx.filterMap fun x => entryOf host x.1 x.2

/-- The file is UTF-8, and `json.loads` fails on no line with another exception than a
`JSONDecodeError`. -/
structure Readable (host : Host) (bytes : List UInt8) : Prop where
  utf8 : (TextFile.decode bytes).2 = true
  lines : ∀ line ∈ TextFile.lines (TextFile.decode bytes).1, ¬ Escapes host line

theorem iterItemsSync_lines {bytes : List UInt8} (hmode : sniffIsJsonArray bytes = false) :
    (iterItemsSync host arrayItems bytes).1 = (iterLines host 0 (host.readLines bytes).1).1 ∧
    (iterItemsSync host arrayItems bytes).2 = (iterLines host 0 (host.readLines bytes).1).2.or
      (if (host.readLines bytes).2 then some .valueError else none) := by
  rw [iterItemsSync, hmode]
  exact ⟨rfl, rfl⟩

/-- A line that makes the parser raise is longer than one of its limits. -/
theorem Escapes.long {line : List Char} (h : Escapes host line) :
    host.nesting < (strip line).length ∨ maxStrDigits < (strip line).length := by
  obtain ⟨-, huncaught⟩ := h
  cases hloads : loads host.nesting (strip line) with
  | error e =>
    refine loads_long hloads fun hdecode => ?_
    rw [hloads, hdecode] at huncaught
    cases huncaught
  | ok raw =>
    rw [hloads] at huncaught
    cases huncaught

theorem readable_of_short {bytes : List UInt8} (hutf8 : (TextFile.decode bytes).2 = true)
    (hshort : ∀ line ∈ TextFile.lines (TextFile.decode bytes).1,
      (strip line).length ≤ host.nesting ∧ (strip line).length ≤ maxStrDigits) :
    Readable host bytes := by
  refine ⟨hutf8, fun line hline hescapes => ?_⟩
  rcases hescapes.long with hdeep | hlong
  · exact Nat.not_lt.mpr (hshort line hline).1 hdeep
  · exact Nat.not_lt.mpr (hshort line hline).2 hlong

/-- The lines of a file are parsed each by itself exactly if the file is readable. -/
theorem tolerates_iff {bytes : List UInt8} (hmode : sniffIsJsonArray bytes = false) :
    (Tolerates host arrayItems bytes ↔ Readable host bytes) ∧
      ∀ line offset, EntryOf host line (entryOf host line offset) := by
  refine ⟨?_, entryOf_spec host⟩
  obtain ⟨hentries, hexc⟩ := @iterItemsSync_lines host arrayItems bytes hmode
  cases hvalid : (TextFile.decode bytes).2 with
  | false =>
    have hread : (host.readLines bytes).2 = true := by
      rw [Host.readLines]
      simp [hvalid]
    rw [hread, if_pos rfl] at hexc
    refine iff_of_false (fun h => ?_) fun h => Bool.false_ne_true (hvalid.symm.trans h.utf8)
    obtain ⟨-, hdecoded⟩ := Option.or_eq_none_iff.mp (hexc.symm.trans h.raises)
    cases hdecoded
  | true =>
    have hread : host.readLines bytes = (TextFile.lines (TextFile.decode bytes).1, false) := by
      rw [Host.readLines]
      simp [hvalid]
    rw [hread] at hentries hexc
    replace hexc := hexc.trans Option.or_none
    have hnone := @iterLines_none_iff host (TextFile.lines (TextFile.decode bytes).1) 0
    constructor
    · exact fun h => ⟨hvalid, hnone.mp (hexc.symm.trans h.raises)⟩
    · intro h
      have hraises := hnone.mpr h.lines
      exact ⟨hexc.trans hraises, hentries.trans (iterLines_entries _ 0 hraises)⟩

def promptLine : String := "\x7b\"id\": \"a\", \"prompt\": \"hi\"\x7d\n"

/-- Two prompts, with a blank line and a line that is cut off between them. -/
def cutLine : List UInt8 :=
  TextFile.encode (promptLine ++ "\n\x7b\"id\": \"b\", \"pro\n" ++ promptLine).toList

/-- A prompt, and then a line with an octet that is no UTF-8. -/
def undecodableLine : List UInt8 :=
  TextFile.encode promptLine.toList ++ [0xff, 0x0a]

def noArray : List UInt8 → List Json × Option Exc := fun _ => ([], none)

theorem tolerates_cutLine : Tolerates tenthsHost noArray cutLine :=
  (tolerates_iff (by decide +kernel)).1.mpr ⟨by decide +kernel, by decide +kernel⟩

/-- `undecodableLine` makes the parser raise before it has yielded anything. -/
theorem undecodable_raises : ∃ host arrayItems bytes,
    sniffIsJsonArray bytes = false ∧ ¬ Tolerates host arrayItems bytes := by
  refine ⟨tenthsHost, noArray, undecodableLine, by decide +kernel, fun h => ?_⟩
  have hraises : (iterItemsSync tenthsHost noArray undecodableLine).2 = some .valueError := by
    decide +kernel
  rw [h.raises] at hraises
  cases hraises

end Law

end BatchEngine.Core
