import BatchEngine.Core.Ingest
import BatchEngine.Core.Sniff

/-!
# A batch file and what is read of it

A batch is written as JSON Lines: one object with `id` and `prompt` on each line, as
`json.dumps` prints it, with blank lines and margins as an editor leaves them. The parser
reads back exactly the prompts, whatever characters they contain.
-/

set_option autoImplicit false

namespace BatchEngine.Core

open Py

/-- Spaces and tabs. -/
abbrev Margin := {cs : List Char // ∀ c ∈ cs, c = ' ' ∨ c = '\t'}

inductive BatchLine where
  | blank (margin : Margin)
  | row (before : Margin) (item : PromptItem) (after : Margin)

/-- `{"id": …, "prompt": …}`. -/
def itemMembers (item : PromptItem) : List (String × Scalar) :=
  [("id", .str item.id), ("prompt", .str item.prompt)]

namespace BatchLine

def text : BatchLine → List Char
  | blank margin => margin.val
  | row before item after => before.val ++ objectText (itemMembers item) ++ after.val

def item? : BatchLine → Option PromptItem
  | blank _ => none
  | row _ item _ => some item

end BatchLine

def batchText (lines : List BatchLine) : List Char := lines.flatMap fun line => line.text ++ ['\n']

/-- The bytes of the file. -/
def batchBytes (lines : List BatchLine) : List UInt8 := TextFile.encode (batchText lines)

/-! ## The text of a line -/

theorem Margin.space (m : Margin) : ∀ c ∈ m.val, isSpace c = true := by
  intro c hc
  rcases m.property c hc with rfl | rfl <;> decide

theorem Margin.char (m : Margin) : ∀ c ∈ m.val, c.toNat < 128 ∧ ¬ TextFile.IsBreak c := by
  intro c hc
  rcases m.property c hc with rfl | rfl <;> exact ⟨by decide, by unfold TextFile.IsBreak; decide⟩

theorem BatchLine.char (line : BatchLine) :
    ∀ c ∈ line.text, c.toNat < 128 ∧ ¬ TextFile.IsBreak c := by
  have hobject : ∀ ms, ∀ c ∈ objectText ms, c.toNat < 128 ∧ ¬ TextFile.IsBreak c := by
    intro ms c hc
    have hplain := plain_object ms
    exact ⟨Nat.lt_succ_of_le (Nat.le_succ_of_le (hplain c hc).2), unbroken_of_plain hplain c hc⟩
  intro c hc
  cases line with
  | blank margin => exact margin.char c hc
  | row before item after =>
    rcases List.mem_append.mp hc with hc | hc
    · rcases List.mem_append.mp hc with hc | hc
      · exact before.char c hc
      · exact hobject _ c hc
    · exact after.char c hc

theorem ascii_batchText (lines : List BatchLine) : TextFile.Ascii (batchText lines) := by
  intro c hc
  obtain ⟨line, -, hline⟩ := List.mem_flatMap.mp hc
  rcases List.mem_append.mp hline with hline | hline
  · exact (line.char c hline).1
  · exact List.mem_singleton.mp hline ▸ (by decide)

theorem lines_batchText (lines : List BatchLine) :
    TextFile.lines (batchText lines) = lines.map BatchLine.text := by
  induction lines with
  | nil => rfl
  | cons line lines ih =>
    have hunbroken : TextFile.Unbroken line.text := fun c hc => (line.char c hc).2
    rw [batchText, List.flatMap_cons, List.append_assoc]
    show TextFile.lines (line.text ++ '\n' :: batchText lines) = _
    rw [TextFile.lines_append_newline hunbroken, ih, List.map_cons]

/-- `strip` takes the margins away, and all of a blank line. -/
theorem strip_margins (before after : Margin) (middle : List Char) :
    strip (before.val ++ ('{' :: (middle ++ ['}'])) ++ after.val) = '{' :: (middle ++ ['}']) := by
  have hfront : (before.val ++ ('{' :: (middle ++ ['}'])) ++ after.val).dropWhile isSpace =
      '{' :: (middle ++ ['}']) ++ after.val := by
    rw [List.append_assoc, List.dropWhile_append_of_pos before.space]
    exact List.dropWhile_cons_of_neg (by decide)
  have hback : ∀ c ∈ after.val.reverse, isSpace c = true :=
    fun c hc => after.space c (List.mem_reverse.mp hc)
  rw [strip, hfront, List.reverse_append, List.dropWhile_append_of_pos hback]
  have hbraced := strip_braced middle
  rw [strip, List.dropWhile_cons_of_neg (by decide)] at hbraced
  exact hbraced

theorem strip_margin (margin : Margin) : strip margin.val = [] := by
  have hfront : margin.val.dropWhile isSpace = [] := List.dropWhile_eq_nil_iff.mpr margin.space
  rw [strip, hfront]
  rfl

/-! ## The entries -/

theorem rowToItem_members (host : Host) (item : PromptItem) (offset : ℕ) :
    rowToItem host (.obj (objectOf [] (itemMembers item))) offset = .item item := by
  simp [rowToItem, promptOf, rowId, itemMembers, objectOf, Dict.set, lookup, Scalar.toJson,
    Host.str]

theorem itemMembers_printable (item : PromptItem) : ∀ m ∈ itemMembers item, m.2.Printable := by
  intro m hm
  simp only [itemMembers, List.mem_cons, List.not_mem_nil, or_false] at hm
  rcases hm with rfl | rfl <;> exact trivial

theorem lineItem_text (host : Host) (line : BatchLine) (offset : ℕ) :
    lineItem host line.text offset = .ok (line.item?.map .item) := by
  cases line with
  | blank margin =>
    simp only [lineItem, BatchLine.text, strip_margin, ↓reduceIte]
    rfl
  | row before item after =>
    have hstrip : strip (BatchLine.row before item after).text = objectText (itemMembers item) :=
      strip_margins before after (membersText (itemMembers item))
    have hloads : loads host.nesting (objectText (itemMembers item)) =
        .ok (.obj (objectOf [] (itemMembers item))) :=
      loads_objectText (itemMembers_printable item) (nesting_pos host)
    have hne : objectText (itemMembers item) ≠ [] := List.cons_ne_nil _ _
    simp only [lineItem, hstrip, if_neg hne, hloads, rowToItem_members]
    rfl

theorem iterLines_texts (host : Host) (lines : List BatchLine) : ∀ offset,
    iterLines host offset (lines.map BatchLine.text) =
      ((lines.filterMap BatchLine.item?).map .item, none) := by
  induction lines with
  | nil => exact fun _ => rfl
  | cons line lines ih =>
    intro offset
    rw [List.map_cons, iterLines, lineItem_text]
    show ((line.item?.map Entry.item).toList ++ (iterLines host (offset + 1) _).1,
      (iterLines host (offset + 1) _).2) = _
    rw [ih]
    cases line <;> rfl

/-! ## How it is recognised -/

/-- The first character that is no space is a brace. -/
theorem find?_batchText (lines : List BatchLine) :
    (batchText lines).find? (!isSpace ·) ≠ some '[' := by
  have hmargin : ∀ m : Margin, m.val.find? (!isSpace ·) = none := by
    intro m
    rw [List.find?_eq_none]
    intro c hc
    rw [m.space c hc]
    exact Bool.false_ne_true
  induction lines with
  | nil => exact Option.some_ne_none _ |>.symm
  | cons line lines ih =>
    have hcons : batchText (line :: lines) = line.text ++ '\n' :: batchText lines := by
      rw [batchText, List.flatMap_cons, List.append_assoc]
      rfl
    rw [hcons, List.find?_append]
    cases line with
    | blank margin =>
      rw [BatchLine.text, hmargin, Option.none_or, List.find?_cons_of_neg (by decide)]
      exact ih
    | row before item after =>
      rw [BatchLine.text, List.append_assoc, List.find?_append, hmargin, Option.none_or,
        objectText, List.cons_append, List.cons_append, List.find?_cons_of_pos (by decide)]
      exact fun h => by cases h

theorem ofNat_ascii {c : Char} (hc : c.toNat < 128) : Char.ofNat c.toUInt8.toNat = c := by
  have hbyte : c.toUInt8.toNat = c.toNat := Nat.mod_eq_of_lt (show c.toNat < 256 by omega)
  rw [hbyte, Char.ofNat_toNat]

theorem batch_not_array (lines : List BatchLine) : sniffIsJsonArray (batchBytes lines) = false := by
  rw [← Bool.not_eq_true, sniff_iff, not_and]
  intro hfind
  exfalso
  rw [batchBytes, TextFile.encode_ascii (ascii_batchText lines), List.find?_map] at hfind
  obtain ⟨c, hc, hbracket⟩ := Option.map_eq_some_iff.mp hfind
  obtain ⟨hspace, before, rest, htext, hbefore⟩ := List.find?_eq_some_iff_append.mp hc
  have hsame : ∀ d ∈ batchText lines, ((!spaceByte ·) ∘ Char.toUInt8) d = !isSpace d := by
    intro d hd
    show (!isSpace (Char.ofNat d.toUInt8.toNat)) = _
    rw [ofNat_ascii (ascii_batchText lines d hd)]
  have hmem : c ∈ batchText lines := htext ▸ List.mem_append_right before List.mem_cons_self
  have hopens : c = '[' := by
    rw [← ofNat_ascii (ascii_batchText lines c hmem), charOf_eq]
    exact hbracket
  apply find?_batchText lines
  rw [← hopens, List.find?_eq_some_iff_append]
  refine ⟨hsame c hmem ▸ hspace, before, rest, htext, fun d hd => ?_⟩
  have hd' : d ∈ batchText lines := htext ▸ List.mem_append_left _ hd
  rw [← hsame d hd']
  exact hbefore d hd

/-- A batch file is read as its prompts, in order. -/
theorem iterItemsSync_batch (host : Host) (arrayItems : List UInt8 → List Json × Option Exc)
    (lines : List BatchLine) :
    iterItemsSync host arrayItems (batchBytes lines) =
      ((lines.filterMap BatchLine.item?).map .item, none) := by
  rw [iterItemsSync, batch_not_array, if_neg Bool.false_ne_true, batchBytes,
    readLines_ascii host (ascii_batchText lines)]
  show ((iterLines host 0 (TextFile.lines (batchText lines))).1,
    (iterLines host 0 (TextFile.lines (batchText lines))).2.or none) = _
  rw [lines_batchText, iterLines_texts, Option.or_none]

end BatchEngine.Core
