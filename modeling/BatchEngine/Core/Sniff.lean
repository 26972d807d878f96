import BatchEngine.Core.Ingest
import BatchEngine.Lib.Lists

/-!
# The format of an input file

The format is sniffed from a peek of 64 bytes, in which everything that `str.isspace` calls
a space is skipped. JSON has four whitespace bytes, and a text may begin with any number of
them. The two readings of a file agree unless its first byte that is no Python space is `[`.
-/

set_option autoImplicit false

namespace BatchEngine.Core

open Py

def openBracket : UInt8 := 0x5b

/-- `chr(byte).isspace()`. -/
def spaceByte (b : UInt8) : Bool := isSpace (Char.ofNat b.toNat)

/-- Space, tab, CR and LF. -/
def jsonSpace (b : UInt8) : Bool := b = 0x20 ∨ b = 0x09 ∨ b = 0x0d ∨ b = 0x0a

/-- The first byte of the file that is no JSON whitespace. -/
def firstSignificant (bytes : List UInt8) : Option UInt8 := bytes.find? (!jsonSpace ·)

/-- The bytes that a sniff without a limit would skip. -/
def leading (bytes : List UInt8) : List UInt8 := bytes.takeWhile spaceByte

/-- What is yielded depends on the streaming parser of arrays. -/
def UsesArrayParser (host : Host) (bytes : List UInt8) : Prop :=
  ∃ a b, iterItemsSync host a bytes ≠ iterItemsSync host b bytes

theorem charOf_eq (b : UInt8) : Char.ofNat b.toNat = '[' ↔ b = openBracket := by
  have hcodes : ∀ n < 256, Char.ofNat n = '[' → n = openBracket.toNat := by
    decide +kernel
  constructor
  · intro h
    exact UInt8.toNat_inj.mp (hcodes b.toNat b.toNat_lt h)
  · intro h
    subst h
    rfl

theorem jsonSpace_spaceByte {b : UInt8} (h : jsonSpace b = true) : spaceByte b = true := by
  simp only [jsonSpace, decide_eq_true_eq] at h
  rcases h with rfl | rfl | rfl | rfl <;> decide

/-- The sniff is a search of the first 64 bytes. -/
theorem sniff_find? (bytes : List UInt8) :
    sniffIsJsonArray bytes = true ↔
      (bytes.take peekBytes).find? (!spaceByte ·) = some openBracket := by
  have hfind : ((bytes.take peekBytes).map fun b => Char.ofNat b.toNat).find? (!isSpace ·) =
      ((bytes.take peekBytes).find? (!spaceByte ·)).map fun b => Char.ofNat b.toNat :=
    List.find?_map
  rw [sniffIsJsonArray, hfind]
  cases (bytes.take peekBytes).find? (!spaceByte ·) with
  | none => simp
  | some b => simp [charOf_eq]

theorem sniff_iff (bytes : List UInt8) :
    sniffIsJsonArray bytes = true ↔
      bytes.find? (!spaceByte ·) = some openBracket ∧ (leading bytes).length < peekBytes := by
  have hleading : leading bytes = bytes.takeWhile (! !spaceByte ·) := by
    simp [leading]
  rw [sniff_find?, Lists.find?_take, ← hleading]
  by_cases hshort : (leading bytes).length < peekBytes
  · rw [if_pos hshort, and_iff_left hshort]
  · rw [if_neg hshort]
    exact iff_of_false (by simp) fun h => hshort h.2

theorem firstSignificant_iff (bytes : List UInt8) :
    firstSignificant bytes = some openBracket ↔
      bytes.find? (!spaceByte ·) = some openBracket ∧ ∀ b ∈ leading bytes, jsonSpace b = true := by
  have hleading : leading bytes = bytes.takeWhile (! !spaceByte ·) := by
    simp [leading]
  have hskip : ∀ b, (!spaceByte b) = true → (!jsonSpace b) = true := by
    intro b hb
    cases hjson : jsonSpace b with
    | false => rfl
    | true => simp [jsonSpace_spaceByte hjson] at hb
  rw [firstSignificant, Lists.find?_eq_of_skip hskip (by decide), ← hleading]
  simp

theorem usesArrayParser_iff (host : Host) (bytes : List UInt8) :
    UsesArrayParser host bytes ↔ sniffIsJsonArray bytes = true := by
  constructor
  · rintro ⟨a, b, hne⟩
    cases hsniff : sniffIsJsonArray bytes with
    | true => rfl
    | false =>
      refine absurd ?_ hne
      simp [iterItemsSync, hsniff]
  · intro hsniff
    refine ⟨fun _ => ([], none), fun _ => ([], some .valueError), ?_⟩
    simp [iterItemsSync, hsniff]

/-- The parser of arrays is used as the first significant byte says exactly if, where a `[`
follows the leading Python spaces, there are fewer than 64 of them or one of them is no
JSON whitespace, and not both. -/
theorem sniffs_iff (host : Host) (bytes : List UInt8) :
    (UsesArrayParser host bytes ↔ firstSignificant bytes = some openBracket) ↔
      (bytes.find? (!spaceByte ·) = some openBracket →
        ((leading bytes).length < peekBytes ↔ ∀ b ∈ leading bytes, jsonSpace b = true)) := by
  rw [usesArrayParser_iff, sniff_iff, firstSignificant_iff]
  exact and_congr_right_iff

/-- An array of one prompt behind 64 spaces. -/
def indentedArray : List UInt8 :=
  List.replicate peekBytes 0x20 ++ TextFile.encode "[\x7b\"prompt\": \"hi\"\x7d]".toList

/-- `indentedArray` is read line by line, and its one line is an error row. -/
theorem indentedArray_lines : firstSignificant indentedArray = some openBracket ∧
    ¬ UsesArrayParser tenthsHost indentedArray ∧
    (iterItemsSync tenthsHost noArray indentedArray).1.map (fun entry =>
      match entry with
      | .item _ => none
      | .error e => some e.itemId) = [some "offset-0"] := by
  refine ⟨by decide +kernel, fun h => ?_, by decide +kernel⟩
  rw [usesArrayParser_iff] at h
  exact absurd h (by decide +kernel)

end BatchEngine.Core
