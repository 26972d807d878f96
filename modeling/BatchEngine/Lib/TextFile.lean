import BatchEngine.Lib.PyValue

/-!
# Text files

A file is a list of bytes. Text mode decodes them as strict UTF-8, one octet at a
time, and splits the text at line ends of any convention.
-/

set_option autoImplicit false

namespace TextFile

/-! ## UTF-8 -/

/-- The octets still owed to the current character, the bounds of the next of them, and
the bits read so far. -/
structure Octets where
  owed : ℕ := 0
  low : ℕ := 0x80
  high : ℕ := 0xBF
  bits : ℕ := 0
  deriving DecidableEq, Repr

/-- The first octet of a character. -/
def firstOctet (b : ℕ) : Option Octets :=
  if b ≤ 0x7F then some { bits := b }
  else if 0xC2 ≤ b ∧ b ≤ 0xDF then some { owed := 1, bits := b - 0xC0 }
  else if 0xE0 ≤ b ∧ b ≤ 0xEF then
    some { owed := 2, low := if b = 0xE0 then 0xA0 else 0x80,
           high := if b = 0xED then 0x9F else 0xBF, bits := b - 0xE0 }
  else if 0xF0 ≤ b ∧ b ≤ 0xF4 then
    some { owed := 3, low := if b = 0xF0 then 0x90 else 0x80,
           high := if b = 0xF4 then 0x8F else 0xBF, bits := b - 0xF0 }
  else none

/-- One octet more, or none where it cannot follow. -/
def nextOctet (p : Octets) (b : ℕ) : Option Octets :=
  if p.owed = 0 then firstOctet b
  else if p.low ≤ b ∧ b ≤ p.high then
    some { owed := p.owed - 1, bits := p.bits * 64 + (b - 0x80) }
  else none

/-- The text up to the first octet that cannot be read, and whether there was none. -/
def decodeFrom : Octets → List UInt8 → List Char × Bool
  | p, [] => ([], p.owed = 0)
  | p, b :: bytes =>
    match nextOctet p b.toNat with
    | none => ([], false)
    | some q =>
      let (text, valid) := decodeFrom q bytes
      (if q.owed = 0 then Char.ofNat q.bits :: text else text, valid)

/-- `bytes.decode("utf-8")`, with the text before the error when it fails. -/
def decode (bytes : List UInt8) : List Char × Bool := decodeFrom {} bytes

/-- `text.encode("utf-8")`. -/
def encode (text : List Char) : List UInt8 := text.flatMap String.utf8EncodeChar

example : decode (encode "aé€😀".toList) = ("aé€😀".toList, true) := by decide +kernel

theorem encode_append (s t : List Char) : encode (s ++ t) = encode s ++ encode t :=
  List.flatMap_append

def Ascii (text : List Char) : Prop := ∀ c ∈ text, c.toNat < 128

theorem Ascii.append {s t : List Char} (hs : Ascii s) (ht : Ascii t) : Ascii (s ++ t) := by
  intro c hc
  rcases List.mem_append.mp hc with hc | hc
  · exact hs c hc
  · exact ht c hc

theorem Ascii.take {text : List Char} (h : Ascii text) (n : ℕ) : Ascii (text.take n) :=
  fun c hc => h c (List.mem_of_mem_take hc)

theorem utf8EncodeChar_ascii {c : Char} (hc : c.toNat < 128) :
    String.utf8EncodeChar c = [c.toUInt8] := by
  have hle : c.val ≤ 127 := UInt32.le_iff_toNat_le.mpr (Nat.lt_succ_iff.mp hc)
  rw [String.utf8EncodeChar_eq_singleton (Char.utf8Size_eq_one_iff.mpr hle), Char.toUInt8_val]

/-- ASCII text has one byte for each character. -/
theorem encode_ascii {text : List Char} (h : Ascii text) : encode text = text.map Char.toUInt8 := by
  induction text with
  | nil => rfl
  | cons c text ih =>
    have htail : Ascii text := fun d hd => h d (List.mem_cons_of_mem c hd)
    have hhead := utf8EncodeChar_ascii (h c List.mem_cons_self)
    show String.utf8EncodeChar c ++ encode text = _
    rw [hhead, ih htail]
    rfl

theorem encode_take {text : List Char} (h : Ascii text) (n : ℕ) :
    (encode text).take n = encode (text.take n) := by
  rw [encode_ascii h, encode_ascii (h.take n), List.map_take]

theorem decodeFrom_ascii {c : Char} (hc : c.toNat < 128) (bytes : List UInt8) :
    decodeFrom {} (c.toUInt8 :: bytes) =
      (c :: (decodeFrom {} bytes).1, (decodeFrom {} bytes).2) := by
  have hbyte : c.toUInt8.toNat = c.toNat := Nat.mod_eq_of_lt (show c.toNat < 256 by omega)
  have hnext : nextOctet {} c.toNat = some { bits := c.toNat } := by
    unfold nextOctet firstOctet
    rw [if_pos rfl, if_pos (by omega)]
  -- The bits of a finished character play no part in what follows it.
  have hskip : decodeFrom { bits := c.toNat } bytes = decodeFrom {} bytes := by
    cases bytes with
    | nil => rfl
    | cons b bytes =>
      have hfresh : ∀ k, nextOctet { bits := k } b.toNat = firstOctet b.toNat := fun _ => if_pos rfl
      rw [decodeFrom, decodeFrom, hfresh, hfresh 0]
  rw [decodeFrom, hbyte, hnext]
  show (if (0 : ℕ) = 0 then Char.ofNat c.toNat :: (decodeFrom { bits := c.toNat } bytes).1
      else (decodeFrom { bits := c.toNat } bytes).1,
    (decodeFrom { bits := c.toNat } bytes).2) = _
  rw [if_pos rfl, hskip, Char.ofNat_toNat]

theorem decode_encode_ascii {text : List Char} (h : Ascii text) :
    decode (encode text) = (text, true) := by
  rw [encode_ascii h]
  unfold decode
  induction text with
  | nil => rfl
  | cons c text ih =>
    have htail : Ascii text := fun d hd => h d (List.mem_cons_of_mem c hd)
    rw [List.map_cons, decodeFrom_ascii (h c List.mem_cons_self), ih htail]

/-! ## Lines -/

/-- The lines of a text file, without their ends. A carriage return, with or without a
line feed after it, ends a line. -/
def lines : List Char → List (List Char)
  | [] => []
  | '\r' :: '\n' :: rest => [] :: lines rest
  | '\r' :: rest => [] :: lines rest
  | '\n' :: rest => [] :: lines rest
  | c :: rest =>
    match lines rest with
    | [] => [[c]]
    | l :: ls => (c :: l) :: ls

def IsBreak (c : Char) : Prop := c = '\n' ∨ c = '\r'

def Unbroken (line : List Char) : Prop := ∀ c ∈ line, ¬ IsBreak c

theorem lines_cons {c : Char} (hc : ¬ IsBreak c) (rest : List Char) :
    lines (c :: rest) = match lines rest with
      | [] => [[c]]
      | l :: ls => (c :: l) :: ls := by
  have hn : c ≠ '\n' := fun h => hc (Or.inl h)
  have hr : c ≠ '\r' := fun h => hc (Or.inr h)
  rw [lines]
  · exact fun _ h _ => absurd h hr
  · exact fun h => absurd h hr
  · exact fun h => absurd h hn

theorem lines_newline (rest : List Char) : lines ('\n' :: rest) = [] :: lines rest := by
  rw [lines]

/-- A whole line, and what follows its end. -/
theorem lines_append_newline {line : List Char} (h : Unbroken line) (rest : List Char) :
    lines (line ++ '\n' :: rest) = line :: lines rest := by
  induction line with
  | nil => exact lines_newline rest
  | cons c line ih =>
    have hline : Unbroken line := fun d hd => h d (List.mem_cons_of_mem c hd)
    rw [List.cons_append, lines_cons (h c List.mem_cons_self), ih hline]

/-- The last line need not have an end. -/
theorem lines_unbroken {line : List Char} (h : Unbroken line) (hne : line ≠ []) :
    lines line = [line] := by
  induction line with
  | nil => exact absurd rfl hne
  | cons c line ih =>
    have hline : Unbroken line := fun d hd => h d (List.mem_cons_of_mem c hd)
    rw [lines_cons (h c List.mem_cons_self)]
    by_cases hempty : line = []
    · rw [hempty, lines]
    · rw [ih hline hempty]

end TextFile
