import BatchEngine.Lib.Dict
import BatchEngine.Lib.PyValue
import BatchEngine.Lib.TextFile
import Mathlib.Data.Nat.Digits.Defs

/-!
# JSON text

`json.loads` as a machine that reads one character at a time, and `json.dumps` of a
flat object with ASCII escaping. A lone surrogate is read as U+FFFD, since a `Char` is
no surrogate.
-/

set_option autoImplicit false

namespace Py

/-- How `json.loads` fails: `JSONDecodeError`, the `ValueError` of an integer literal with
more than `sys.int_max_str_digits` digits, and `RecursionError`. -/
inductive LoadError where
  | decode
  | intDigits
  | nesting
  deriving DecidableEq, Repr

def maxStrDigits : ℕ := 4300

/-! ## Numbers -/

structure NumberText where
  negative : Bool := false
  whole : List ℕ := []
  frac : List ℕ := []
  expNegative : Bool := false
  exp : List ℕ := []
  deriving DecidableEq, Repr

/-- How far a number has been read. -/
inductive NumberPhase where
  | minus
  | zero
  | whole
  | dot
  | frac
  | e
  | eSign
  | exp
  deriving DecidableEq, Repr

namespace NumberText

def intValue (n : NumberText) : ℤ :=
  if n.negative then -(natOfDigits n.whole : ℤ) else natOfDigits n.whole

def floatValue (n : NumberText) : PyFloat :=
  let e : ℤ := if n.expNegative then -(natOfDigits n.exp : ℤ) else natOfDigits n.exp
  let q : ℚ := natOfDigits (n.whole ++ n.frac) * pow10 (e - n.frac.length)
  if q < 2 ^ 1024 - 2 ^ 970 then .fin (if n.negative then -q else q)
  else if n.negative then .negInf else .posInf

/-- The exponent mark. -/
def mark (n : NumberText) (c : Char) : Option (NumberPhase × NumberText) :=
  if c = 'e' ∨ c = 'E' then some (.e, n) else none

/-- The number goes on with `c`, or ends before it. -/
def advance (n : NumberText) : NumberPhase → Char → Option (NumberPhase × NumberText)
  | .minus, c => (digit? c).map fun d => (if d = 0 then .zero else .whole, { n with whole := [d] })
  | .zero, c => if c = '.' then some (.dot, n) else n.mark c
  | .whole, c =>
    match digit? c with
    | some d => some (.whole, { n with whole := n.whole ++ [d] })
    | none => if c = '.' then some (.dot, n) else n.mark c
  | .dot, c => (digit? c).map fun d => (.frac, { n with frac := [d] })
  | .frac, c =>
    match digit? c with
    | some d => some (.frac, { n with frac := n.frac ++ [d] })
    | none => n.mark c
  | .e, c =>
    if c = '+' then some (.eSign, n)
    else if c = '-' then some (.eSign, { n with expNegative := true })
    else (digit? c).map fun d => (.exp, { n with exp := [d] })
  | .eSign, c => (digit? c).map fun d => (.exp, { n with exp := [d] })
  | .exp, c => (digit? c).map fun d => (.exp, { n with exp := n.exp ++ [d] })

/-- What is left to read cannot continue a number that stopped short of a digit; the
integer before it has been converted by then. -/
def value (n : NumberText) : NumberPhase → Except LoadError Json
  | .minus => .error .decode
  | .zero | .whole =>
    if maxStrDigits < n.whole.length then .error .intDigits else .ok (.int n.intValue)
  | .frac | .exp => .ok (.float n.floatValue)
  | .dot | .e | .eSign =>
    if n.frac = [] ∧ maxStrDigits < n.whole.length then .error .intDigits else .error .decode

def text (n : NumberText) : List Char :=
  (if n.negative then ['-'] else []) ++ n.whole.map Nat.digitChar ++
    (if n.frac = [] then [] else '.' :: n.frac.map Nat.digitChar) ++
    (if n.exp = [] then []
      else 'e' :: (if n.expNegative then '-' else '+') :: n.exp.map Nat.digitChar)

end NumberText

/-! ## The reader -/

/-- A container that is still open. `key` is the last key read. -/
inductive Frame where
  | arr (xs : List Json)
  | obj (kvs : List (String × Json)) (key : String)

/-- Where in an escape sequence a string is. -/
inductive Escape where
  | plain
  | escaped
  | hex (left acc : ℕ)
  deriving DecidableEq, Repr

/-- What the reader expects. A string collects code points; the two halves of a
surrogate pair are joined at its end. -/
inductive Mode where
  | value
  | valueOrEnd
  | keyOrEnd
  | key
  | colon
  | afterValue
  | string (isKey : Bool) (units : List ℕ) (esc : Escape)
  | number (phase : NumberPhase) (n : NumberText)
  | literal (left : List Char) (v : Json)
  | done (v : Json)

structure Reader where
  mode : Mode
  stack : List Frame

def isJsonSpace (c : Char) : Bool := c = ' ' ∨ c = '\t' ∨ c = '\n' ∨ c = '\r'

def isHigh (u : ℕ) : Bool := 0xD800 ≤ u ∧ u < 0xDC00
def isLow (u : ℕ) : Bool := 0xDC00 ≤ u ∧ u < 0xE000

def unitChar (u : ℕ) : Char := if isHigh u ∨ isLow u then '\uFFFD' else Char.ofNat u

def joinUnits : List ℕ → List Char
  | [] => []
  | [u] => [unitChar u]
  | u :: v :: rest =>
    if isHigh u ∧ isLow v then
      Char.ofNat (0x10000 + (u - 0xD800) * 1024 + (v - 0xDC00)) :: joinUnits rest
    else unitChar u :: joinUnits (v :: rest)

def hexDigit? (c : Char) : Option ℕ :=
  if '0' ≤ c ∧ c ≤ '9' then some (c.toNat - '0'.toNat)
  else if 'a' ≤ c ∧ c ≤ 'f' then some (c.toNat - 'a'.toNat + 10)
  else if 'A' ≤ c ∧ c ≤ 'F' then some (c.toNat - 'A'.toNat + 10)
  else none

/-- The character that a two-character escape stands for. -/
def unescape : Char → Option Char
  | '"' => some '"'
  | '\\' => some '\\'
  | '/' => some '/'
  | 'b' => some '\x08'
  | 'f' => some '\x0c'
  | 'n' => some '\n'
  | 'r' => some '\r'
  | 't' => some '\t'
  | _ => none

/-- A value is complete: it goes to the container that waits for it. -/
def deliver (v : Json) : List Frame → Reader
  | [] => ⟨.done v, []⟩
  | .arr xs :: rest => ⟨.afterValue, .arr (xs ++ [v]) :: rest⟩
  | .obj kvs key :: rest => ⟨.afterValue, .obj (Dict.set kvs key v) key :: rest⟩

def setKey (key : String) : List Frame → List Frame
  | .obj kvs _ :: rest => .obj kvs key :: rest
  | stack => stack

/-- After a value: a comma, the end of the container, or blank. -/
def closeStep (σ : Reader) (c : Char) : Except LoadError Reader :=
  if isJsonSpace c then .ok σ
  else match σ.mode, σ.stack, c with
    | .afterValue, .arr xs :: rest, ',' => .ok ⟨.value, .arr xs :: rest⟩
    | .afterValue, .arr xs :: rest, ']' => .ok (deliver (.arr xs) rest)
    | .afterValue, .obj kvs key :: rest, ',' => .ok ⟨.key, .obj kvs key :: rest⟩
    | .afterValue, .obj kvs _ :: rest, '}' => .ok (deliver (.obj kvs) rest)
    | _, _, _ => .error .decode

def stringStep (isKey : Bool) (units : List ℕ) (stack : List Frame) (c : Char) :
    Escape → Except LoadError Reader
  | .plain =>
    if c = '"' then
      let s := String.ofList (joinUnits units)
      .ok (if isKey then ⟨.colon, setKey s stack⟩ else deliver (.str s) stack)
    else if c = '\\' then .ok ⟨.string isKey units .escaped, stack⟩
    else if c.toNat < 0x20 then .error .decode
    else .ok ⟨.string isKey (units ++ [c.toNat]) .plain, stack⟩
  | .escaped =>
    if c = 'u' then .ok ⟨.string isKey units (.hex 4 0), stack⟩
    else match unescape c with
      | some d => .ok ⟨.string isKey (units ++ [d.toNat]) .plain, stack⟩
      | none => .error .decode
  | .hex left acc =>
    match hexDigit? c with
    | none => .error .decode
    | some d =>
      if left ≤ 1 then .ok ⟨.string isKey (units ++ [acc * 16 + d]) .plain, stack⟩
      else .ok ⟨.string isKey units (.hex (left - 1) (acc * 16 + d)), stack⟩

section Nesting

variable (nesting : ℕ)

def openFrame (frame : Frame) (mode : Mode) (stack : List Frame) : Except LoadError Reader :=
  if stack.length < nesting then .ok ⟨mode, frame :: stack⟩ else .error .nesting

/-- The first character of a value. -/
def startValue (stack : List Frame) (c : Char) : Except LoadError Reader :=
  match c with
  | '"' => .ok ⟨.string false [] .plain, stack⟩
  | '{' => openFrame nesting (.obj [] "") .keyOrEnd stack
  | '[' => openFrame nesting (.arr []) .valueOrEnd stack
  | 'n' => .ok ⟨.literal "ull".toList .null, stack⟩
  | 't' => .ok ⟨.literal "rue".toList (.bool true), stack⟩
  | 'f' => .ok ⟨.literal "alse".toList (.bool false), stack⟩
  | 'N' => .ok ⟨.literal "aN".toList (.float .nan), stack⟩
  | 'I' => .ok ⟨.literal "nfinity".toList (.float .posInf), stack⟩
  | '-' => .ok ⟨.number .minus { negative := true }, stack⟩
  | c => match NumberText.advance {} .minus c with
    | some (phase, n) => .ok ⟨.number phase n, stack⟩
    | none => .error .decode

def step (σ : Reader) (c : Char) : Except LoadError Reader :=
  match σ.mode with
  | .value => if isJsonSpace c then .ok σ else startValue nesting σ.stack c
  | .valueOrEnd =>
    if isJsonSpace c then .ok σ
    else if c = ']' then closeStep ⟨.afterValue, σ.stack⟩ c
    else startValue nesting σ.stack c
  | .keyOrEnd =>
    if isJsonSpace c then .ok σ
    else if c = '"' then .ok ⟨.string true [] .plain, σ.stack⟩
    else if c = '}' then closeStep ⟨.afterValue, σ.stack⟩ c
    else .error .decode
  | .key =>
    if isJsonSpace c then .ok σ
    else if c = '"' then .ok ⟨.string true [] .plain, σ.stack⟩
    else .error .decode
  | .colon =>
    if isJsonSpace c then .ok σ
    else if c = ':' then .ok ⟨.value, σ.stack⟩
    else .error .decode
  | .afterValue | .done _ => closeStep σ c
  | .string isKey units esc => stringStep isKey units σ.stack c esc
  | .number phase n =>
    if phase = .minus ∧ c = 'I' then .ok ⟨.literal "nfinity".toList (.float .negInf), σ.stack⟩
    else match n.advance phase c with
      | some (phase, n) => .ok ⟨.number phase n, σ.stack⟩
      | none => (n.value phase).bind fun v => closeStep (deliver v σ.stack) c
  | .literal left v =>
    if left.head? = some c then
      .ok (if left.tail = [] then deliver v σ.stack else ⟨.literal left.tail v, σ.stack⟩)
    else .error .decode

def run : Reader → List Char → Except LoadError Reader
  | σ, [] => .ok σ
  | σ, c :: text => (step nesting σ c).bind fun ρ => run ρ text

/-- The end of the text. -/
def Reader.finish (σ : Reader) : Except LoadError Json :=
  match σ.mode with
  | .done v => .ok v
  | .number phase n =>
    (n.value phase).bind fun v => if σ.stack = [] then .ok v else .error .decode
  | _ => .error .decode

/-- `json.loads(text)`; containers nest at most `nesting` deep. -/
def loads (text : List Char) : Except LoadError Json :=
  (run nesting ⟨.value, []⟩ text).bind Reader.finish

end Nesting

/-! ## The writer -/

/-- What `float.__repr__` writes for a finite float. -/
structure FloatText extends NumberText where
  digits : ∀ d ∈ whole ++ frac ++ exp, d < 10
  leading : whole = [0] ∨ ∃ d ds, whole = d :: ds ∧ d ≠ 0
  short : whole.length ≤ maxStrDigits
  signed : exp = [] → expNegative = false
  isFloat : frac ≠ [] ∨ exp ≠ []

def digitsOf (n : ℕ) : List ℕ := if n = 0 then [0] else (Nat.digits 10 n).reverse

def intText (z : ℤ) : NumberText := { negative := z < 0, whole := digitsOf z.natAbs }

/-- A value without parts. -/
inductive Scalar where
  | null
  | int (z : ℤ)
  | float (x : FloatText)
  | str (s : String)

def hexChar (d : ℕ) : Char := Nat.digitChar d

def hex4 (u : ℕ) : List Char :=
  ['\\', 'u', hexChar (u / 4096 % 16), hexChar (u / 256 % 16), hexChar (u / 16 % 16),
    hexChar (u % 16)]

/-- The code points of a character as `\u` escapes write them. -/
def unitsOf (c : Char) : List ℕ :=
  if c.toNat < 0x10000 then [c.toNat]
  else [0xD800 + (c.toNat - 0x10000) / 1024, 0xDC00 + (c.toNat - 0x10000) % 1024]

def escapeChar (c : Char) : List Char :=
  match c with
  | '"' => ['\\', '"']
  | '\\' => ['\\', '\\']
  | '\n' => ['\\', 'n']
  | '\r' => ['\\', 'r']
  | '\t' => ['\\', 't']
  | '\x08' => ['\\', 'b']
  | '\x0c' => ['\\', 'f']
  | c => if 0x20 ≤ c.toNat ∧ c.toNat ≤ 0x7E then [c] else (unitsOf c).flatMap hex4

def quote (s : String) : List Char := '"' :: s.toList.flatMap escapeChar ++ ['"']

namespace Scalar

def text : Scalar → List Char
  | null => "null".toList
  | int z => (intText z).text
  | float x => x.text
  | str s => quote s

def toJson : Scalar → Json
  | null => .null
  | int z => .int z
  | float x => .float x.floatValue
  | str s => .str s

/-- `int.__repr__` does not raise. -/
def Printable : Scalar → Prop
  | int z => (digitsOf z.natAbs).length ≤ maxStrDigits
  | _ => True

instance : (x : Scalar) → Decidable x.Printable
  | int z => inferInstanceAs (Decidable ((digitsOf z.natAbs).length ≤ maxStrDigits))
  | null | float _ | str _ => .isTrue trivial

end Scalar

def memberText (m : String × Scalar) : List Char := quote m.1 ++ ':' :: ' ' :: m.2.text

def membersText : List (String × Scalar) → List Char
  | [] => []
  | [m] => memberText m
  | m :: ms => memberText m ++ ',' :: ' ' :: membersText ms

/-- `json.dumps` of a flat object whose integers are printable. -/
def objectText (ms : List (String × Scalar)) : List Char := '{' :: membersText ms ++ ['}']

/-- `json.dumps` of a flat object. -/
def dumps (ms : List (String × Scalar)) : Except Exc (List Char) :=
  if ∀ m ∈ ms, m.2.Printable then .ok (objectText ms) else .error .valueError

/-! ## The interpreter -/

/-- What differs from one interpreter to the next: how deep `json.loads` recurses, the
shortest text of a float, `repr` of the other values, the text of a `JSONDecodeError`, and
how many lines of a file text mode hands out before it meets an octet it cannot read. -/
structure Host where
  nesting : ℕ
  two_le_nesting : 2 ≤ nesting
  reprFloat : ℚ → FloatText
  repr : Json → String
  decodeMessage : List Char → String
  linesHandedOut : List UInt8 → ℕ

namespace Host

/-- `str(v)`. -/
def str (host : Host) : Json → String
  | .str s => s
  | v => host.repr v

/-- `for line in open(path, encoding="utf-8")`: the lines, and whether
`UnicodeDecodeError` ends them. -/
def readLines (host : Host) (bytes : List UInt8) : List (List Char) × Bool :=
  let (text, valid) := TextFile.decode bytes
  if valid then (TextFile.lines text, false)
  else ((TextFile.lines text).take (host.linesHandedOut bytes), true)

end Host

end Py
