import Mathlib.Algebra.Order.Ring.Rat
import Mathlib.Data.Rat.Floor

/-!
# Python numbers and JSON values

The built-in conversions a Python program applies to text and to parsed JSON, with
the exceptions they raise. Finite floats are exact rationals; what is too large for a
float, or too small, is not kept.
-/

set_option autoImplicit false

namespace Py

inductive PyFloat where
  | fin (q : ℚ)
  | posInf
  | negInf
  | nan
  deriving DecidableEq, Repr

/-- The built-in exceptions that the conversions and accesses below raise. -/
inductive Exc where
  | valueError
  | typeError
  | keyError
  | indexError
  | attributeError
  | overflowError
  | recursionError
  deriving DecidableEq, Repr

/-- A value as `json.loads` returns it. Object keys are distinct. -/
inductive Json where
  | null
  | bool (b : Bool)
  | int (n : ℤ)
  | float (x : PyFloat)
  | str (s : String)
  | arr (xs : List Json)
  | obj (kvs : List (String × Json))

/-! ## Numbers from text -/

/-- `str.isspace` of one character. -/
def isSpace (c : Char) : Bool :=
  let n := c.toNat
  (9 ≤ n ∧ n ≤ 13) ∨ (28 ≤ n ∧ n ≤ 32) ∨ n = 133 ∨ n = 160 ∨ n = 5760 ∨
    (8192 ≤ n ∧ n ≤ 8202) ∨ n = 8232 ∨ n = 8233 ∨ n = 8239 ∨ n = 8287 ∨ n = 12288

def strip (s : List Char) : List Char :=
  ((s.dropWhile isSpace).reverse.dropWhile isSpace).reverse

def digit? (c : Char) : Option ℕ :=
  if '0' ≤ c ∧ c ≤ '9' then some (c.toNat - '0'.toNat) else none

/-- The zeros of the ten digits of each script but ASCII (category Nd of Unicode 14). -/
def decimalZeros : List ℕ :=
  [0x660, 0x6f0, 0x7c0, 0x966, 0x9e6, 0xa66, 0xae6, 0xb66, 0xbe6, 0xc66, 0xce6, 0xd66, 0xde6,
    0xe50, 0xed0, 0xf20, 0x1040, 0x1090, 0x17e0, 0x1810, 0x1946, 0x19d0, 0x1a80, 0x1a90, 0x1b50,
    0x1bb0, 0x1c40, 0x1c50, 0xa620, 0xa8d0, 0xa900, 0xa9d0, 0xa9f0, 0xaa50, 0xabf0, 0xff10,
    0x104a0, 0x10d30, 0x11066, 0x110f0, 0x11136, 0x111d0, 0x112f0, 0x11450, 0x114d0, 0x11650,
    0x116c0, 0x11730, 0x118e0, 0x11950, 0x11c50, 0x11d50, 0x11da0, 0x16a60, 0x16ac0, 0x16b50,
    0x1d7ce, 0x1d7d8, 0x1d7e2, 0x1d7ec, 0x1d7f6, 0x1e140, 0x1e2f0, 0x1e950, 0x1fbf0]

/-- A character as the number parsers see it: digits and spaces of any script are those of
ASCII, and what else is not ASCII is in no number. -/
def toAscii (c : Char) : Char :=
  if c.toNat < 128 then c
  else if isSpace c then ' '
  else
    match decimalZeros.find? fun z => z ≤ c.toNat ∧ c.toNat ≤ z + 9 with
    | some z => Nat.digitChar (c.toNat - z)
    | none => '?'

/-- `Py_ISSPACE`, which unlike `str.isspace` does not hold of U+001C to U+001F. -/
def isAsciiSpace (c : Char) : Bool := (9 ≤ c.toNat ∧ c.toNat ≤ 13) ∨ c.toNat = 32

/-- The text that `int` and `float` go on to parse. -/
def numberText (s : String) : List Char :=
  (((s.toList.map toAscii).dropWhile isAsciiSpace).reverse.dropWhile isAsciiSpace).reverse

/-- One or more digits, with single underscores between them. -/
def digits : List Char → Option (List ℕ)
  | [] => none
  | [c] => (digit? c).map fun d => [d]
  | c :: '_' :: rest => (digit? c).bind fun d => (digits rest).map fun ds => d :: ds
  | c :: rest => (digit? c).bind fun d => (digits rest).map fun ds => d :: ds

def natOfDigits (ds : List ℕ) : ℕ := ds.foldl (fun n d => 10 * n + d) 0

/-- A leading sign, and whether it is negative. -/
def sign : List Char → Bool × List Char
  | '-' :: rest => (true, rest)
  | '+' :: rest => (false, rest)
  | s => (false, s)

def signed (neg : Bool) (ds : List ℕ) : ℤ := if neg then -(natOfDigits ds : ℤ) else natOfDigits ds

/-- `int(s)` of a string, with at most `sys.int_max_str_digits` digits; `none` is
`ValueError`. -/
def intOfString (s : String) : Option ℤ :=
  let (neg, body) := sign (numberText s)
  (digits body).bind fun ds => if 4300 < ds.length then none else some (signed neg ds)

def pow10 : ℤ → ℚ
  | .ofNat n => 10 ^ n
  | .negSucc n => 1 / 10 ^ (n + 1)

/-- An unsigned decimal with optional fraction and exponent. -/
def decimal (s : List Char) : Option ℚ :=
  let mantissa := s.takeWhile (· ≠ 'e')
  let whole := mantissa.takeWhile (· ≠ '.')
  let parts : Option (List ℕ × List ℕ) :=
    match mantissa.dropWhile (· ≠ '.') with
    | [] => (digits whole).map fun ds => (ds, [])
    | _ :: frac =>
      if whole = [] then (digits frac).map fun fs => ([], fs)
      else if frac = [] then (digits whole).map fun ds => (ds, [])
      else (digits whole).bind fun ds => (digits frac).map fun fs => (ds, fs)
  let exponent : Option ℤ :=
    match s.dropWhile (· ≠ 'e') with
    | [] => some 0
    | _ :: e => (digits (sign e).2).map (signed (sign e).1)
  parts.bind fun (ds, fs) => exponent.map fun e =>
    (natOfDigits (ds ++ fs) : ℚ) * pow10 (e - fs.length)

/-- Half an ulp above the largest float. What is smaller is rounded to a finite float. -/
@[irreducible] def floatBound : ℕ := 2 ^ 1024 - 2 ^ 970

/-- The float of a number that is not negative: 0 up to half the least positive float, then
the number, and infinite from `floatBound` on. -/
def toFloat (q : ℚ) : PyFloat :=
  if q * 2 ^ 1075 ≤ 1 then .fin 0
  else if q < floatBound then .fin q
  else .posInf

def PyFloat.neg : PyFloat → PyFloat
  | .fin q => .fin (-q)
  | .posInf => .negInf
  | .negInf => .posInf
  | .nan => .nan

/-- `float(s)` of a string; `none` is `ValueError`. -/
def floatOfString (s : String) : Option PyFloat :=
  let (neg, body) := sign ((numberText s).map Char.toLower)
  let magnitude : Option PyFloat :=
    if body = "inf".toList ∨ body = "infinity".toList then some .posInf
    else if body = "nan".toList then some .nan
    else (decimal body).map toFloat
  magnitude.map fun x => if neg then x.neg else x

example : floatOfString " 1.5e2\n" = some (.fin 150) := by decide +kernel

example : intOfString "\u0663" = some 3 ∧ intOfString "\x1f5" = none := by decide +kernel

/-! ## Numbers from values -/

/-- Truncation toward zero. -/
def trunc (q : ℚ) : ℤ := if 0 ≤ q then ⌊q⌋ else ⌈q⌉

/-- `int(v)`. -/
def int : Json → Except Exc ℤ
  | .int n => .ok n
  | .bool b => .ok (if b then 1 else 0)
  | .float (.fin q) => .ok (trunc q)
  | .float .nan => .error .valueError
  | .float _ => .error .overflowError
  | .str s => match intOfString s with
    | some n => .ok n
    | none => .error .valueError
  | _ => .error .typeError

/-- `float(v)`. -/
def float : Json → Except Exc PyFloat
  | .int n => if n.natAbs < floatBound then .ok (.fin n) else .error .overflowError
  | .bool b => .ok (.fin (if b then 1 else 0))
  | .float x => .ok x
  | .str s => match floatOfString s with
    | some x => .ok x
    | none => .error .valueError
  | _ => .error .typeError

/-! ## Numbers as text -/

def roundHalfEven (q : ℚ) : ℤ :=
  if q - ⌊q⌋ < 1 / 2 ∨ (q - ⌊q⌋ = 1 / 2 ∧ ⌊q⌋ % 2 = 0) then ⌊q⌋ else ⌊q⌋ + 1

/-- Rounding moves a number by half a unit at most. -/
theorem roundHalfEven_near (q : ℚ) :
    q - 1 / 2 ≤ roundHalfEven q ∧ (roundHalfEven q : ℚ) ≤ q + 1 / 2 := by
  have hfloor := Int.floor_le q
  have hceil := Int.lt_floor_add_one q
  unfold roundHalfEven
  split
  · rename_i hdown
    have hhalf : q - ⌊q⌋ ≤ 1 / 2 := hdown.elim le_of_lt fun htie => htie.1.le
    constructor <;> linarith
  · rename_i hup
    have hhalf : 1 / 2 ≤ q - ⌊q⌋ := not_lt.mp fun hlt => hup (Or.inl hlt)
    push_cast
    constructor <;> linarith

/-- `f"{q:.{places}f}"`. -/
def fixed (places : ℕ) (q : ℚ) : String :=
  let n := (roundHalfEven (|q| * 10 ^ places)).toNat
  let frac := (n % 10 ^ places).repr.toList
  (if q < 0 then "-" else "") ++ (n / 10 ^ places).repr ++ "." ++
    String.ofList (List.replicate (places - frac.length) '0' ++ frac)

example : fixed 4 (-1 / 3) = "-0.3333" := by decide +kernel

/-! ## Access -/

/-- The value under a key of an object's entries. -/
def lookup (k : String) : List (String × Json) → Option Json
  | [] => none
  | (k', v) :: rest => if k' = k then some v else lookup k rest

/-- `v[k]` with a string key. -/
def getKey (k : String) : Json → Except Exc Json
  | .obj kvs => match lookup k kvs with
    | some v => .ok v
    | none => .error .keyError
  | _ => .error .typeError

/-- `v[0]`. -/
def getZero : Json → Except Exc Json
  | .arr (v :: _) => .ok v
  | .arr [] => .error .indexError
  | .str s => match s.toList with
    | c :: _ => .ok (.str (String.ofList [c]))
    | [] => .error .indexError
  | .obj _ => .error .keyError
  | _ => .error .typeError

/-- `v.get(k, default)`. -/
def getD (k : String) (default : Json) : Json → Except Exc Json
  | .obj kvs => .ok ((lookup k kvs).getD default)
  | _ => .error .attributeError

end Py
