import BatchEngine.Lib.PyValue
import Mathlib.Data.List.TakeWhile

/-!
# Whole numbers in decimal

`float` reads a natural number back as `str` prints it, as far as there are floats.
-/

set_option autoImplicit false

namespace Py

theorem digit?_eq {c : Char} (hc : c.isDigit) : digit? c = some (c.toNat - '0'.toNat) := by
  have hrange : '0' ≤ c ∧ c ≤ '9' := by
    simp only [Char.isDigit, Bool.and_eq_true, decide_eq_true_eq] at hc
    exact ⟨hc.1, hc.2⟩
  rw [digit?, if_pos hrange]

theorem isDigit_ne {c c' : Char} (hc : c.isDigit) (hc' : ¬ c'.isDigit) : c ≠ c' := by
  rintro rfl
  exact hc' hc

theorem isDigit_toNat {c : Char} (hc : c.isDigit) : 48 ≤ c.toNat ∧ c.toNat ≤ 57 := by
  simp only [Char.isDigit, Bool.and_eq_true, decide_eq_true_eq] at hc
  exact ⟨hc.1, hc.2⟩

theorem isDigit_not_space {c : Char} (hc : c.isDigit) : ¬ isAsciiSpace c := by
  have hrange := isDigit_toNat hc
  simp only [isAsciiSpace, decide_eq_true_eq]
  omega

theorem isDigit_toAscii {c : Char} (hc : c.isDigit) : toAscii c = c :=
  if_pos (lt_of_le_of_lt (isDigit_toNat hc).2 (by decide))

theorem isDigit_toLower {c : Char} (hc : c.isDigit) : c.toLower = c := by
  simp only [Char.isDigit, Bool.and_eq_true, decide_eq_true_eq] at hc
  have hnine : '9'.val < 'A'.val := by decide
  have hupper : ¬ (c.val ≥ 'A'.val ∧ c.val ≤ 'Z'.val) := fun h =>
    absurd (UInt32.le_trans h.1 hc.2) (UInt32.not_le.mpr hnine)
  exact dif_neg hupper

theorem dropWhile_none {α : Type*} {p : α → Bool} {l : List α} (h : ∀ a ∈ l, ¬ p a) :
    l.dropWhile p = l := by
  cases l with
  | nil => rfl
  | cons a l => exact List.dropWhile_cons_of_neg (h a List.mem_cons_self)

theorem digits_eq (l : List Char) (hne : l ≠ []) (hl : ∀ c ∈ l, c.isDigit) :
    digits l = some (l.map fun c => c.toNat - '0'.toNat) := by
  induction l with
  | nil => exact absurd rfl hne
  | cons c rest ih =>
    have hc := digit?_eq (hl c List.mem_cons_self)
    cases rest with
    | nil => simp only [digits, hc, Option.map_some, List.map_cons, List.map_nil]
    | cons c' rest =>
      have hunderscore : c' ≠ '_' :=
        isDigit_ne (hl c' (List.mem_cons_of_mem c List.mem_cons_self)) (by decide)
      have hrest := ih (List.cons_ne_nil c' rest) fun d hd => hl d (List.mem_cons_of_mem c hd)
      rw [digits, hc, hrest]
      · rfl
      · exact List.cons_ne_nil c' rest
      · intro _ h
        exact hunderscore (List.cons.inj h).1

section Digits

variable {l : List Char} (hne : l ≠ []) (hl : ∀ c ∈ l, c.isDigit)

include hl

theorem toAscii_digits : l.map toAscii = l := by
  rw [List.map_congr_left fun c hc => isDigit_toAscii (hl c hc), List.map_id'']
  exact fun _ => rfl

theorem numberText_digits : numberText (String.ofList l) = l := by
  rw [numberText, String.toList_ofList, toAscii_digits hl,
    dropWhile_none fun c hc => isDigit_not_space (hl c hc),
    dropWhile_none fun c hc => isDigit_not_space (hl c (List.mem_reverse.mp hc)),
    List.reverse_reverse]

theorem lower_digits : l.map Char.toLower = l := by
  rw [List.map_congr_left fun c hc => isDigit_toLower (hl c hc), List.map_id'']
  exact fun _ => rfl

theorem sign_digits : sign l = (false, l) := by
  unfold sign
  split
  · exact absurd (hl '-' List.mem_cons_self) (by decide)
  · exact absurd (hl '+' List.mem_cons_self) (by decide)
  · rfl

theorem takeWhile_digits {c' : Char} (hc' : ¬ c'.isDigit) : l.takeWhile (· ≠ c') = l :=
  List.takeWhile_eq_self_iff.mpr fun c hc => decide_eq_true (isDigit_ne (hl c hc) hc')

theorem dropWhile_digits {c' : Char} (hc' : ¬ c'.isDigit) : l.dropWhile (· ≠ c') = [] :=
  List.dropWhile_eq_nil_iff.mpr fun c hc => decide_eq_true (isDigit_ne (hl c hc) hc')

include hne

theorem decimal_digits :
    decimal l = some (natOfDigits (l.map fun c => c.toNat - '0'.toNat) : ℚ) := by
  have he : ¬ 'e'.isDigit := by decide
  have hpoint : ¬ '.'.isDigit := by decide
  have hdigits := digits_eq l hne hl
  simp only [decimal, takeWhile_digits hl he, takeWhile_digits hl hpoint, dropWhile_digits hl he,
    dropWhile_digits hl hpoint, hdigits, Option.map_some, Option.bind_some, List.append_nil,
    List.length_nil, Nat.cast_zero, sub_zero]
  show some (_ * (10 : ℚ) ^ 0) = _
  rw [pow_zero, mul_one]

theorem floatOfString_digits :
    floatOfString (String.ofList l) =
      some (toFloat (natOfDigits (l.map fun c => c.toNat - '0'.toNat))) := by
  have hword : ∀ c w, ¬ c.isDigit → l ≠ c :: w := by
    rintro c w hc rfl
    exact hc (hl c List.mem_cons_self)
  have hnan : l ≠ "nan".toList := hword 'n' ['a', 'n'] (by decide)
  have hinf : ¬ (l = "inf".toList ∨ l = "infinity".toList) := by
    rintro (h | h)
    · exact hword 'i' ['n', 'f'] (by decide) h
    · exact hword 'i' ['n', 'f', 'i', 'n', 'i', 't', 'y'] (by decide) h
  rw [floatOfString, numberText_digits hl, lower_digits hl, sign_digits hl]
  simp only [if_neg hinf, if_neg hnan, decimal_digits hne hl, Option.map_some,
    Bool.false_eq_true, ↓reduceIte]

end Digits

/-- A number reads back as it was printed, if it is not too large for a float. -/
theorem floatOfString_toString (n : ℕ) : floatOfString (toString n) = some (toFloat n) := by
  have hdigit : ∀ c ∈ Nat.toDigits 10 n, c.isDigit := fun c hc =>
    Nat.isDigit_of_mem_toDigits (by omega) (by omega) hc
  have hvalue : natOfDigits ((Nat.toDigits 10 n).map fun c => c.toNat - '0'.toNat) = n := by
    rw [natOfDigits, List.foldl_map]
    exact Nat.ofDigitChars_ten_toDigits
  rw [Nat.toString_eq_ofList_toDigits, floatOfString_digits Nat.toDigits_ne_nil hdigit, hvalue]

/-- The float of a natural number that is not 0. -/
theorem toFloat_natCast {n : ℕ} (hn : 0 < n) :
    toFloat n = if n < floatBound then .fin n else .posInf := by
  have hone : (1 : ℚ) ≤ n := Nat.one_le_cast.mpr hn
  have hpow : (1 : ℚ) < 2 ^ 1075 := one_lt_pow₀ one_lt_two (by decide)
  have hlarge : ¬ (n : ℚ) * 2 ^ 1075 ≤ 1 := by
    refine not_le.mpr (lt_of_lt_of_le hpow ?_)
    exact le_mul_of_one_le_left (zero_le_one.trans hpow.le) hone
  rw [toFloat, if_neg hlarge]
  simp only [Nat.cast_lt]

end Py
