import BatchEngine.Lib.JsonTree

/-!
# Floats as an interpreter has them

The values that are floats of an interpreter are those that its `repr` writes so that they
read back as themselves. They are ordered as IEEE 754 orders them, so that nothing compares
with a NaN, and a sum of floats is rounded to a float.
-/

set_option autoImplicit false

namespace Py

namespace PyFloat

/-- `x <= y`. -/
def Le : PyFloat → PyFloat → Prop
  | nan, _ => False
  | _, nan => False
  | negInf, _ => True
  | _, posInf => True
  | fin q, fin r => q ≤ r
  | posInf, fin _ | posInf, negInf | fin _, negInf => False

/-- `max(0.0, x)`. -/
def maxZero : PyFloat → PyFloat
  | fin q => fin (max 0 q)
  | posInf => posInf
  | negInf | nan => fin 0

theorem Le.refl {x : PyFloat} (h : x ≠ nan) : x.Le x := by
  cases x with
  | fin q => exact le_refl q
  | posInf => exact trivial
  | negInf => exact trivial
  | nan => exact absurd rfl h

theorem Le.trans {x y z : PyFloat} (hxy : x.Le y) (hyz : y.Le z) : x.Le z := by
  cases x <;> cases y <;> cases z <;> first
    | exact trivial
    | exact hxy.elim
    | exact hyz.elim
    | exact le_trans hxy hyz

theorem Le.ne_nan {x y : PyFloat} (h : x.Le y) : y ≠ nan := by
  rintro rfl
  cases x <;> exact h

theorem Le.antisymm {x y : PyFloat} (hxy : x.Le y) (hyx : y.Le x) : x = y := by
  cases x <;> cases y <;> first
    | rfl
    | exact hxy.elim
    | exact hyx.elim
    | exact congrArg fin (le_antisymm hxy hyx)

theorem maxZero_nonneg (x : PyFloat) : (fin 0).Le x.maxZero := by
  cases x with
  | fin q => exact le_max_left 0 q
  | posInf => exact trivial
  | negInf => exact le_refl (0 : ℚ)
  | nan => exact le_refl (0 : ℚ)

end PyFloat

namespace Host

variable (host : Host)

/-- `repr` reads back as the value. -/
def IsFloat : PyFloat → Prop
  | .fin q => (host.reprFloat q).floatValue = .fin q
  | .posInf | .negInf | .nan => True

instance : (x : PyFloat) → Decidable (host.IsFloat x)
  | .fin q => inferInstanceAs (Decidable ((host.reprFloat q).floatValue = .fin q))
  | .posInf | .negInf | .nan => .isTrue trivial

/-- A float as `json.dumps` writes it. -/
def floatAtom : PyFloat → Atom
  | .fin q => .scalar (.float (host.reprFloat q))
  | .posInf => .infinity false
  | .negInf => .infinity true
  | .nan => .nan

variable {host}

theorem floatAtom_printable (x : PyFloat) : (host.floatAtom x).Printable := by
  cases x <;> exact trivial

theorem floatAtom_toJson {x : PyFloat} (h : host.IsFloat x) :
    (host.floatAtom x).toJson = .float x := by
  cases x with
  | fin q => exact congrArg Json.float h
  | posInf => rfl
  | negInf => rfl
  | nan => rfl

end Host

/-- The addition of an interpreter: a sum is a float, and not below a summand to which
something is added that is not negative. -/
structure FloatSum (host : Host) where
  add : PyFloat → PyFloat → PyFloat
  zero : host.IsFloat (.fin 0)
  isFloat : ∀ x y, host.IsFloat (add x y)
  le_add : ∀ x y, host.IsFloat x → (PyFloat.fin 0).Le x → (PyFloat.fin 0).Le y → x.Le (add x y)

end Py
