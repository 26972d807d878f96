import Mathlib.Algebra.Order.Ring.Rat

/-!
# The provider protocol

One completion call either returns a normalized response, whatever its status, or
raises. `R` is what the upstream does in answer to one call, so a sequence of `R`s
is a provider behaviour.
-/

set_option autoImplicit false

namespace BatchEngine.Providers

structure ProviderResponse where
  statusCode : ℤ
  text : String := ""
  inputTokens : ℤ := 0
  outputTokens : ℤ := 0
  malformed : Bool := false
  headers : List (String × String) := []
  deriving DecidableEq, Repr

/-- How one call of `complete` ends. `otherException` is any ordinary exception
that is not a `ProviderTransportError`. -/
inductive CallResult where
  | returned (r : ProviderResponse)
  | transportError
  | otherException
  deriving DecidableEq, Repr

/-- An `InferenceProvider`. The prices are what the two cost methods return when
they return; `costMayRaise` says whether they can raise instead. -/
structure InferenceProvider (R : Type*) where
  complete : R → CallResult
  costPer1mInput : ℚ
  costPer1mOutput : ℚ
  costMayRaise : Bool := false

/-- A provider whose calls end as the script says. -/
def scripted (costIn costOut : ℚ) : InferenceProvider CallResult :=
  { complete := id, costPer1mInput := costIn, costPer1mOutput := costOut }

end BatchEngine.Providers
