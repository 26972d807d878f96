import BatchEngine.Lib.Dict
import BatchEngine.Lib.PyValue
import BatchEngine.Core.Models
import BatchEngine.Providers.Base

/-!
# The live provider

`DigitalOceanProvider.complete` on whatever the HTTP client returns or raises. Python
exceptions that its `except` clauses do not name escape from it.
-/

set_option autoImplicit false

namespace BatchEngine.Providers

open Py (Json Exc)
open BatchEngine.Core (UsageDelta)

def rateLimitHeaders : List String :=
  ["x-ratelimit-limit-requests",
   "x-ratelimit-remaining-requests",
   "x-ratelimit-reset-requests",
   "x-ratelimit-limit-tokens-per-minute",
   "x-ratelimit-remaining-tokens-per-minute",
   "x-ratelimit-reset-tokens-per-minute",
   "x-ratelimit-limit-tokens-per-day",
   "x-ratelimit-remaining-tokens-per-day",
   "x-ratelimit-reset-tokens-per-day"]

/-- Dollars for a million input tokens and for a million output tokens. -/
def modelPricing : List (String × ℚ × ℚ) :=
  [("mistral-3-14B", 1 / 5, 1 / 5),
   ("openai-gpt-oss-20b", 1 / 20, 9 / 20),
   ("openai-gpt-oss-120b", 3 / 50, 39 / 100),
   ("gemma-4-31B-it", 9 / 50, 1 / 2),
   ("llama-4-maverick", 1 / 5, 87 / 125)]

def defaultPricing : ℚ × ℚ := (1 / 5, 1 / 5)

example : Dict.get? modelPricing "mistral-3-14B" = some defaultPricing := rfl

/-- What the HTTP client makes of one request. `headers` has lower-case names; `body` is
what `resp.json()` returns or raises. `transportError` is one of the three exceptions that
`complete` wraps. -/
inductive HttpReply where
  | response (statusCode : ℤ) (headers : List (String × String)) (text : String)
      (body : Except Exc Json)
  | transportError
  | otherException

/-! ## `complete` -/

/-- `body["choices"][0]["message"]["content"]`. -/
def contentOf (body : Json) : Except Exc Json := do
  let choices ← Py.getKey "choices" body
  let choice ← Py.getZero choices
  let message ← Py.getKey "message" choice
  Py.getKey "content" message

/-- `int(body.get("usage", {}).get(field, 0))`. -/
def tokensOf (field : String) (body : Json) : Except Exc ℤ := do
  let usage ← Py.getD "usage" (.obj []) body
  let count ← Py.getD field (.int 0) usage
  Py.int count

/-- The text and the token counts of a 200; `none` where the content is no string. -/
def parseBody (body : Json) : Except Exc (Option (String × UsageDelta)) := do
  match ← contentOf body with
  | .str text =>
    let inputTokens ← tokensOf "prompt_tokens" body
    let outputTokens ← tokensOf "completion_tokens" body
    return some (text, ⟨inputTokens, outputTokens⟩)
  | _ => return none

/-- `except (KeyError, IndexError, ValueError, TypeError)`. -/
def caught (e : Exc) : Bool :=
  e = .keyError ∨ e = .indexError ∨ e = .valueError ∨ e = .typeError

def DigitalOceanProvider.complete : HttpReply → CallResult
  | .transportError => .transportError
  | .otherException => .otherException
  | .response statusCode headers text body =>
    let headers := rateLimitHeaders.filterMap fun h => (Dict.get? headers h).map fun v => (h, v)
    if statusCode ≠ 200 then .returned { statusCode, text, headers }
    else match body >>= parseBody with
      | .ok (some (text, usage)) =>
        .returned { statusCode := 200, text, inputTokens := usage.inputTokens,
                    outputTokens := usage.outputTokens, headers }
      | .ok none => .returned { statusCode := 200, malformed := true, headers }
      | .error e =>
        if caught e then .returned { statusCode := 200, malformed := true, headers }
        else .otherException

def digitalOceanProvider (modelForPricing : String) : InferenceProvider HttpReply :=
  let pricing := (Dict.get? modelPricing modelForPricing).getD defaultPricing
  { complete := DigitalOceanProvider.complete, costPer1mInput := pricing.1,
    costPer1mOutput := pricing.2 }

theorem pricing_nonneg (model : String) :
    0 ≤ (digitalOceanProvider model).costPer1mInput ∧
      0 ≤ (digitalOceanProvider model).costPer1mOutput := by
  have hall : ∀ p ∈ modelPricing, 0 ≤ p.2.1 ∧ 0 ≤ p.2.2 := by decide +kernel
  have hdefault : 0 ≤ defaultPricing.1 ∧ 0 ≤ defaultPricing.2 := by decide +kernel
  unfold digitalOceanProvider
  cases hpricing : Dict.get? modelPricing model with
  | none => exact hdefault
  | some pricing => exact hall _ (Dict.mem_of_get? hpricing)

/-! ## What the upstream reports -/

/-- A count that the body does not report, or not as a number, is none. -/
def reportedTokens (field : String) (body : Json) : ℤ :=
  match tokensOf field body with
  | .ok count => count
  | .error _ => 0

/-- The token counts that the upstream reports in its answer: those of a 200. -/
def HttpReply.reported : HttpReply → UsageDelta
  | .response 200 _ _ (.ok body) =>
    ⟨reportedTokens "prompt_tokens" body, reportedTokens "completion_tokens" body⟩
  | _ => {}

/-- A 200 whose body has a text and proper token counts. -/
def HttpReply.usable : HttpReply → Bool
  | .response 200 _ _ (.ok body) =>
    match parseBody body with
    | .ok (some _) => true
    | _ => false
  | _ => false

theorem parseBody_some {body : Json} {text : String} {usage : UsageDelta}
    (h : parseBody body = .ok (some (text, usage))) :
    tokensOf "prompt_tokens" body = .ok usage.inputTokens ∧
      tokensOf "completion_tokens" body = .ok usage.outputTokens := by
  unfold parseBody at h
  cases hcontent : contentOf body with
  | error e => rw [hcontent] at h; cases h
  | ok content =>
    rw [hcontent] at h
    cases content with
    | str s =>
      cases hinput : tokensOf "prompt_tokens" body with
      | error e => simp [hinput, bind, Except.bind] at h
      | ok inputTokens =>
        cases houtput : tokensOf "completion_tokens" body with
        | error e => simp [hinput, houtput, bind, Except.bind] at h
        | ok outputTokens =>
          simp only [hinput, houtput, bind, Except.bind, pure, Except.pure, Except.ok.injEq,
            Option.some.injEq, Prod.mk.injEq] at h
          obtain ⟨-, rfl⟩ := h
          exact ⟨rfl, rfl⟩
    | _ => cases h

end BatchEngine.Providers
