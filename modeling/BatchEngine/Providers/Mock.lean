import BatchEngine.Lib.PyValue
import BatchEngine.Lib.SlidingWindow
import BatchEngine.Providers.Base
import Mathlib.Algebra.Order.Floor.Semiring
import Mathlib.Data.List.Induction

/-!
# The mock provider

`MockProvider` stands in for the upstream. Its answers are drawn at random, within the
account quota that it simulates: in a rolling window it lets a fixed number of calls past.
The draws of a call are given with the call.
-/

set_option autoImplicit false

namespace BatchEngine.Providers

structure MockProviderConfig where
  p429 : ℚ := 0
  p500 : ℚ := 0
  p400 : ℚ := 0
  pTimeout : ℚ := 0
  pUnexpectedException : ℚ := 0
  hardRpmCeiling : Option ℤ := none
  windowS : ℚ := 60
  failAfterN : Option ℤ := none
  fatalStatus : ℤ := 402
  malformedResponseRate : ℚ := 0
  simulateDelay : Bool := false
  costPer1mInput : ℚ := 1 / 20
  costPer1mOutput : ℚ := 9 / 20

structure MockProvider where
  cfg : MockProviderConfig
  callCount : ℕ := 0
  requestTimestamps : List ℚ := []

/-- What `random()` and `randint()` return in one call, in the order of the code. -/
structure Draws where
  unexpected : ℚ
  timeout : ℚ
  throttle : ℚ
  server : ℚ
  invalid : ℚ
  outputTokens : ℤ
  malformed : ℚ

structure MockCall where
  now : ℚ
  prompt : String
  maxTokens : ℤ
  draws : Draws

/-- How a call fares before anything is drawn. -/
inductive Gate where
  | fatal
  | exceeded (resetAt : ℚ)
  | indexError
  | admitted
  deriving DecidableEq

namespace MockProvider

def pruneWindow (m : MockProvider) (now : ℚ) : MockProvider :=
  { m with requestTimestamps := Window.prune m.cfg.windowS now m.requestTimestamps }

/-- `hard_rpm_ceiling or 120`. -/
def limitHeader (m : MockProvider) : ℤ :=
  match m.cfg.hardRpmCeiling with
  | none => 120
  | some ceiling => if ceiling = 0 then 120 else ceiling

def headers (m : MockProvider) (remainingRequests : ℤ) (resetRequests : ℚ) :
    List (String × String) :=
  [("x-ratelimit-limit-requests", toString m.limitHeader),
   ("x-ratelimit-remaining-requests", toString remainingRequests),
   ("x-ratelimit-reset-requests", toString (Py.trunc resetRequests)),
   ("x-ratelimit-limit-tokens-per-minute", "500000"),
   ("x-ratelimit-remaining-tokens-per-minute", "500000"),
   ("x-ratelimit-reset-tokens-per-minute", "0")]

def remaining (m : MockProvider) (now : ℚ) : ℤ × MockProvider :=
  match m.cfg.hardRpmCeiling with
  | none => (999, m)
  | some ceiling =>
    (max 0 (ceiling - (m.pruneWindow now).requestTimestamps.length), m.pruneWindow now)

/-- `complete` up to the sleep of `simulate_delay`, which ends at any time. -/
def arrive (m : MockProvider) : MockProvider := { m with callCount := m.callCount + 1 }

/-- `complete` from the sleep up to the first draw. `now` is the time of the arrival. -/
def pass (m : MockProvider) (now : ℚ) : Gate × MockProvider :=
  if ∃ n ∈ m.cfg.failAfterN, n < m.callCount then (.fatal, m)
  else match m.cfg.hardRpmCeiling with
    | none => (.admitted, m)
    | some ceiling =>
      let m := m.pruneWindow now
      if ceiling ≤ m.requestTimestamps.length then
        match m.requestTimestamps with
        | [] => (.indexError, m)
        | first :: _ => (.exceeded (first + m.cfg.windowS), m)
      else (.admitted, { m with requestTimestamps := m.requestTimestamps ++ [now] })

/-- How a call fares that does not sleep. -/
def gate (m : MockProvider) (now : ℚ) : Gate × MockProvider := m.arrive.pass now

/-- `complete` from the first draw on. `strRepr` is `repr` of a string. `randint` raises a
`ValueError` if its range is empty. -/
def answer (strRepr : String → String) (m : MockProvider) (call : MockCall) :
    CallResult × MockProvider :=
  if call.draws.unexpected < m.cfg.pUnexpectedException then (.otherException, m)
  else if call.draws.timeout < m.cfg.pTimeout then (.transportError, m)
  else if call.draws.throttle < m.cfg.p429 then
    (.returned { statusCode := 429, text := "mock: simulated throttle",
                 headers := m.headers 0 (call.now + 1) }, m)
  else if call.draws.server < m.cfg.p500 then
    (.returned { statusCode := 500, text := "mock: simulated server error",
                 headers := m.headers 999 0 }, m)
  else if call.draws.invalid < m.cfg.p400 then
    (.returned { statusCode := 400, text := "mock: simulated invalid request",
                 headers := m.headers 999 0 }, m)
  else if call.maxTokens < call.maxTokens / 2 then (.otherException, m)
  else
    let malformed : Bool := call.draws.malformed < m.cfg.malformedResponseRate
    let (left, next) := m.remaining call.now
    (.returned
      { statusCode := 200
        text := if malformed then ""
          else "mock completion for: " ++
            strRepr (String.ofList (call.prompt.toList.take 32))
        inputTokens := max 1 (call.prompt.length / 4 : ℕ)
        outputTokens := min call.maxTokens (max 1 call.draws.outputTokens)
        malformed
        headers := m.headers left 0 }, next)

def reply (strRepr : String → String) (fares : Gate × MockProvider) (call : MockCall) :
    CallResult × MockProvider :=
  match fares with
  | (.fatal, m) =>
    (.returned { statusCode := m.cfg.fatalStatus, text := "mock: fatal condition injected" }, m)
  | (.exceeded resetAt, m) =>
    (.returned { statusCode := 429, text := "mock: rate limit exceeded",
                 headers := m.headers 0 resetAt }, m)
  | (.indexError, m) => (.otherException, m)
  | (.admitted, m) => answer strRepr m call

/-- `complete` from the sleep on. -/
def resume (strRepr : String → String) (m : MockProvider) (call : MockCall) :
    CallResult × MockProvider :=
  reply strRepr (m.pass call.now) call

/-- `complete` when it does not sleep. -/
def complete (strRepr : String → String) (m : MockProvider) (call : MockCall) :
    CallResult × MockProvider :=
  reply strRepr (m.gate call.now) call

/-! ## A sequence of calls -/

/-- A call that does not sleep, with the times of all calls and how they fared. -/
def serve (strRepr : String → String) (p : MockProvider × List (ℚ × Gate)) (call : MockCall) :
    MockProvider × List (ℚ × Gate) :=
  ((p.1.complete strRepr call).2, p.2 ++ [(call.now, (p.1.gate call.now).1)])

def served (strRepr : String → String) (cfg : MockProviderConfig) (calls : List MockCall) :
    MockProvider × List (ℚ × Gate) :=
  calls.foldl (serve strRepr) ({ cfg }, [])

/-- The times of the calls that were let past. -/
def admissions (log : List (ℚ × Gate)) : List ℚ :=
  log.filterMap fun x => if x.2 = .admitted then some x.1 else none

/-- The provider has given up on every further call. -/
def Exhausted (cfg : MockProviderConfig) (callCount : ℕ) : Prop :=
  ∃ n ∈ cfg.failAfterN, n < callCount

instance (cfg : MockProviderConfig) (callCount : ℕ) : Decidable (Exhausted cfg callCount) :=
  inferInstanceAs (Decidable (∃ n ∈ cfg.failAfterN, n < (callCount : ℤ)))

variable {strRepr : String → String} {cfg : MockProviderConfig} {ceiling : ℤ} {m : MockProvider}
  {log : List (ℚ × Gate)} {now now' : ℚ}

theorem admissions_snoc (log : List (ℚ × Gate)) (now : ℚ) (g : Gate) :
    admissions (log ++ [(now, g)]) = admissions log ++ if g = .admitted then [now] else [] := by
  rw [admissions, List.filterMap_append]
  by_cases hg : g = .admitted
  · simp [hg, admissions]
  · simp [hg, admissions]

/-- What the provider remembers of the calls it has had. -/
structure Remembers (cfg : MockProviderConfig) (ceiling : ℤ) (m : MockProvider)
    (log : List (ℚ × Gate)) (now : ℚ) : Prop where
  cfg_eq : m.cfg = cfg
  count : m.callCount = log.length
  tracks : Window.Tracks cfg.windowS (admissions log) m.requestTimestamps now
  capped : Window.Capped cfg.windowS ceiling.toNat (admissions log)

/-- How a call fares, and what is remembered of it. -/
inductive GateTurn (cfg : MockProviderConfig) (ceiling : ℤ) (m : MockProvider) (now : ℚ) :
    Gate × MockProvider → Prop
  | fatal (hfatal : Exhausted cfg (m.callCount + 1)) :
      GateTurn cfg ceiling m now (.fatal, { m with callCount := m.callCount + 1 })
  | refused (g : Gate) (hopen : ¬ Exhausted cfg (m.callCount + 1))
      (hfull : ceiling ≤ (Window.prune cfg.windowS now m.requestTimestamps).length)
      (hgate : g = match Window.prune cfg.windowS now m.requestTimestamps with
        | [] => .indexError
        | first :: _ => .exceeded (first + cfg.windowS)) :
      GateTurn cfg ceiling m now (g,
        { m with
          callCount := m.callCount + 1
          requestTimestamps := Window.prune cfg.windowS now m.requestTimestamps })
  | admitted (hopen : ¬ Exhausted cfg (m.callCount + 1))
      (hroom : (Window.prune cfg.windowS now m.requestTimestamps).length < ceiling) :
      GateTurn cfg ceiling m now (.admitted,
        { m with
          callCount := m.callCount + 1
          requestTimestamps := Window.prune cfg.windowS now m.requestTimestamps ++ [now] })

theorem gate_turn (hcfg : m.cfg = cfg) (hceiling : cfg.hardRpmCeiling = some ceiling) (now : ℚ) :
    GateTurn cfg ceiling m now (m.gate now) := by
  subst hcfg
  unfold gate pass arrive
  simp only [hceiling]
  split
  · exact .fatal ‹_›
  · rename_i hopen
    split
    · rename_i hfull
      split
      · rename_i hqueue
        have hempty : Window.prune m.cfg.windowS now m.requestTimestamps = [] := hqueue
        exact .refused _ hopen hfull (by rw [hempty])
      · rename_i first rest hqueue
        have hfirst : Window.prune m.cfg.windowS now m.requestTimestamps = first :: rest := hqueue
        exact .refused _ hopen hfull (by rw [hfirst]; rfl)
    · exact .admitted hopen (not_le.mp ‹_›)

theorem Remembers.later (h : Remembers cfg ceiling m log now) (hnow : now ≤ now') :
    Remembers cfg ceiling m log now' :=
  ⟨h.cfg_eq, h.count, h.tracks.later hnow, h.capped⟩

theorem Remembers.prune (h : Remembers cfg ceiling m log now) (hnow : now ≤ now') :
    Remembers cfg ceiling (m.pruneWindow now') log now' := by
  refine ⟨h.cfg_eq, h.count, ?_, h.capped⟩
  show Window.Tracks _ _ (Window.prune m.cfg.windowS now' m.requestTimestamps) _
  rw [h.cfg_eq]
  exact h.tracks.prune hnow

/-- After the gate the provider changes at most by another look at the window. -/
theorem complete_state (strRepr : String → String) (m : MockProvider) (call : MockCall) :
    (m.complete strRepr call).2 = (m.gate call.now).2 ∨
      (m.complete strRepr call).2 = (m.gate call.now).2.pruneWindow call.now := by
  unfold complete reply
  split
  · exact Or.inl (congrArg Prod.snd ‹m.gate call.now = _›.symm)
  · exact Or.inl (congrArg Prod.snd ‹m.gate call.now = _›.symm)
  · exact Or.inl (congrArg Prod.snd ‹m.gate call.now = _›.symm)
  · rename_i next hgate
    rw [hgate]
    unfold answer
    split
    · exact Or.inl rfl
    split
    · exact Or.inl rfl
    split
    · exact Or.inl rfl
    split
    · exact Or.inl rfl
    split
    · exact Or.inl rfl
    split
    · exact Or.inl rfl
    show (next.remaining call.now).2 = _ ∨ (next.remaining call.now).2 = _
    unfold remaining
    split
    · exact Or.inl rfl
    · exact Or.inr rfl

/-- The gate keeps the account. -/
theorem Remembers.gate (h : Remembers cfg ceiling m log now) (hnow : now ≤ now')
    (hceiling : cfg.hardRpmCeiling = some ceiling) :
    Remembers cfg ceiling (m.gate now').2 (log ++ [(now', (m.gate now').1)]) now' := by
  have htracks := h.tracks.prune hnow
  have hturn := gate_turn h.cfg_eq hceiling now'
  generalize m.gate now' = next at hturn
  have hcount : m.callCount + 1 = (log ++ [(now', next.1)]).length := by
    rw [h.count, List.length_append, List.length_singleton]
  cases hturn with
  | fatal _ =>
    have hfatal : Gate.fatal ≠ .admitted := Gate.noConfusion
    refine ⟨h.cfg_eq, hcount, ?_, ?_⟩ <;> rw [admissions_snoc, if_neg hfatal, List.append_nil]
    · exact h.tracks.later hnow
    · exact h.capped
  | refused g _ _ hgate =>
    have hrefused : g ≠ .admitted := by
      rw [hgate]
      split <;> exact Gate.noConfusion
    refine ⟨h.cfg_eq, hcount, ?_, ?_⟩ <;> rw [admissions_snoc, if_neg hrefused, List.append_nil]
    · exact htracks
    · exact h.capped
  | admitted _ hroom =>
    refine ⟨h.cfg_eq, hcount, ?_, ?_⟩ <;> rw [admissions_snoc, if_pos rfl]
    · exact htracks.admit
    · refine h.capped.admit htracks.past ?_
      rw [← h.tracks.length_prune hnow]
      omega

theorem Remembers.complete (h : Remembers cfg ceiling m log now) (call : MockCall)
    (hnow : now ≤ call.now) (hceiling : cfg.hardRpmCeiling = some ceiling) :
    Remembers cfg ceiling (m.complete strRepr call).2 (log ++ [(call.now, (m.gate call.now).1)])
      call.now := by
  have hgate := h.gate hnow hceiling
  rcases complete_state strRepr m call with hstate | hstate <;> rw [hstate]
  · exact hgate
  · exact hgate.prune le_rfl

theorem served_snoc (strRepr : String → String) (cfg : MockProviderConfig) (calls : List MockCall)
    (call : MockCall) :
    served strRepr cfg (calls ++ [call]) = serve strRepr (served strRepr cfg calls) call := by
  rw [served, List.foldl_append]
  rfl

theorem served_remembers (strRepr : String → String) (hceiling : cfg.hardRpmCeiling = some ceiling)
    (calls : List MockCall) : (calls.map MockCall.now).Pairwise (· ≤ ·) →
    ∀ now, (∀ call ∈ calls, call.now ≤ now) →
      Remembers cfg ceiling (served strRepr cfg calls).1 (served strRepr cfg calls).2 now ∧
        (served strRepr cfg calls).2.length = calls.length := by
  induction calls using List.reverseRecOn with
  | nil =>
    intro _ now _
    exact ⟨⟨rfl, rfl, Window.tracks_nil, Window.capped_nil⟩, rfl⟩
  | append_singleton calls call ih =>
    intro hclock now hnow
    rw [List.map_append, List.pairwise_append] at hclock
    obtain ⟨hfront, -, hlast⟩ := hclock
    have hbefore : ∀ c ∈ calls, c.now ≤ call.now := fun c hc =>
      hlast c.now (List.mem_map_of_mem hc) call.now (List.mem_singleton_self _)
    obtain ⟨hremembers, hlength⟩ := ih hfront call.now hbefore
    have hnext : Remembers cfg ceiling ((served strRepr cfg calls).1.complete strRepr call).2 _
        call.now := hremembers.complete call le_rfl hceiling
    have hcall : call.now ≤ now :=
      hnow call (List.mem_append_right calls (List.mem_singleton_self call))
    rw [served_snoc]
    refine ⟨hnext.later hcall, ?_⟩
    show ((served strRepr cfg calls).2 ++ [_]).length = _
    rw [List.length_append, hlength, List.length_append]
    rfl

/-- How the next call fares. -/
theorem Remembers.gate_iff (h : Remembers cfg ceiling m log now) (hnow : now ≤ now')
    (hceiling : cfg.hardRpmCeiling = some ceiling) :
    ((m.gate now').1 = .fatal ↔ Exhausted cfg (log.length + 1)) ∧
      ((m.gate now').1 = .admitted ↔ ¬ Exhausted cfg (log.length + 1) ∧
        Window.inside cfg.windowS (now' - cfg.windowS) (admissions log) < ceiling) := by
  have hturn := gate_turn h.cfg_eq hceiling now'
  have hlength := h.tracks.length_prune hnow
  rw [← h.count, ← hlength]
  generalize m.gate now' = next at hturn
  cases hturn with
  | fatal hfatal =>
    exact ⟨iff_of_true rfl hfatal, iff_of_false Gate.noConfusion fun h => h.1 hfatal⟩
  | refused g hopen hfull hgate =>
    have hrefused : g ≠ .fatal ∧ g ≠ .admitted := by
      rw [hgate]
      split <;> exact ⟨Gate.noConfusion, Gate.noConfusion⟩
    exact ⟨iff_of_false hrefused.1 hopen,
      iff_of_false hrefused.2 fun h => absurd h.2 (not_lt.mpr hfull)⟩
  | admitted hopen hroom =>
    exact ⟨iff_of_false Gate.noConfusion hopen, iff_of_true rfl ⟨hopen, hroom⟩⟩

/-- How a call fares after the calls `before`, if the clock does not go back. -/
theorem served_gate (strRepr : String → String) (hceiling : cfg.hardRpmCeiling = some ceiling)
    {before : List MockCall} (hclock : (before.map MockCall.now).Pairwise (· ≤ ·))
    (hbefore : ∀ c ∈ before, c.now ≤ now') :
    let fares := ((served strRepr cfg before).1.gate now').1
    (fares = .fatal ↔ Exhausted cfg (before.length + 1)) ∧
      (fares = .admitted ↔ ¬ Exhausted cfg (before.length + 1) ∧
        Window.inside cfg.windowS (now' - cfg.windowS)
          (admissions (served strRepr cfg before).2) < ceiling) := by
  obtain ⟨hremembers, hlength⟩ := served_remembers strRepr hceiling before hclock now' hbefore
  have hfares := hremembers.gate_iff le_rfl hceiling
  rwa [hlength] at hfares

/-- The simulated quota holds over every rolling window, whatever is drawn: no window of
`window_s` has more admissions than the ceiling, and a call is turned away exactly if the
window that ends with it is full or the provider has given up. -/
theorem quota_holds (strRepr : String → String) (hceiling : cfg.hardRpmCeiling = some ceiling)
    {calls : List MockCall} (hclock : (calls.map MockCall.now).Pairwise (· ≤ ·)) :
    (∀ start, Window.inside cfg.windowS start (admissions (served strRepr cfg calls).2) ≤
      ceiling.toNat) ∧
    ∀ before call after, calls = before ++ call :: after →
      let fares := ((served strRepr cfg before).1.gate call.now).1
      (fares = .fatal ↔ Exhausted cfg (before.length + 1)) ∧
        (fares = .admitted ↔ ¬ Exhausted cfg (before.length + 1) ∧
          Window.inside cfg.windowS (call.now - cfg.windowS)
            (admissions (served strRepr cfg before).2) < ceiling) := by
  constructor
  · have hbound : ∃ now, ∀ call ∈ calls, call.now ≤ now := by
      clear hclock
      induction calls with
      | nil => exact ⟨0, fun _ hc => absurd hc List.not_mem_nil⟩
      | cons call calls ih =>
        obtain ⟨now, hnow⟩ := ih
        refine ⟨max call.now now, fun c hc => ?_⟩
        rcases List.mem_cons.mp hc with rfl | hc
        · exact le_max_left _ _
        · exact (hnow c hc).trans (le_max_right _ _)
    obtain ⟨now, hnow⟩ := hbound
    exact (served_remembers strRepr hceiling calls hclock now hnow).1.capped
  · rintro before call after rfl
    rw [List.map_append, List.pairwise_append] at hclock
    obtain ⟨hfront, -, hlast⟩ := hclock
    have hbefore : ∀ c ∈ before, c.now ≤ call.now := fun c hc =>
      hlast c.now (List.mem_map_of_mem hc) call.now List.mem_cons_self
    exact served_gate strRepr hceiling hfront hbefore

def quoted (s : String) : String := "'" ++ s ++ "'"

/-- Three calls against a ceiling of two. -/
def threeCalls : List MockCall :=
  [1 / 2, 10, 20].map fun now => ⟨now, "hi", 8, ⟨1, 1, 1, 1, 1, 8, 1⟩⟩

def twoPerMinute : MockProviderConfig := { hardRpmCeiling := some 2 }

theorem quota_holds_threeCalls :
    ((served quoted twoPerMinute threeCalls).2.map Prod.snd) =
      [.admitted, .admitted, .exceeded (121 / 2)] ∧
    Window.inside twoPerMinute.windowS 0 (admissions (served quoted twoPerMinute threeCalls).2) ≤
      2 := by
  have hclock : (threeCalls.map MockCall.now).Pairwise (· ≤ ·) := by decide +kernel
  have hceiling : twoPerMinute.hardRpmCeiling = some 2 := rfl
  exact ⟨by decide +kernel, (quota_holds quoted hceiling hclock).1 0⟩

/-- The window that a call finds full has room again exactly after the reset time. -/
theorem Remembers.room_iff (h : Remembers cfg ceiling m log now)
    (hceiling : cfg.hardRpmCeiling = some ceiling) {resetAt : ℚ}
    (hexceeded : (m.gate now).1 = .exceeded resetAt) (hnow : now ≤ now') :
    Window.inside cfg.windowS (now' - cfg.windowS) (admissions log) < ceiling ↔ resetAt < now' := by
  have hturn := gate_turn h.cfg_eq hceiling now
  have hpruned := h.tracks.prune (le_refl now)
  have hfull := h.tracks.length_prune (le_refl now)
  have hcapped := h.capped (now - cfg.windowS)
  rw [← hpruned.length_prune hnow]
  generalize m.gate now = next at hexceeded hturn
  cases hturn with
  | fatal _ => exact absurd hexceeded Gate.noConfusion
  | admitted _ _ => exact absurd hexceeded Gate.noConfusion
  | refused g _ hceil hgate =>
    change g = .exceeded resetAt at hexceeded
    generalize Window.prune cfg.windowS now m.requestTimestamps = queue at hceil hfull hgate ⊢
    cases queue with
    | nil => exact absurd (hexceeded.symm.trans hgate) Gate.noConfusion
    | cons first rest =>
      have hreset : resetAt = first + cfg.windowS := by
        injection hexceeded.symm.trans hgate
      have hle : (first :: rest).length ≤ ceiling.toNat := hfull.trans_le hcapped
      have hlong : ((first :: rest).length : ℤ) = ceiling := by
        rw [List.length_cons] at hle hceil ⊢
        omega
      rw [hreset, ← Window.length_prune_lt_iff first rest, ← hlong, Int.ofNat_lt]

/-- Nobody is let past until after the reset time that a call is turned away with. -/
theorem closed_until_reset (strRepr : String → String)
    (hceiling : cfg.hardRpmCeiling = some ceiling) {before : List MockCall} {call : MockCall}
    {resetAt : ℚ} (hexceeded : ((served strRepr cfg before).1.gate call.now).1 = .exceeded resetAt)
    (after : List MockCall) :
    ((before ++ call :: after).map MockCall.now).Pairwise (· ≤ ·) →
    (∀ c ∈ after, c.now ≤ resetAt) →
      admissions (served strRepr cfg (before ++ call :: after)).2 =
        admissions (served strRepr cfg before).2 := by
  induction after using List.reverseRecOn with
  | nil =>
    intro _ _
    rw [served_snoc]
    show admissions (_ ++ [(call.now, _)]) = _
    rw [admissions_snoc, hexceeded]
    exact List.append_nil _
  | append_singleton after last ih =>
    intro hclock hafter
    have hassoc : before ++ call :: (after ++ [last]) = (before ++ call :: after) ++ [last] := by
      simp only [List.append_assoc, List.cons_append]
    rw [hassoc, List.map_append, List.pairwise_append] at hclock
    obtain ⟨hfront, -, hlast⟩ := hclock
    have hkept := ih hfront fun c hc => hafter c (List.mem_append_left _ hc)
    have hearlier : ∀ c ∈ before ++ call :: after, c.now ≤ last.now := fun c hc =>
      hlast c.now (List.mem_map_of_mem hc) last.now (List.mem_singleton_self _)
    have hcall : call.now ≤ last.now :=
      hearlier call (List.mem_append_right before List.mem_cons_self)
    have hrefused : ((served strRepr cfg (before ++ call :: after)).1.gate last.now).1 ≠
        .admitted := by
      intro hadmitted
      have hroom := ((served_gate strRepr hceiling hfront hearlier).2.mp hadmitted).2
      rw [List.map_append, List.pairwise_append] at hfront
      have hbefore : ∀ c ∈ before, c.now ≤ call.now := fun c hc =>
        hfront.2.2 c.now (List.mem_map_of_mem hc) call.now List.mem_cons_self
      have hremembers := (served_remembers strRepr hceiling before hfront.1 call.now hbefore).1
      rw [hkept, hremembers.room_iff hceiling hexceeded hcall] at hroom
      exact absurd (hafter last (List.mem_append_right _ (List.mem_singleton_self _)))
        (not_le.mpr hroom)
    rw [hassoc, served_snoc]
    show admissions (_ ++ [(last.now, _)]) = _
    rw [admissions_snoc, if_neg hrefused, List.append_nil, hkept]

/-- The first call after it is, if it is in time for the provider at all. -/
theorem open_after_reset (strRepr : String → String)
    (hceiling : cfg.hardRpmCeiling = some ceiling) {before after : List MockCall} {call : MockCall}
    {resetAt : ℚ} (hexceeded : ((served strRepr cfg before).1.gate call.now).1 = .exceeded resetAt)
    (hclock : ((before ++ call :: after).map MockCall.now).Pairwise (· ≤ ·))
    (hafter : ∀ c ∈ after, c.now ≤ resetAt) (hnow : ∀ c ∈ before ++ call :: after, c.now ≤ now') :
    ((served strRepr cfg (before ++ call :: after)).1.gate now').1 = .admitted ↔
      ¬ Exhausted cfg ((before ++ call :: after).length + 1) ∧ resetAt < now' := by
  have hcall : call.now ≤ now' := hnow call (List.mem_append_right before List.mem_cons_self)
  rw [(served_gate strRepr hceiling hclock hnow).2,
    closed_until_reset strRepr hceiling hexceeded after hclock hafter]
  rw [List.map_append, List.pairwise_append] at hclock
  have hbefore : ∀ c ∈ before, c.now ≤ call.now := fun c hc =>
    hclock.2.2 c.now (List.mem_map_of_mem hc) call.now List.mem_cons_self
  have hremembers := (served_remembers strRepr hceiling before hclock.1 call.now hbefore).1
  rw [hremembers.room_iff hceiling hexceeded hcall]

end MockProvider

end BatchEngine.Providers
