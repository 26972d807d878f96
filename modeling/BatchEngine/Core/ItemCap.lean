import BatchEngine.Core.Conservation
import BatchEngine.Core.Ingest
import BatchEngine.Core.Stop

/-!
# The item cap

`_ingest_and_dispatch` tests `max_items` after it has queued an entry. What it has queued
is a history beside the job. While it reads, the file is what it has queued, what it is
about to queue, and what is still to come.
-/

set_option autoImplicit false

namespace BatchEngine.Core

open Py

variable {R : Type*}

/-- The entries that have been put on the queue, in order. -/
def dispatched {n : ℕ} (s : State n) (a : Action R n) (_ : State n) (entries : List Entry) :
    List Entry :=
  match a, s.phase with
  | .runner _, .putting t => entries ++ [t.entry]
  | _, _ => entries

/-- The first `max_items` entries, or all without a cap. -/
def capped (maxItems : Option ℕ) (entries : List Entry) : List Entry :=
  match maxItems with
  | none => entries
  | some m => entries.take m

/-- What the loop queues: the cap is tested only after an entry. -/
def firstEntries (maxItems : Option ℕ) (entries : List Entry) : List Entry :=
  capped (maxItems.map (max 1)) entries

/-- The cap lets the loop take another entry. -/
def Room (maxItems : Option ℕ) (entries : List Entry) : Prop :=
  ∀ m ∈ maxItems, entries.length < max 1 m

def Reached (maxItems : Option ℕ) (count : ℕ) : Prop := ∃ m ∈ maxItems, m ≤ count

/-- What has been queued after so much of the loop. -/
def Progress (J : JobRunner R) (s : State J.concurrency) (entries : List Entry) : Prop :=
  match s.phase with
  | .starting | .reading =>
    J.input.entries = entries ++ s.rest ∧ s.ctx.record.counts.ingested = entries.length ∧
      Room J.config.maxItems entries
  | .putting t =>
    J.input.entries = entries ++ t.entry :: s.rest ∧
      s.ctx.record.counts.ingested = entries.length + 1 ∧ Room J.config.maxItems entries
  | .saving =>
    ∃ before e, entries = before ++ [e] ∧ J.input.entries = entries ++ s.rest ∧
      s.ctx.record.counts.ingested = entries.length ∧ Room J.config.maxItems before
  | _ => Stopped s.ctx ∨ entries = firstEntries J.config.maxItems J.input.entries

section Loop

variable {J : JobRunner R} {s s' : State J.concurrency} {entries : List Entry}

theorem room_nil (maxItems : Option ℕ) : Room maxItems [] :=
  fun m _ => Nat.lt_of_lt_of_le Nat.zero_lt_one (Nat.le_max_left 1 m)

/-- The file ends before the cap is reached. -/
theorem firstEntries_of_room {maxItems : Option ℕ} (h : Room maxItems entries) :
    firstEntries maxItems entries = entries := by
  cases maxItems with
  | none => rfl
  | some m => exact List.take_of_length_le (h m rfl).le

/-- The entry after which the cap is reached is the last of the first entries. -/
theorem firstEntries_of_reached {maxItems : Option ℕ} {e : Entry} (hroom : Room maxItems entries)
    (h : Reached maxItems (entries ++ [e]).length) (rest : List Entry) :
    firstEntries maxItems (entries ++ [e] ++ rest) = entries ++ [e] := by
  obtain ⟨m, rfl, hreached⟩ := h
  have hbefore : entries.length < max 1 m := hroom m rfl
  have hlength : max 1 m = (entries ++ [e]).length := by
    rw [List.length_append, List.length_singleton] at hreached ⊢
    omega
  exact List.take_left' hlength.symm

theorem room_of_not_reached {maxItems : Option ℕ} (h : ¬ Reached maxItems entries.length) :
    Room maxItems entries := by
  rintro m rfl
  have hlt : entries.length < m := by
    by_contra hle
    exact h ⟨m, rfl, not_lt.mp hle⟩
  exact Nat.lt_of_lt_of_le hlt (Nat.le_max_right 1 m)

theorem afterPut_cases_reached {n : ℕ} (s : State n) :
    Reached J.config.maxItems s.ctx.record.counts.ingested ∧ afterPut J s = .closing none ∨
      ¬ Reached J.config.maxItems s.ctx.record.counts.ingested ∧ afterPut J s = .reading := by
  unfold afterPut
  cases hmax : J.config.maxItems with
  | none => exact Or.inr ⟨by rintro ⟨m, ⟨⟩, -⟩, rfl⟩
  | some m =>
    by_cases hreached : m ≤ s.ctx.record.counts.ingested
    · exact Or.inl ⟨⟨m, rfl, hreached⟩, if_pos hreached⟩
    · refine Or.inr ⟨?_, if_neg hreached⟩
      rintro ⟨k, ⟨⟩, hle⟩
      exact hreached hle

/-- After an entry was queued, or the record saved, the loop goes on or has reached its cap. -/
theorem progress_afterPut {before : List Entry} {e : Entry}
    (hentries : J.input.entries = before ++ [e] ++ s.rest)
    (hingested : s.ctx.record.counts.ingested = (before ++ [e]).length)
    (hroom : Room J.config.maxItems before) (hphase : s.phase = afterPut J s) :
    Progress J s (before ++ [e]) := by
  rcases afterPut_cases_reached (J := J) s with ⟨hreached, hnext⟩ | ⟨hreached, hnext⟩
  · rw [hingested] at hreached
    rw [Progress, hphase, hnext]
    refine Or.inr ?_
    rw [hentries, firstEntries_of_reached hroom hreached]
  · rw [hingested] at hreached
    rw [Progress, hphase, hnext]
    exact ⟨hentries, hingested, room_of_not_reached hreached⟩

/-- A step that leaves the loop and its counter alone. -/
theorem Progress.frame (h : Progress J s entries) (hphase : s'.phase = s.phase)
    (hrest : s'.rest = s.rest)
    (hingested : s'.ctx.record.counts.ingested = s.ctx.record.counts.ingested)
    (hstopped : Stopped s.ctx → Stopped s'.ctx) : Progress J s' entries := by
  unfold Progress at h ⊢
  rw [hphase, hrest, hingested]
  cases hs : s.phase with
  | starting | reading | putting _ | saving =>
    rw [hs] at h
    exact h
  | _ =>
    rw [hs] at h
    exact h.imp_left hstopped

/-- A phase behind the loop leads to another. -/
theorem Progress.behind (h : Progress J s entries) (hs : ¬ s.phase.Ingesting)
    (hs' : ¬ s'.phase.Ingesting) (hstopped : Stopped s.ctx → Stopped s'.ctx) :
    Progress J s' entries := by
  have hleft : Stopped s.ctx ∨ entries = firstEntries J.config.maxItems J.input.entries := by
    unfold Progress at h
    cases hphase : s.phase with
    | starting | reading | putting _ | saving => exact absurd (hphase ▸ trivial) hs
    | _ =>
      rw [hphase] at h
      exact h
  unfold Progress
  cases hphase : s'.phase with
  | starting | reading | putting _ | saving => exact absurd (hphase ▸ trivial) hs'
  | _ => exact hleft.imp_left hstopped

theorem dispatched_of_not_putting {raises : Bool} (h : ∀ t, s.phase ≠ .putting t) :
    dispatched s (.runner raises : Action R J.concurrency) s' entries = entries := by
  unfold dispatched
  split
  · rename_i t _ hphase
    exact absurd hphase (h t)
  · rfl

/-- The put of an entry, with the phase that follows it. -/
theorem put_next {t : Ticket} {raises : Bool} (hphase : s.phase = .putting t)
    (h : runnerStep J s raises = some s') :
    s'.ctx.record = s.ctx.record ∧ s'.rest = s.rest ∧
      s'.phase = if s.ctx.record.counts.ingested % statusPersistEvery = 0 then .saving
        else afterPut J s' := by
  cases raises with
  | true => simp [runnerStep, hphase] at h
  | false =>
    simp only [runnerStep, hphase] at h
    obtain ⟨q, -, rfl⟩ := Option.map_eq_some_iff.mp h
    exact ⟨rfl, rfl, rfl⟩

theorem save_next {raises : Bool} (hphase : s.phase = .saving)
    (h : runnerStep J s raises = some s') :
    s'.ctx.record = s.ctx.record ∧ s'.rest = s.rest ∧ s'.phase = afterPut J s' := by
  cases raises with
  | true => simp [runnerStep, hphase] at h
  | false =>
    simp only [runnerStep, hphase] at h
    obtain rfl := Option.some.inj h
    exact ⟨rfl, rfl, rfl⟩

theorem progress_put {t : Ticket} {raises : Bool} (h : Progress J s entries)
    (hphase : s.phase = .putting t) (hs : runnerStep J s raises = some s') :
    Progress J s' (entries ++ [t.entry]) := by
  obtain ⟨hrecord, hrest, hnext⟩ := put_next hphase hs
  rw [Progress, hphase] at h
  obtain ⟨hentries, hingested, hroom⟩ := h
  have hentries' : J.input.entries = entries ++ [t.entry] ++ s'.rest := by
    rw [hrest, hentries, List.append_assoc]
    rfl
  have hingested' : s'.ctx.record.counts.ingested = (entries ++ [t.entry]).length := by
    rw [hrecord, hingested, List.length_append, List.length_singleton]
  split at hnext
  · rw [Progress, hnext]
    exact ⟨entries, t.entry, rfl, hentries', hingested', hroom⟩
  · exact progress_afterPut hentries' hingested' hroom hnext

theorem progress_save {raises : Bool} (h : Progress J s entries) (hphase : s.phase = .saving)
    (hs : runnerStep J s raises = some s') :
    Progress J s' entries := by
  obtain ⟨hrecord, hrest, hnext⟩ := save_next hphase hs
  rw [Progress, hphase] at h
  obtain ⟨before, e, rfl, hentries, hingested, hroom⟩ := h
  exact progress_afterPut (hentries.trans (by rw [hrest]))
    ((congrArg (fun r => r.counts.ingested) hrecord).trans hingested) hroom hnext

/-- One step of a job keeps the account of the loop. -/
theorem progress_step {a : Action R J.concurrency} (h : Progress J s entries)
    (hs : step J s a = some s') : Progress J s' (dispatched s a s' entries) := by
  have hstopped := (step_sendsWaiting (step_turn hs)).stopped
  have hsame : ∀ {raises phase}, s.phase = phase → (∀ t, phase ≠ .putting t) →
      dispatched s (.runner raises : Action R J.concurrency) s' entries = entries := by
    rintro raises phase rfl hput
    exact dispatched_of_not_putting hput
  have hleft : ∀ {raises phase}, s.phase = phase → ¬ phase.Ingesting → ¬ s'.phase.Ingesting →
      Progress J s' (dispatched s (.runner raises : Action R J.concurrency) s' entries) := by
    rintro raises phase rfl hbefore hafter
    rw [hsame rfl fun t ht => hbefore (ht ▸ trivial)]
    exact h.behind hbefore hafter hstopped
  cases step_turn hs with
  | tick _ => exact h.frame rfl rfl rfl hstopped
  | cancel => exact h.frame rfl rfl rfl hstopped
  | wrote _ => exact h.frame rfl rfl rfl hstopped
  | timedOut _ => exact h.frame rfl rfl rfl hstopped
  | worker _ hdoes =>
    refine h.frame rfl rfl ?_ hstopped
    rw [hdoes.record]
    exact settles_ingested _ _
  | begun hphase =>
    rw [hsame hphase fun _ h => RunPhase.noConfusion h]
    rw [Progress, hphase] at h
    exact h
  | ended hphase hrest =>
    rw [hsame hphase fun _ h => RunPhase.noConfusion h]
    rw [Progress, hphase, hrest, List.append_nil] at h
    obtain ⟨hentries, -, hroom⟩ := h
    refine Or.inr ?_
    rw [hentries, firstEntries_of_room hroom]
  | dropped hphase _ hstop =>
    rw [hsame hphase fun _ h => RunPhase.noConfusion h]
    exact Or.inl hstop
  | ingested hphase hrest =>
    rw [hsame hphase fun _ h => RunPhase.noConfusion h]
    rw [Progress, hphase, hrest] at h
    obtain ⟨hentries, hingested, hroom⟩ := h
    exact ⟨hentries, congrArg (· + 1) hingested, hroom⟩
  | @put t q next hphase _ _ =>
    have hput : dispatched s (.runner false : Action R J.concurrency)
        { s with ctx.queue := q, phase := next } entries = entries ++ [t.entry] := by
      simp only [dispatched, hphase]
    rw [hput]
    exact progress_put h hphase hs
  | saved hphase _ =>
    rw [hsame hphase fun _ h => RunPhase.noConfusion h]
    exact progress_save h hphase hs
  | closed hphase => exact hleft hphase id id
  | sentinel hphase _ => exact hleft hphase id id
  | gathering hphase => exact hleft hphase id id
  | gathered hphase _ => exact hleft hphase id id
  | reraised hphase => exact hleft hphase id id
  | costRaised hphase _ => exact hleft hphase id id
  | finalized hphase =>
    refine hleft hphase id fun hp => ?_
    change RunPhase.Ingesting (if _ then _ else _) at hp
    split at hp <;> exact hp
  | savedFinal hphase => exact hleft hphase id id
  | delivered hphase => exact hleft hphase id id

end Loop

end BatchEngine.Core
