import BatchEngine.Core.ResultFile
import BatchEngine.Core.SpendLedger
import BatchEngine.Lib.PyFloat
import BatchEngine.Lib.Runs

/-!
# A crash while the ledger is written

`record_spend` reads the total, truncates the file and writes the new total. A process that
dies in between leaves a part of the text, which no longer parses, and the loader takes a
file that does not parse for a ledger of nothing.
-/

set_option autoImplicit false

namespace BatchEngine.Core

open Py

/-- The bytes of the ledger file, if there is one. -/
abbrev LedgerBytes := Option (List UInt8)

/-- `json.loads(p.read_text(encoding="utf-8"))`. -/
def readLedger (host : Host) (file : LedgerBytes) : LedgerFile :=
  file.map fun bytes =>
    let (text, valid) := TextFile.decode bytes
    if valid then
      match loads host.nesting text with
      | .ok data => .ok data
      | .error e => .error (LoadError.exc e)
    else .error .valueError

/-- `{"total_spend_usd": total}`. -/
def ledgerMembers (host : Host) (total : PyFloat) : List (String × Nested) :=
  [(totalSpendUsd, .leaf (host.floatAtom total))]

/-- A call of `record_spend` that returns, or one in which the process dies: before it
truncates the file, or with so many bytes of the new text written. -/
inductive SpendStep where
  | record (deltaUsd : PyFloat)
  | crash (deltaUsd : PyFloat) (written : Option ℕ)
  deriving DecidableEq, Repr

namespace LedgerBytes

variable {host : Host} (sum : FloatSum host)

variable (host) in
/-- `load_total_spend`. -/
def load (file : LedgerBytes) : Except Exc PyFloat := loadTotalSpend (readLedger host file)

variable (host) in
def written (total : PyFloat) : List UInt8 :=
  TextFile.encode (Nested.node (ledgerMembers host total)).text

/-- `record_spend`: the total that it returns, and the bytes that it writes. -/
def recordSpend (file : LedgerBytes) (deltaUsd : PyFloat) : Except Exc (PyFloat × List UInt8) := do
  let total := sum.add (← load host file) deltaUsd.maxZero
  return (total, written host total)

def step (file : LedgerBytes) : SpendStep → Option LedgerBytes
  | .record d =>
    some (match recordSpend sum file d with
      | .ok (_, bytes) => some bytes
      | .error _ => file)
  | .crash _ none => some file
  | .crash d (some n) =>
    some (match recordSpend sum file d with
      | .ok (_, bytes) => some (bytes.take n)
      | .error _ => file)

/-- The later ledger loads at least the total of the earlier one, and every call of
`record_spend` on it returns at least that. -/
def Kept (file file' : LedgerBytes) : Prop :=
  ∀ total, load host file = .ok total →
    (∃ total', load host file' = .ok total' ∧ total.Le total') ∧
      ∀ d, ∃ returned bytes, recordSpend sum file' d = .ok (returned, bytes) ∧ total.Le returned

/-- No state of the run falls behind an earlier one. -/
def NeverDown (start : LedgerBytes) (steps : List SpendStep) : Prop :=
  ∀ before later rest file file', steps = before ++ (later ++ rest) →
    Runs.exec (step sum) start before = some file →
    Runs.exec (step sum) file later = some file' → Kept sum file file'

/-- The process dies with the file truncated and its new text not all written. -/
def CutsOff (file : LedgerBytes) : SpendStep → Prop
  | .crash d (some n) => ∃ total bytes, recordSpend sum file d = .ok (total, bytes) ∧
      n < bytes.length
  | _ => False

variable (host) in
/-- The file loads a float that is not negative. -/
def Counted (file : LedgerBytes) : Prop :=
  ∃ total, load host file = .ok total ∧ host.IsFloat total ∧ (PyFloat.fin 0).Le total

/-! ## What is written is loaded -/

theorem ascii_object (total : PyFloat) :
    TextFile.Ascii (Nested.node (ledgerMembers host total)).text :=
  fun c hc => Nat.lt_of_le_of_lt (plain_nested _ c hc).2 (by decide)

theorem members_printable (total : PyFloat) :
    Nested.printableOf (ledgerMembers host total) = true := by
  simp [ledgerMembers, Nested.printableOf, Nested.printable, Host.floatAtom_printable]

theorem members_depth (total : PyFloat) :
    Nested.depthOf (ledgerMembers host total) < host.nesting :=
  Nat.lt_of_lt_of_le Nat.zero_lt_two host.two_le_nesting

theorem loads_object {total : PyFloat} (h : host.IsFloat total) :
    loads host.nesting (Nested.node (ledgerMembers host total)).text =
      .ok (.obj [(totalSpendUsd, .float total)]) := by
  have hkeys : ((ledgerMembers host total).map Prod.fst).Nodup := List.nodup_singleton _
  have hjson : Nested.jsonOf (ledgerMembers host total) = [(totalSpendUsd, .float total)] := by
    simp only [ledgerMembers, Nested.jsonOf, Nested.toJson, Host.floatAtom_toJson h]
  rw [loads_nested (members_printable total) (members_depth total),
    toJson_node hkeys, hjson]

theorem load_written {total : PyFloat} (h : host.IsFloat total) :
    load host (some (written host total)) = .ok total := by
  have hread : readLedger host (some (written host total)) =
      some (.ok (.obj [(totalSpendUsd, .float total)])) := by
    simp only [readLedger, written, Option.map_some,
      TextFile.decode_encode_ascii (ascii_object total), loads_object h, if_true]
  rw [load, hread]
  rfl

/-- Part of the text is a ledger of nothing. -/
theorem load_torn (total : PyFloat) {n : ℕ} (hn : n < (written host total).length) :
    load host (some ((written host total).take n)) = .ok (.fin 0) := by
  have hlength :
      (written host total).length = (Nested.node (ledgerMembers host total)).text.length := by
    rw [written, TextFile.encode_ascii (ascii_object total), List.length_map]
  have htorn :
      loads host.nesting ((Nested.node (ledgerMembers host total)).text.take n) =
        .error .decode :=
    loads_nested_torn (members_printable total) (members_depth total) (hlength ▸ hn)
  have hread :
      readLedger host (some ((written host total).take n)) = some (.error .valueError) := by
    simp only [readLedger, written, Option.map_some, TextFile.encode_take (ascii_object total),
      TextFile.decode_encode_ascii ((ascii_object total).take n), htorn, if_true]
    rfl
  rw [load, hread]
  rfl

/-! ## One step -/

section Steps

variable {sum} {file file' : LedgerBytes}

theorem recordSpend_of_load {total : PyFloat} (h : load host file = .ok total) (d : PyFloat) :
    recordSpend sum file d =
      .ok (sum.add total d.maxZero, written host (sum.add total d.maxZero)) := by
  rw [recordSpend, h]
  rfl

theorem counted_written {total : PyFloat} (hfloat : host.IsFloat total)
    (hnonneg : (PyFloat.fin 0).Le total) : Counted host (some (written host total)) :=
  ⟨total, load_written hfloat, hfloat, hnonneg⟩

theorem counted_of_zero (sum : FloatSum host) (h : load host file = .ok (.fin 0)) :
    Counted host file :=
  ⟨.fin 0, h, sum.zero, le_refl (0 : ℚ)⟩

/-- A ledger that loads at least the total of another keeps it. -/
theorem kept_of_le {total total' : PyFloat} (h : load host file = .ok total)
    (h' : load host file' = .ok total') (hcounted : Counted host file') (hle : total.Le total') :
    Kept sum file file' := by
  intro t ht
  obtain rfl := Except.ok.inj (h.symm.trans ht)
  refine ⟨⟨total', h', hle⟩, fun d => ⟨_, _, recordSpend_of_load h' d, hle.trans ?_⟩⟩
  obtain ⟨t', ht', hfloat, hnonneg⟩ := hcounted
  obtain rfl := Except.ok.inj (h'.symm.trans ht')
  exact sum.le_add _ _ hfloat hnonneg d.maxZero_nonneg

theorem Kept.refl (h : Counted host file) : Kept sum file file := by
  obtain ⟨total, hload, hfloat, hnonneg⟩ := h
  exact kept_of_le hload hload ⟨total, hload, hfloat, hnonneg⟩ (.refl hnonneg.ne_nan)

theorem Kept.trans {file'' : LedgerBytes} (h : Kept sum file file') (h' : Kept sum file' file'') :
    Kept sum file file'' := by
  intro total hload
  obtain ⟨⟨total', hload', hle⟩, -⟩ := h total hload
  obtain ⟨⟨total'', hload'', hle'⟩, hrecord⟩ := h' total' hload'
  refine ⟨⟨total'', hload'', hle.trans hle'⟩, fun d => ?_⟩
  obtain ⟨returned, bytes, hreturned, hle''⟩ := hrecord d
  exact ⟨returned, bytes, hreturned, hle.trans hle''⟩

/-- What a step can leave: the old file, the whole new text, or a part of it. -/
inductive Leaves (sum : FloatSum host) (file : LedgerBytes) (total : PyFloat) :
    SpendStep → LedgerBytes → Prop
  | untouched {d : PyFloat} : Leaves sum file total (.crash d none) file
  | recorded {d : PyFloat} :
      Leaves sum file total (.record d) (some (written host (sum.add total d.maxZero)))
  | completed {d : PyFloat} {n : ℕ} (hn : ¬ n < (written host (sum.add total d.maxZero)).length) :
      Leaves sum file total (.crash d (some n)) (some (written host (sum.add total d.maxZero)))
  | torn {d : PyFloat} {n : ℕ} (hn : n < (written host (sum.add total d.maxZero)).length) :
      Leaves sum file total (.crash d (some n))
        (some ((written host (sum.add total d.maxZero)).take n))

theorem step_leaves {a : SpendStep} {total : PyFloat} (hload : load host file = .ok total)
    (h : step sum file a = some file') : Leaves sum file total a file' := by
  cases a with
  | record d =>
    rw [step, recordSpend_of_load hload] at h
    obtain rfl := Option.some.inj h
    exact .recorded
  | crash d n =>
    cases n with
    | none =>
      obtain rfl := Option.some.inj h
      exact .untouched
    | some n =>
      rw [step, recordSpend_of_load hload] at h
      obtain rfl := Option.some.inj h
      show Leaves sum file total _ (some ((written host (sum.add total d.maxZero)).take n))
      by_cases hn : n < (written host (sum.add total d.maxZero)).length
      · exact .torn hn
      · rw [List.take_of_length_le (Nat.not_lt.mp hn)]
        exact .completed hn

theorem step_counted {a : SpendStep} (hs : Counted host file) (h : step sum file a = some file') :
    Counted host file' := by
  obtain ⟨total, hload, hfloat, hnonneg⟩ := hs
  have hsum : ∀ d : PyFloat, Counted host (some (written host (sum.add total d.maxZero))) :=
    fun d => counted_written (sum.isFloat _ _)
      (hnonneg.trans (sum.le_add _ _ hfloat hnonneg d.maxZero_nonneg))
  cases step_leaves hload h with
  | untouched => exact ⟨total, hload, hfloat, hnonneg⟩
  | recorded => exact hsum _
  | completed _ => exact hsum _
  | torn hn => exact counted_of_zero sum (load_torn _ hn)

theorem cutsOff_iff {total d : PyFloat} {n : ℕ} (hload : load host file = .ok total) :
    CutsOff sum file (.crash d (some n)) ↔
      n < (written host (sum.add total d.maxZero)).length := by
  rw [CutsOff, recordSpend_of_load hload]
  constructor
  · rintro ⟨t, bytes, h, hn⟩
    obtain ⟨-, rfl⟩ := Prod.mk.inj (Except.ok.inj h)
    exact hn
  · exact fun hn => ⟨_, _, rfl, hn⟩

/-- A step keeps the total unless it leaves a part of the text of a ledger above zero. -/
theorem step_kept_iff {a : SpendStep} (hs : Counted host file) :
    (∀ file', step sum file a = some file' → Kept sum file file') ↔
      (CutsOff sum file a → load host file = .ok (.fin 0)) := by
  obtain ⟨total, hload, hfloat, hnonneg⟩ := hs
  have hs : Counted host file := ⟨total, hload, hfloat, hnonneg⟩
  have hwritten : ∀ d : PyFloat, Counted host (some (written host (sum.add total d.maxZero))) →
      Kept sum file (some (written host (sum.add total d.maxZero))) :=
    fun d hcounted => kept_of_le hload (load_written (sum.isFloat _ _)) hcounted
      (sum.le_add _ _ hfloat hnonneg d.maxZero_nonneg)
  constructor
  · intro hkept hcut
    match a with
    | .crash d (some n) =>
      have hn := (cutsOff_iff hload).mp hcut
      have hstep : step sum file (.crash d (some n)) =
          some (some ((written host (sum.add total d.maxZero)).take n)) := by
        rw [step, recordSpend_of_load hload]
      obtain ⟨⟨total', hload', hle⟩, -⟩ := hkept _ hstep total hload
      obtain rfl := Except.ok.inj ((load_torn _ hn).symm.trans hload')
      rw [hload, hle.antisymm hnonneg]
    | .crash d none => exact absurd hcut id
    | .record d => exact absurd hcut id
  · intro hzero file' h
    have hcounted := step_counted hs h
    cases step_leaves hload h with
    | untouched => exact .refl hs
    | recorded => exact hwritten _ hcounted
    | completed _ => exact hwritten _ hcounted
    | torn hn =>
      have hnone := hzero ((cutsOff_iff hload).mpr hn)
      exact kept_of_le hnone (load_torn _ hn) hcounted (le_refl (0 : ℚ))

end Steps

/-! ## The law -/

/-- A ledger never goes down exactly if no call is cut off in the middle of its write while
the total is above zero. -/
theorem never_down_iff {start : LedgerBytes} (hstart : Counted host start)
    (steps : List SpendStep) : NeverDown sum start steps ↔
      Runs.Along (step sum) (fun file a => CutsOff sum file a → load host file = .ok (.fin 0))
        start steps := by
  have hinv : ∀ file a file', Counted host file → step sum file a = some file' →
      Counted host file' := fun _ _ _ => step_counted
  have hpairs : NeverDown sum start steps ↔ Runs.Along (step sum)
      (fun file a => ∀ file', step sum file a = some file' → Kept sum file file') start steps :=
    Runs.pairs_iff_along hinv (fun _ => Kept.refl) (fun _ _ _ => Kept.trans) hstart
  refine hpairs.trans ?_
  exact Runs.along_iff_of_invariant hinv (fun _ _ => step_kept_iff) hstart

theorem counted_none (sum : FloatSum host) : Counted host none := counted_of_zero sum rfl

/-- Sums of tenths; what is none overflows. -/
def tenthsSum : FloatSum tenthsHost where
  add
    | .fin q, .fin r => if tenthsHost.IsFloat (.fin (q + r)) then .fin (q + r) else .posInf
    | .nan, _ | _, .nan | .posInf, .negInf | .negInf, .posInf => .nan
    | .posInf, _ | _, .posInf => .posInf
    | .negInf, _ | _, .negInf => .negInf
  zero := by decide +kernel
  isFloat x y := by
    cases x <;> cases y <;> try exact trivial
    show tenthsHost.IsFloat (if _ then _ else _)
    split
    · assumption
    · exact trivial
  le_add x y _ hx hy := by
    cases x <;> cases y <;> first
      | exact hx.elim
      | exact hy.elim
      | exact trivial
      | skip
    rename_i q r _
    show (PyFloat.fin q).Le (if _ then _ else _)
    split
    · exact le_add_of_nonneg_right hy
    · exact trivial

/-- A dollar is recorded, and the next call dies right after it has truncated the file. -/
def dollarLost : List SpendStep := [.record (.fin 1), .crash (.fin (1 / 2)) (some 0)]

theorem dollar_lost : ¬ NeverDown tenthsSum none dollarLost := by
  intro hnever
  have hone : load tenthsHost (some (written tenthsHost (.fin 1))) = .ok (.fin 1) :=
    load_written (by decide +kernel)
  have hrecorded : Runs.exec (step tenthsSum) none [.record (.fin 1)] =
      some (some (written tenthsHost (.fin 1))) := by decide +kernel
  have hcrashed : Runs.exec (step tenthsSum) (some (written tenthsHost (.fin 1)))
      [.crash (.fin (1 / 2)) (some 0)] = some (some []) := by decide +kernel
  obtain ⟨⟨total', hload, hle⟩, -⟩ := hnever [.record (.fin 1)] [.crash (.fin (1 / 2)) (some 0)] []
    _ _ rfl hrecorded hcrashed (.fin 1) hone
  obtain rfl : PyFloat.fin 0 = total' := Except.ok.inj hload
  exact absurd (show (1 : ℚ) ≤ 0 from hle) (by decide)

/-- A call of an empty ledger is cut off, a dollar is recorded, and the next call dies before
it has truncated the file. -/
def harmlessCrashes : List SpendStep :=
  [.crash (.fin 1) (some 3), .record (.fin 1), .crash (.fin (1 / 2)) none]

theorem never_down_iff_harmless : NeverDown tenthsSum none harmlessCrashes := by
  refine (never_down_iff tenthsSum (counted_none tenthsSum) harmlessCrashes).mpr ?_
  refine ⟨fun _ => rfl, fun _ _ => ⟨?_, fun _ _ => ⟨?_, fun _ _ => trivial⟩⟩⟩
  · exact fun hcut => absurd hcut id
  · exact fun hcut => absurd hcut id

end LedgerBytes

end BatchEngine.Core
