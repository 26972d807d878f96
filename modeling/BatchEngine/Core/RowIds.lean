import BatchEngine.Core.Ingest

/-!
# The ids of ingested rows

A row has the id that it supplies, as text, or else one made from its number. A null is
supplied like any other value, so its id is the text `None`.
-/

set_option autoImplicit false

namespace BatchEngine.Core

open Py

/-- The rows of a file's lines with their numbers, up to an exception. A line that is no JSON
text has no value. -/
def parsedLines (host : Host) : ℕ → List (List Char) → List (Option Json × ℕ)
  | _, [] => []
  | offset, line :: rest =>
    if strip line = [] then parsedLines host (offset + 1) rest
    else match loads host.nesting (strip line) with
      | .ok raw => (some raw, offset) :: parsedLines host (offset + 1) rest
      | .error .decode => (none, offset) :: parsedLines host (offset + 1) rest
      | .error _ => []

/-- The rows that `iter_items_sync` makes its entries from. -/
def parsedRows (host : Host) (arrayItems : List UInt8 → List Json × Option Exc)
    (bytes : List UInt8) : List (Option Json × ℕ) :=
  if sniffIsJsonArray bytes then
    (arrayItems bytes).1.zipIdx.map fun (raw, offset) => (some raw, offset)
  else parsedLines host 0 (host.readLines bytes).1

/-- What a row has under `id`. -/
def suppliedId : Option Json × ℕ → Option Json
  | (some (.obj kvs), _) => lookup "id" kvs
  | _ => none

def suppliedIds (rows : List (Option Json × ℕ)) : List Json := rows.filterMap suppliedId

def idStrings (ids : List Json) : List String :=
  ids.filterMap fun
    | .str s => some s
    | _ => none

def isNull : Json → Bool
  | .null => true
  | _ => false

/-- A null, or a string that is unlike the ids made from numbers. -/
def properId : Json → Bool
  | .null => true
  | .str s => ¬ "offset-".toList <+: s.toList ∧ ¬ "line-".toList <+: s.toList
  | _ => false

/-- The ids that the rows supply are distinct strings, nulls apart. -/
structure ProperIds (rows : List (Option Json × ℕ)) : Prop where
  proper : ∀ id ∈ suppliedIds rows, properId id = true
  distinct : (idStrings (suppliedIds rows)).Nodup

/-- At most one row has a null id, and then no row has the id `None`. -/
structure NullApart (rows : List (Option Json × ℕ)) : Prop where
  once : (suppliedIds rows).countP isNull ≤ 1
  unlike : 0 < (suppliedIds rows).countP isNull → "None" ∉ idStrings (suppliedIds rows)

/-- The ids are distinct, and replay of a result file with a row for each sees as many. -/
structure Traceable (host : Host) (entries : List Entry) : Prop where
  distinct : (entries.map Entry.itemId).Nodup
  seen : ∀ written : List (Written host),
    (written.map fun w => w.row.itemId).Perm (entries.map Entry.itemId) →
      ∃ state, replay host (fileBytes written) = .ok state ∧
        state.seenItemIds.card = entries.length

/-! ## The ids of the entries -/

section Ids

variable {host : Host} {arrayItems : List UInt8 → List Json × Option Exc}

def parsedId (host : Host) : Option Json × ℕ → String
  | (some raw, offset) => rowId host raw offset
  | (none, offset) => "line-" ++ toString offset

theorem rowToItem_itemId (host : Host) (raw : Json) (offset : ℕ) :
    (rowToItem host raw offset).itemId = rowId host raw offset := by
  unfold rowToItem
  cases promptOf raw <;> rfl

theorem iterLines_ids (lines : List (List Char)) : ∀ offset,
    (iterLines host offset lines).1.map Entry.itemId =
      (parsedLines host offset lines).map (parsedId host) := by
  induction lines with
  | nil => exact fun offset => rfl
  | cons line lines ih =>
    intro offset
    rw [iterLines, parsedLines]
    unfold lineItem
    by_cases hblank : strip line = []
    · simp only [if_pos hblank]
      exact ih (offset + 1)
    simp only [if_neg hblank]
    cases loads host.nesting (strip line) with
    | ok raw => exact congrArg₂ List.cons (rowToItem_itemId host raw offset) (ih (offset + 1))
    | error e =>
      cases e with
      | decode => exact congrArg (_ :: ·) (ih (offset + 1))
      | intDigits => rfl
      | nesting => rfl

theorem iterItemsSync_ids (bytes : List UInt8) :
    (iterItemsSync host arrayItems bytes).1.map Entry.itemId =
      (parsedRows host arrayItems bytes).map (parsedId host) := by
  unfold iterItemsSync parsedRows
  split
  · show (List.map _ _).map _ = _
    rw [List.map_map, List.map_map]
    refine List.map_congr_left fun x _ => ?_
    exact rowToItem_itemId host x.1 x.2
  · exact iterLines_ids _ 0

theorem parsedLines_ordered (lines : List (List Char)) : ∀ offset,
    (∀ r ∈ parsedLines host offset lines, offset ≤ r.2) ∧
      (parsedLines host offset lines).Pairwise fun r r' => r.2 < r'.2 := by
  induction lines with
  | nil => exact fun offset => ⟨fun r hr => absurd hr List.not_mem_nil, .nil⟩
  | cons line lines ih =>
    intro offset
    obtain ⟨hfrom, hordered⟩ := ih (offset + 1)
    have hcons : ∀ value, (∀ r ∈ (value, offset) :: parsedLines host (offset + 1) lines,
        offset ≤ r.2) ∧ ((value, offset) :: parsedLines host (offset + 1) lines).Pairwise
          fun r r' => r.2 < r'.2 := by
      intro value
      refine ⟨List.forall_mem_cons.mpr ⟨le_rfl, fun r hr => ?_⟩,
        List.pairwise_cons.mpr ⟨hfrom, hordered⟩⟩
      have hlater := hfrom r hr
      omega
    rw [parsedLines]
    by_cases hblank : strip line = []
    · rw [if_pos hblank]
      refine ⟨fun r hr => ?_, hordered⟩
      have hlater := hfrom r hr
      omega
    rw [if_neg hblank]
    cases loads host.nesting (strip line) with
    | ok raw => exact hcons (some raw)
    | error e =>
      cases e with
      | decode => exact hcons none
      | intDigits => exact ⟨fun r hr => absurd hr List.not_mem_nil, .nil⟩
      | nesting => exact ⟨fun r hr => absurd hr List.not_mem_nil, .nil⟩

/-- No two rows have the same number. -/
theorem parsedRows_ordered (bytes : List UInt8) :
    (parsedRows host arrayItems bytes).Pairwise fun r r' => r.2 < r'.2 := by
  unfold parsedRows
  split
  · rw [List.pairwise_map]
    have hnumbers := List.pairwise_lt_range' (s := 0) (n := (arrayItems bytes).1.length)
    rw [← List.zipIdx_map_snd, List.pairwise_map] at hnumbers
    exact hnumbers
  · exact (parsedLines_ordered _ 0).2

end Ids

/-! ## Ids made from numbers -/

theorem toString_injective {m n : ℕ} (h : toString m = toString n) : m = n := by
  rw [Nat.toString_eq_ofList_toDigits, Nat.toString_eq_ofList_toDigits, String.ofList_inj] at h
  have hdigits := congrArg (Nat.ofDigitChars 10 · 0) h
  rwa [Nat.ofDigitChars_ten_toDigits, Nat.ofDigitChars_ten_toDigits] at hdigits

theorem numbered_ne {p : String} {m n : ℕ} (h : m ≠ n) : p ++ toString m ≠ p ++ toString n := by
  intro heq
  have hlists := congrArg String.toList heq
  rw [String.toList_append, String.toList_append, List.append_cancel_left_eq] at hlists
  exact h (toString_injective (String.toList_inj.mp hlists))

theorem offset_ne_line (s t : String) : "offset-" ++ s ≠ "line-" ++ t := by
  intro heq
  have hlists := congrArg String.toList heq
  rw [String.toList_append, String.toList_append] at hlists
  cases hlists

/-! ## When two rows have one id -/

section Law

variable {host : Host} {arrayItems : List UInt8 → List Json × Option Exc}

theorem parsedId_supplied (host : Host) {r : Option Json × ℕ} {id : Json}
    (h : suppliedId r = some id) : parsedId host r = host.str id := by
  obtain ⟨raw, offset⟩ := r
  cases raw with
  | none => cases h
  | some raw =>
    cases raw with
    | obj kvs =>
      replace h : lookup "id" kvs = some id := h
      simp only [parsedId, rowId, h]
    | _ => cases h

theorem parsedId_numbered (host : Host) {r : Option Json × ℕ} (h : suppliedId r = none) :
    parsedId host r = "offset-" ++ toString r.2 ∨ parsedId host r = "line-" ++ toString r.2 := by
  obtain ⟨raw, offset⟩ := r
  cases raw with
  | none => exact Or.inr rfl
  | some raw =>
    cases raw with
    | obj kvs =>
      replace h : lookup "id" kvs = none := h
      exact Or.inl (by simp only [parsedId, rowId, h])
    | _ => exact Or.inl rfl

/-- A supplied id is unlike an id made from a number. -/
theorem str_ne_numbered (hnone : host.str .null = "None") {id : Json} (h : properId id = true)
    (n : ℕ) : host.str id ≠ "offset-" ++ toString n ∧ host.str id ≠ "line-" ++ toString n := by
  cases id with
  | null =>
    rw [hnone]
    constructor
    · intro heq
      have hlists := congrArg String.toList heq
      rw [String.toList_append] at hlists
      cases hlists
    · intro heq
      have hlists := congrArg String.toList heq
      rw [String.toList_append] at hlists
      cases hlists
  | str s =>
    obtain ⟨hoffset, hline⟩ := of_decide_eq_true h
    constructor
    · rintro heq
      rw [show s = _ from heq, String.toList_append] at hoffset
      exact hoffset (List.prefix_append _ _)
    · rintro heq
      rw [show s = _ from heq, String.toList_append] at hline
      exact hline (List.prefix_append _ _)
  | _ => cases h

theorem numbered_differ {r r' : Option Json × ℕ} (hr : suppliedId r = none)
    (hr' : suppliedId r' = none) (h : r.2 ≠ r'.2) : parsedId host r ≠ parsedId host r' := by
  rcases parsedId_numbered host hr with hid | hid <;>
    rcases parsedId_numbered host hr' with hid' | hid' <;> rw [hid, hid']
  · exact numbered_ne h
  · exact offset_ne_line _ _
  · exact (offset_ne_line _ _).symm
  · exact numbered_ne h

/-- Two rows have one id only if both supply it. -/
theorem differ_iff (hnone : host.str .null = "None") {r r' : Option Json × ℕ}
    (hr : ∀ id, suppliedId r = some id → properId id = true)
    (hr' : ∀ id, suppliedId r' = some id → properId id = true) (h : r.2 ≠ r'.2) :
    parsedId host r ≠ parsedId host r' ↔
      ∀ id, suppliedId r = some id → ∀ id', suppliedId r' = some id' →
        host.str id ≠ host.str id' := by
  cases hid : suppliedId r with
  | none =>
    refine iff_of_true ?_ fun id hid => by cases hid
    cases hid' : suppliedId r' with
    | none => exact numbered_differ hid hid' h
    | some id' =>
      rw [parsedId_supplied host hid']
      obtain ⟨hoffset, hline⟩ := str_ne_numbered hnone (hr' id' hid') r.2
      rcases parsedId_numbered host hid with hnumber | hnumber
      · rw [hnumber]
        exact hoffset.symm
      · rw [hnumber]
        exact hline.symm
  | some id =>
    rw [parsedId_supplied host hid]
    cases hid' : suppliedId r' with
    | none =>
      refine iff_of_true ?_ fun _ _ id' hid' => by cases hid'
      obtain ⟨hoffset, hline⟩ := str_ne_numbered hnone (hr id hid) r'.2
      rcases parsedId_numbered host hid' with hnumber | hnumber
      · rw [hnumber]
        exact hoffset
      · rw [hnumber]
        exact hline
    | some id' =>
      rw [parsedId_supplied host hid']
      simp

/-- The entries have distinct ids exactly if the supplied ids are distinct as text. -/
theorem ids_nodup_iff (hnone : host.str .null = "None") {rows : List (Option Json × ℕ)}
    (hproper : ∀ id ∈ suppliedIds rows, properId id = true)
    (hordered : rows.Pairwise fun r r' => r.2 < r'.2) :
    (rows.map (parsedId host)).Nodup ↔ ((suppliedIds rows).map host.str).Nodup := by
  have hrow : ∀ r ∈ rows, ∀ id, suppliedId r = some id → properId id = true :=
    fun r hr id hid => hproper id (List.mem_filterMap.mpr ⟨r, hr, hid⟩)
  unfold List.Nodup suppliedIds
  rw [List.pairwise_map, List.pairwise_map, List.pairwise_filterMap]
  constructor
  · intro h
    refine (hordered.and h).imp_of_mem fun hr hr' hboth => ?_
    exact (differ_iff hnone (hrow _ hr) (hrow _ hr') hboth.1.ne).mp hboth.2
  · intro h
    refine (hordered.and h).imp_of_mem fun hr hr' hboth => ?_
    exact (differ_iff hnone (hrow _ hr) (hrow _ hr') hboth.1.ne).mpr hboth.2

/-- The texts of the ids are the strings among them, and `None` for a null. -/
theorem mem_texts_iff (hnone : host.str .null = "None") {ids : List Json}
    (hproper : ∀ id ∈ ids, properId id = true) (s : String) :
    s ∈ ids.map host.str ↔ s ∈ idStrings ids ∨ (0 < ids.countP isNull ∧ s = "None") := by
  induction ids with
  | nil => simp [idStrings]
  | cons id ids ih =>
    obtain ⟨hid, hrest⟩ := List.forall_mem_cons.mp hproper
    rw [List.map_cons, List.mem_cons, ih hrest]
    cases id with
    | null =>
      rw [hnone, List.countP_cons_of_pos rfl]
      have hstrings : idStrings (.null :: ids) = idStrings ids := rfl
      rw [hstrings]
      have hpos := Nat.succ_pos (ids.countP isNull)
      constructor
      · rintro (rfl | hs | ⟨-, rfl⟩)
        · exact Or.inr ⟨hpos, rfl⟩
        · exact Or.inl hs
        · exact Or.inr ⟨hpos, rfl⟩
      · rintro (hs | ⟨-, rfl⟩)
        · exact Or.inr (Or.inl hs)
        · exact Or.inl rfl
    | str t =>
      rw [List.countP_cons_of_neg Bool.false_ne_true]
      have hstrings : idStrings (.str t :: ids) = t :: idStrings ids := rfl
      rw [hstrings, List.mem_cons, or_assoc]
      rfl
    | _ => cases hid

theorem texts_nodup_iff (hnone : host.str .null = "None") {ids : List Json}
    (hproper : ∀ id ∈ ids, properId id = true) (hdistinct : (idStrings ids).Nodup) :
    (ids.map host.str).Nodup ↔
      ids.countP isNull ≤ 1 ∧ (0 < ids.countP isNull → "None" ∉ idStrings ids) := by
  induction ids with
  | nil => simp [idStrings]
  | cons id ids ih =>
    obtain ⟨hid, hrest⟩ := List.forall_mem_cons.mp hproper
    rw [List.map_cons, List.nodup_cons, mem_texts_iff hnone hrest]
    cases id with
    | null =>
      have hstrings : idStrings (.null :: ids) = idStrings ids := rfl
      rw [hstrings] at hdistinct ⊢
      rw [ih hrest hdistinct, hnone, List.countP_cons_of_pos rfl]
      constructor
      · rintro ⟨hnew, hle, -⟩
        refine ⟨?_, fun _ hmem => hnew (Or.inl hmem)⟩
        have hzero : ¬ 0 < ids.countP isNull := fun hpos => hnew (Or.inr ⟨hpos, rfl⟩)
        omega
      · rintro ⟨hle, hunlike⟩
        have hzero : ids.countP isNull = 0 := by omega
        refine ⟨?_, by omega, fun hpos => absurd hpos (by omega)⟩
        rintro (hmem | ⟨hpos, -⟩)
        · exact hunlike (Nat.succ_pos _) hmem
        · omega
    | str t =>
      have hstrings : idStrings (.str t :: ids) = t :: idStrings ids := rfl
      rw [hstrings] at hdistinct ⊢
      obtain ⟨hnew, hdistinct⟩ := List.nodup_cons.mp hdistinct
      rw [ih hrest hdistinct, List.countP_cons_of_neg Bool.false_ne_true]
      show ¬ (t ∈ _ ∨ _ ∧ t = _) ∧ _ ↔ _
      rw [List.mem_cons]
      constructor
      · rintro ⟨hunlike, hle, hapart⟩
        refine ⟨hle, fun hpos => ?_⟩
        rintro (rfl | hmem)
        · exact hunlike (Or.inr ⟨hpos, rfl⟩)
        · exact hapart hpos hmem
      · rintro ⟨hle, hapart⟩
        refine ⟨?_, hle, fun hpos hmem => hapart hpos (Or.inr hmem)⟩
        rintro (hmem | ⟨hpos, rfl⟩)
        · exact hnew hmem
        · exact hapart hpos (Or.inl rfl)
    | _ => cases hid

theorem replay_sees {entries : List Entry} (hdistinct : (entries.map Entry.itemId).Nodup)
    {written : List (Written host)}
    (hperm : (written.map fun w => w.row.itemId).Perm (entries.map Entry.itemId)) :
    ∃ state, replay host (fileBytes written) = .ok state ∧
      state.seenItemIds.card = entries.length := by
  have hreplay := replay_after_lines written []
  rw [add_nil, show fileBytes ([] : List (Written host)) = [] from rfl, List.append_nil] at hreplay
  refine ⟨_, hreplay, ?_⟩
  show (∅ ∪ (written.map fun w => w.row.itemId).toFinset).card = _
  rw [Finset.empty_union, List.toFinset_card_of_nodup (hperm.nodup_iff.mpr hdistinct),
    hperm.length_eq, List.length_map]

/-- The entries of a file can be told apart by their ids exactly if nulls are. -/
theorem traceable_iff (hnone : host.str .null = "None") {bytes : List UInt8}
    (hids : ProperIds (parsedRows host arrayItems bytes)) :
    Traceable host (iterItemsSync host arrayItems bytes).1 ↔
      NullApart (parsedRows host arrayItems bytes) := by
  have hnodup : ((iterItemsSync host arrayItems bytes).1.map Entry.itemId).Nodup ↔
      NullApart (parsedRows host arrayItems bytes) := by
    rw [iterItemsSync_ids, ids_nodup_iff hnone hids.proper (parsedRows_ordered bytes),
      texts_nodup_iff hnone hids.proper hids.distinct]
    exact ⟨fun h => ⟨h.1, h.2⟩, fun h => ⟨h.once, h.unlike⟩⟩
  rw [← hnodup]
  exact ⟨fun h => h.distinct, fun h => ⟨h, fun _ hperm => replay_sees h hperm⟩⟩

/-- Two prompts without an id of their own. -/
def nullIds : List UInt8 :=
  TextFile.encode ("\x7b\"id\": null, \"prompt\": \"hi\"\x7d\n" ++
    "\x7b\"id\": null, \"prompt\": \"ho\"\x7d\n").toList

/-- A prompt with a null id, one with an id, one without, and a line that is cut off. -/
def mixedIds : List UInt8 :=
  TextFile.encode ("\x7b\"id\": null, \"prompt\": \"hi\"\x7d\n" ++ promptLine ++
    "\x7b\"prompt\": \"ho\"\x7d\n\x7b\"id\": \"b").toList

/-- Both are called `None`. -/
theorem null_ids_collide : ∃ host arrayItems bytes, host.str .null = "None" ∧
    ProperIds (parsedRows host arrayItems bytes) ∧
      ¬ Traceable host (iterItemsSync host arrayItems bytes).1 := by
  refine ⟨tenthsHost, noArray, nullIds, rfl, ⟨by decide +kernel, by decide +kernel⟩, fun h => ?_⟩
  have hsame : (iterItemsSync tenthsHost noArray nullIds).1.map Entry.itemId =
      ["None", "None"] := by decide +kernel
  have hdistinct := h.distinct
  rw [hsame] at hdistinct
  exact absurd hdistinct (by decide)

theorem traceable_iff_mixedIds :
    Traceable tenthsHost (iterItemsSync tenthsHost noArray mixedIds).1 :=
  (traceable_iff rfl ⟨by decide +kernel, by decide +kernel⟩).mpr
    ⟨by decide +kernel, by decide +kernel⟩

end Law

end BatchEngine.Core
