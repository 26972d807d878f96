import Mathlib.Data.List.Flatten
import BatchEngine.Lib.Dict
import BatchEngine.Lib.Lists

/-!
# Checkpoints in object storage

The result file is uploaded in parts while it grows. A chunk below the smallest part size is
put off, and the end of the upload adds the rest of the file from where parts of exactly
that size would end. The storage service keeps each part under its number and joins the
parts that the end of the upload lists.
-/

set_option autoImplicit false

namespace BatchEngine.Extensions

abbrev Bytes := List UInt8

/-- The smallest part of a multipart upload, 5 MiB. -/
def partSize : ℕ := 5 * 1024 * 1024

/-- The service: the parts of the upload by their number, and the object once joined. -/
structure Bucket where
  stored : List (ℕ × Bytes) := []
  object : Option Bytes := none

def Bucket.uploadPart (b : Bucket) (partNumber : ℕ) (body : Bytes) : Bucket :=
  { b with stored := Dict.set b.stored partNumber body }

/-- The object is the bodies of the listed parts, one after the other. -/
def Bucket.completeMultipartUpload (b : Bucket) (parts : List ℕ) : Bucket :=
  { b with object := some (parts.flatMap fun n => (Dict.get? b.stored n).getD []) }

/-- `parts` are the numbers of the uploaded parts, `started` whether there is an upload id. -/
structure SpacesCheckpointer where
  bucket : Bucket := {}
  started : Bool := false
  parts : List ℕ := []
  partNumber : ℕ := 1

namespace SpacesCheckpointer

/-- A part goes to the service under the next number. -/
def uploadPart (s : SpacesCheckpointer) (body : Bytes) : SpacesCheckpointer :=
  { s with
    bucket := s.bucket.uploadPart s.partNumber body
    parts := s.parts ++ [s.partNumber] }

def uploadChunk (s : SpacesCheckpointer) (data : Bytes) : SpacesCheckpointer :=
  let s := { s with started := true }
  if data.length < partSize then s
  else { s.uploadPart data with partNumber := s.partNumber + 1 }

def complete (s : SpacesCheckpointer) (result : Bytes) : SpacesCheckpointer :=
  if s.started then
    let remaining := result.drop (s.parts.length * partSize)
    let s := if remaining = [] then s else s.uploadPart remaining
    { s with bucket := s.bucket.completeMultipartUpload s.parts }
  else s

end SpacesCheckpointer

/-- The object after the chunks were passed in order and the upload was completed with the
file that they make up. -/
def checkpointed (chunks : List Bytes) : Option Bytes :=
  ((chunks.foldl SpacesCheckpointer.uploadChunk {}).complete chunks.flatten).bucket.object

/-- The chunks that are uploaded as parts. -/
def uploaded (chunks : List Bytes) : List Bytes :=
  chunks.filter fun data => partSize ≤ data.length

/-! ## The parts of an upload -/

/-- The parts so far have these bodies, under the numbers from 1 on. -/
structure Listed (s : SpacesCheckpointer) (bodies : List Bytes) : Prop where
  parts : s.parts = List.range' 1 bodies.length
  stored : s.bucket.stored = s.parts.zip bodies

/-- Before the upload ends the next number is free. -/
structure Numbered (s : SpacesCheckpointer) (bodies : List Bytes) : Prop
    extends Listed s bodies where
  next : s.partNumber = bodies.length + 1

namespace Listed

variable {s : SpacesCheckpointer} {bodies : List Bytes}

theorem parts_length (h : Listed s bodies) : s.parts.length = bodies.length := by
  rw [h.parts, List.length_range']

theorem joined (h : Listed s bodies) :
    (s.bucket.completeMultipartUpload s.parts).object = some bodies.flatten := by
  have hnodup : s.parts.Nodup := by
    rw [h.parts]
    exact List.nodup_range'
  have hread := Dict.map_get?_zip hnodup h.parts_length
  rw [← h.stored] at hread
  show some (s.parts.flatMap fun n => (Dict.get? s.bucket.stored n).getD []) = _
  have hbodies : s.parts.map (fun n => (Dict.get? s.bucket.stored n).getD []) = bodies := by
    have hmap := congrArg (List.map fun body : Option Bytes => body.getD []) hread
    rw [List.map_map, List.map_map] at hmap
    exact hmap.trans (List.map_id bodies)
  rw [List.flatMap_def, hbodies]

end Listed

namespace Numbered

variable {s : SpacesCheckpointer} {bodies : List Bytes}

theorem uploadPart (h : Numbered s bodies) (body : Bytes) :
    Listed (s.uploadPart body) (bodies ++ [body]) := by
  have hnew : s.partNumber ∉ s.bucket.stored.map Prod.fst := by
    rw [h.stored, List.map_fst_zip h.parts_length.le, h.parts, h.next, List.mem_range'_1]
    omega
  constructor
  · show s.parts ++ [s.partNumber] = _
    rw [List.length_append, List.length_singleton, List.range'_1_concat, h.parts, h.next,
      Nat.add_comm 1]
  · show Dict.set s.bucket.stored s.partNumber body = (s.parts ++ [s.partNumber]).zip _
    rw [Dict.set_of_not_mem hnew, List.zip_append h.parts_length, h.stored]
    rfl

theorem uploadChunk (h : Numbered s bodies) (data : Bytes) :
    Numbered (s.uploadChunk data) (bodies ++ uploaded [data]) := by
  by_cases hsmall : data.length < partSize
  · have hnone : uploaded [data] = [] := by
      simp [uploaded, hsmall]
    rw [SpacesCheckpointer.uploadChunk, if_pos hsmall, hnone, List.append_nil]
    exact ⟨⟨h.parts, h.stored⟩, h.next⟩
  · have hone : uploaded [data] = [data] := by
      simp [uploaded, Nat.not_lt.mp hsmall]
    rw [SpacesCheckpointer.uploadChunk, if_neg hsmall, hone]
    have hstarted : Numbered { s with started := true } bodies := ⟨⟨h.parts, h.stored⟩, h.next⟩
    obtain ⟨hparts, hstored⟩ := hstarted.uploadPart data
    refine ⟨⟨hparts, hstored⟩, ?_⟩
    rw [List.length_append, List.length_singleton, ← h.next]

theorem uploadChunks (h : Numbered s bodies) (chunks : List Bytes) :
    Numbered (chunks.foldl SpacesCheckpointer.uploadChunk s) (bodies ++ uploaded chunks) := by
  induction chunks generalizing s bodies with
  | nil =>
    rw [uploaded, List.filter_nil, List.append_nil]
    exact h
  | cons data chunks ih =>
    have hsplit : uploaded (data :: chunks) = uploaded [data] ++ uploaded chunks :=
      List.filter_append [data] chunks
    rw [hsplit, ← List.append_assoc]
    exact ih (h.uploadChunk data)

/-- The object is the parts so far and the file from where full parts would end. -/
theorem complete (h : Numbered s bodies) (hstarted : s.started = true) (result : Bytes) :
    (s.complete result).bucket.object =
      some (bodies.flatten ++ result.drop (bodies.length * partSize)) := by
  rw [SpacesCheckpointer.complete, if_pos hstarted, h.parts_length]
  by_cases hnone : result.drop (bodies.length * partSize) = []
  · rw [hnone, List.append_nil]
    exact h.joined
  · have hjoined := (h.uploadPart (result.drop (bodies.length * partSize))).joined
    rw [List.flatten_append, List.flatten_singleton] at hjoined
    simp only [hnone, ↓reduceIte]
    exact hjoined

end Numbered

/-! ## The uploaded object -/

theorem uploadChunk_started (s : SpacesCheckpointer) (data : Bytes) :
    (s.uploadChunk data).started = true := by
  unfold SpacesCheckpointer.uploadChunk
  split
  · rfl
  · rfl

theorem uploadChunks_started {s : SpacesCheckpointer} (h : s.started = true)
    (chunks : List Bytes) : (chunks.foldl SpacesCheckpointer.uploadChunk s).started = true := by
  induction chunks generalizing s with
  | nil => exact h
  | cons data chunks ih => exact ih (uploadChunk_started s data)

theorem checkpointed_eq {chunks : List Bytes} (hsome : chunks ≠ []) :
    checkpointed chunks = some ((uploaded chunks).flatten ++
      chunks.flatten.drop ((uploaded chunks).length * partSize)) := by
  obtain ⟨data, rest, rfl⟩ := List.exists_cons_of_ne_nil hsome
  have hempty : Numbered {} [] := ⟨⟨rfl, rfl⟩, rfl⟩
  exact (hempty.uploadChunks (data :: rest)).complete
    (uploadChunks_started (uploadChunk_started {} data) rest) _

theorem uploaded_length_le (chunks : List Bytes) :
    (uploaded chunks).flatten.length ≤ chunks.flatten.length :=
  (List.Sublist.flatten List.filter_sublist).length_le

/-- The object is the file exactly if every chunk that is uploaded has the smallest part size,
and these chunks joined are how the file begins. -/
theorem checkpointed_iff {chunks : List Bytes} (hsome : chunks ≠ []) :
    checkpointed chunks = some chunks.flatten ↔
      (∀ data ∈ chunks, partSize ≤ data.length → data.length = partSize) ∧
        (uploaded chunks).flatten <+: chunks.flatten := by
  have hmin : ∀ data ∈ uploaded chunks, partSize ≤ data.length :=
    fun data hdata => of_decide_eq_true (List.mem_filter.mp hdata).2
  have hfull : (∀ data ∈ uploaded chunks, data.length = partSize) ↔
      ∀ data ∈ chunks, partSize ≤ data.length → data.length = partSize := by
    simp only [uploaded, List.mem_filter, decide_eq_true_eq, and_imp]
  rw [checkpointed_eq hsome, Option.some_inj, ← hfull]
  exact Lists.flatten_append_drop_eq_iff hmin (uploaded_length_le chunks)

theorem checkpointed_iff_twoChunks : checkpointed [[0x7b], [0x7d]] = some [0x7b, 0x7d] := by
  apply (checkpointed_iff (List.cons_ne_nil _ _)).mpr
  constructor
  · decide
  · exact List.nil_prefix

/-- One byte before a chunk of the part size: the byte is lost, and one of the chunk doubled. -/
theorem firstByte_lost :
    checkpointed [[1], List.replicate partSize 0] = some (List.replicate (partSize + 1) 0) ∧
      checkpointed [[1], List.replicate partSize 0] ≠
        some [[1], List.replicate partSize 0].flatten := by
  have huploaded : uploaded [[1], List.replicate partSize 0] = [List.replicate partSize 0] := by
    have hfull : partSize ≤ (List.replicate partSize (0 : UInt8)).length :=
      List.length_replicate.ge
    rw [uploaded, List.filter_cons_of_neg (by decide)]
    exact List.filter_cons_of_pos (decide_eq_true hfull)
  have hrest : (1 :: List.replicate partSize 0).drop partSize = ([0] : Bytes) := by
    obtain ⟨n, hn⟩ : ∃ n, partSize = n + 1 := ⟨partSize - 1, rfl⟩
    rw [hn, List.drop_succ_cons, List.drop_replicate, Nat.add_sub_cancel_left]
    rfl
  have hobject : checkpointed [[1], List.replicate partSize 0] =
      some (List.replicate (partSize + 1) 0) := by
    have hjoin : [List.replicate partSize (0 : UInt8)].flatten = List.replicate partSize 0 :=
      List.flatten_singleton
    rw [checkpointed_eq (List.cons_ne_nil _ _), huploaded, hjoin, List.flatten_cons, hjoin,
      List.length_singleton, Nat.one_mul, List.singleton_append, hrest, List.replicate_succ']
  refine ⟨hobject, fun h => ?_⟩
  rw [hobject, List.replicate_succ, Option.some_inj, List.flatten_cons,
    List.singleton_append] at h
  exact absurd (List.head_eq_of_cons_eq h) (by decide)

end BatchEngine.Extensions
