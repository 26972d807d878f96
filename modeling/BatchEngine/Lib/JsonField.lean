import BatchEngine.Lib.PyFloat

/-!
# Fields of JSON objects

How the values of a type are written as values of an object's members and read back, and
the flat objects and dictionaries that are made of them.
-/

set_option autoImplicit false

namespace Py

/-- The floats of an interpreter. -/
abbrev Host.Float (host : Host) := {x : PyFloat // host.IsFloat x}

/-- What is written of a value is read as the value. -/
structure JsonField (α : Type) where
  write : α → Atom
  read : Json → Option α
  read_write : ∀ a, read (write a).toJson = some a

namespace JsonField

variable {α : Type}

def str : JsonField String where
  write s := .scalar (.str s)
  read
    | .str s => some s
    | _ => none
  read_write _ := rfl

def int : JsonField ℤ where
  write z := .scalar (.int z)
  read
    | .int z => some z
    | _ => none
  read_write _ := rfl

def bool : JsonField Bool where
  write b := .bool b
  read
    | .bool b => some b
    | _ => none
  read_write _ := rfl

def readFloat (host : Host) : Json → Option host.Float
  | .float x => if h : host.IsFloat x then some ⟨x, h⟩ else none
  | _ => none

def float (host : Host) : JsonField host.Float where
  write x := host.floatAtom x.1
  read := readFloat host
  read_write x := by
    rw [Host.floatAtom_toJson x.2, readFloat, dif_pos x.2]

def writeOptional (f : JsonField α) : Option α → Atom
  | none => .scalar .null
  | some a => f.write a

def readOptional (f : JsonField α) : Json → Option (Option α)
  | .null => some none
  | v => (f.read v).map some

/-- A value or `None`, where `None` is no value. -/
def optional (f : JsonField α) (hnull : f.read .null = none) : JsonField (Option α) where
  write := f.writeOptional
  read := f.readOptional
  read_write
    | none => rfl
    | some a => by
      have hread := f.read_write a
      show f.readOptional (f.write a).toJson = _
      cases hv : (f.write a).toJson with
      | null =>
        rw [hv, hnull] at hread
        cases hread
      | _ =>
        rw [hv] at hread
        exact congrArg (Option.map some) hread

end JsonField

/-! ## Flat objects -/

namespace Nested

/-- An object of atoms. -/
def flat (ms : List (String × Atom)) : Nested := .node (ms.map fun m => (m.1, .leaf m.2))

theorem depthOf_leaves (ms : List (String × Atom)) :
    depthOf (ms.map fun m => (m.1, .leaf m.2)) = 0 := by
  induction ms with
  | nil => rfl
  | cons m ms ih =>
    show max 0 (depthOf (ms.map fun m => (m.1, .leaf m.2))) = 0
    rw [ih, Nat.max_self]

@[simp] theorem depth_flat (ms : List (String × Atom)) : (flat ms).depth = 1 :=
  congrArg (· + 1) (depthOf_leaves ms)

theorem jsonOf_leaves (ms : List (String × Atom)) :
    jsonOf (ms.map fun m => (m.1, .leaf m.2)) = ms.map fun m => (m.1, m.2.toJson) := by
  induction ms with
  | nil => rfl
  | cons m ms ih => exact congrArg ((m.1, m.2.toJson) :: ·) ih

theorem toJson_flat {ms : List (String × Atom)} (h : (ms.map Prod.fst).Nodup) :
    (flat ms).toJson = .obj (ms.map fun m => (m.1, m.2.toJson)) := by
  have hkeys : ((ms.map fun m => (m.1, Nested.leaf m.2)).map Prod.fst).Nodup := by
    rwa [List.map_map]
  rw [flat, toJson_node hkeys, jsonOf_leaves]

end Nested

/-! ## Dictionaries -/

/-- A dictionary in insertion order. -/
abbrev PyDict (α : Type) := {d : List (String × α) // (d.map Prod.fst).Nodup}

namespace JsonField

variable {α : Type}

def writeDict (f : JsonField α) (d : PyDict α) : Nested :=
  .flat (d.1.map fun m => (m.1, f.write m.2))

def readMembers (f : JsonField α) : List (String × Json) → Option (List (String × α))
  | [] => some []
  | (key, v) :: kvs => (f.read v).bind fun a => (f.readMembers kvs).map ((key, a) :: ·)

def readDict (f : JsonField α) : Json → Option (PyDict α)
  | .obj kvs => (f.readMembers kvs).bind fun d =>
    if h : (d.map Prod.fst).Nodup then some ⟨d, h⟩ else none
  | _ => none

theorem readMembers_write (f : JsonField α) (d : List (String × α)) :
    f.readMembers (d.map fun m => (m.1, (f.write m.2).toJson)) = some d := by
  induction d with
  | nil => rfl
  | cons m d ih =>
    rw [List.map_cons, readMembers, f.read_write, Option.bind_some, ih, Option.map_some]

theorem readDict_write (f : JsonField α) (d : PyDict α) :
    f.readDict (f.writeDict d).toJson = some d := by
  have hkeys : ((d.1.map fun m => (m.1, f.write m.2)).map Prod.fst).Nodup := by
    rw [List.map_map]
    exact d.2
  rw [writeDict, Nested.toJson_flat hkeys, List.map_map, readDict]
  show (f.readMembers (d.1.map fun m => (m.1, (f.write m.2).toJson))).bind _ = _
  rw [readMembers_write, Option.bind_some, dif_pos d.2]

end JsonField

end Py
