import GoService.Data.Struct
import GoService.Json

/-!
# The JSON form of resolved types and structs

A type is an object whose member `kind` names its form. A record is an object with a member per
field, where other members are ignored; the documentation is left out when it is empty. A reader
also takes an array for a record: the values of the fields in order, of which only the
documentation, which comes last, may be missing.
-/

namespace GoService.Data

/-- A record that is being read: its values by the names of the fields. -/
structure Record where
  values : List (String × Json)

namespace Record

/-- Reads a value as a record with the given fields. -/
def ofJson? (fields : List String) : Json → Option Record
  | .object ms => some ⟨ms⟩
  | .array es => if es.length ≤ fields.length then some ⟨fields.zip es⟩ else none
  | _ => none

/-- What a record has at a field. -/
def get? (r : Record) (field : String) : Option Json :=
  r.values.lookup field

/-- The text that a record has at a field. -/
def string? (r : Record) (field : String) : Option String :=
  (r.get? field).bind Json.string?

/-- The text of a field, empty when the field is missing. -/
def stringOrEmpty? (r : Record) (field : String) : Option String :=
  match r.get? field with
  | some j => j.string?
  | none => some ""

end Record

/-! ## Types -/

/-- A name from a closed list: a string, or an object with that name as its only member and nothing
in it. -/
def enumName? : Json → Option String
  | .string s => some s
  | .object [(s, .null)] | .object [(s, .object [])] => some s
  | _ => none

namespace DataType

/-- The forms of types. -/
inductive Kind where
  | builtin
  | struct
  | pointer
  | array
  | map
  | wellKnown
  deriving DecidableEq

namespace Kind

/-- Every form, in the order of their numbers. -/
def all : List Kind :=
  [.builtin, .struct, .pointer, .array, .map, .wellKnown]

/-- The name of a kind in the form. -/
def name : Kind → String
  | .builtin => "builtin"
  | .struct => "struct"
  | .pointer => "pointer"
  | .array => "array"
  | .map => "map"
  | .wellKnown => "well_known"

/-- The fields of a type of a kind, besides the kind itself. -/
def fields : Kind → List String
  | .builtin | .wellKnown => ["name"]
  | .struct => ["key"]
  | .pointer | .array => ["elem"]
  | .map => ["key", "value"]

/-- Reads the kind of a type: its name or, in a type inside another one, also its number. -/
def ofJson? (inner : Bool) : Json → Option Kind
  | .string s => all.find? (·.name == s)
  | .number n => if inner && 0 ≤ n then all[n.toNat]? else none
  | _ => none

end Kind

/-- The kind of a type and the value that holds its fields: an object with the member `kind`, or an
array that begins with it. -/
def kindAndFields? (inner : Bool) : Json → Option (Kind × Json)
  | .object ms => do
    let kind ← Kind.ofJson? inner (← ms.lookup "kind")
    return (kind, .object ms)
  | .array (k :: es) => do return (← Kind.ofJson? inner k, .array es)
  | _ => none

/-- The form of a type: an object with its kind and the fields of that kind. -/
def toJson : DataType → Json
  | .builtin b => .object [("kind", .string "builtin"), ("name", .string b.name)]
  | .struct key => .object [("kind", .string "struct"), ("key", .string key)]
  | .pointer elem => .object [("kind", .string "pointer"), ("elem", elem.toJson)]
  | .array elem => .object [("kind", .string "array"), ("elem", elem.toJson)]
  | .map key value =>
    .object [("kind", .string "map"), ("key", .string key.name), ("value", value.toJson)]
  | .wellKnown w => .object [("kind", .string "well_known"), ("name", .string w.name)]

/-- Reads a type nested at most `n` deep; `inner` says that it stands inside another type. -/
def ofJsonWithin : Nat → Bool → Json → Option DataType
  | 0, _, _ => none
  | n + 1, inner, j => do
    let (kind, value) ← kindAndFields? inner j
    let r ← Record.ofJson? kind.fields value
    let type (field : String) : Option DataType := do ofJsonWithin n true (← r.get? field)
    let builtin (field : String) : Option Builtin := do
      Builtin.ofName? (← enumName? (← r.get? field))
    match kind with
    | .builtin => return .builtin (← builtin "name")
    | .struct => return .struct (← r.string? "key")
    | .pointer => return .pointer (← type "elem")
    | .array => return .array (← type "elem")
    | .map => return .map (← builtin "key") (← type "value")
    | .wellKnown => return .wellKnown (← WellKnown.ofName? (← enumName? (← r.get? "name")))

/-- The type that a value spells, read as deep as the value is nested. -/
def ofJson? (j : Json) : Option DataType :=
  ofJsonWithin j.nesting false j

end DataType

/-! ## Tags and annotations -/

/-- The form of tags: an object with the list of values at each key. -/
def tagsToJson (t : Tags) : Json :=
  .object (t.entries.map fun e => (e.1, .array (e.2.map .string)))

/-- The tags that a value spells. -/
def tagsOfJson? (j : Json) : Option Tags := do
  let entries ← (← j.object?).mapM fun m => do
    let values ← (← m.2.array?).mapM Json.string?
    return (m.1, values)
  return .ofEntries entries

/-- The form of annotations: an object with the text at each name. -/
def annotationsToJson (a : Annotations) : Json :=
  .object (a.entries.map fun e => (e.1, .string e.2))

/-- The annotations that a value spells. -/
def annotationsOfJson? (j : Json) : Option Annotations := do
  let entries ← (← j.object?).mapM fun m => do return (m.1, ← m.2.string?)
  return .ofEntries entries

/-! ## Fields and structs -/

/-- The member with the documentation, if there is any. -/
def docMember (doc : String) : List (String × Json) :=
  if doc.isEmpty then [] else [("doc", .string doc)]

namespace StructField

/-- The fields of the form of a struct field, in the order in which an array may list them. -/
def recordFields : List String :=
  ["name", "json_name", "type", "tags", "annotations", "exported", "doc"]

/-- The form of a struct field. A documentation that is empty is left out. -/
def toJson (f : StructField) : Json :=
  .object ([("name", .string f.name), ("json_name", .string f.jsonName), ("type", f.type.toJson),
    ("tags", tagsToJson f.tags), ("annotations", annotationsToJson f.annotations),
    ("exported", .bool f.exported)] ++ docMember f.doc)

/-- The struct field that a value spells. -/
def ofJson? (j : Json) : Option StructField := do
  let r ← Record.ofJson? recordFields j
  return {
    name := ← r.string? "name"
    jsonName := ← r.string? "json_name"
    type := ← DataType.ofJson? (← r.get? "type")
    tags := ← tagsOfJson? (← r.get? "tags")
    annotations := ← annotationsOfJson? (← r.get? "annotations")
    exported := ← (← r.get? "exported").bool?
    doc := ← r.stringOrEmpty? "doc" }

end StructField

namespace Struct

/-- The fields of the form of a struct, in the order in which an array may list them. -/
def recordFields : List String :=
  ["package", "name", "fields", "annotations", "exported", "doc"]

/-- The form of a struct. A documentation that is empty is left out. -/
def toJson (s : Struct) : Json :=
  .object ([("package", .string s.package), ("name", .string s.name),
    ("fields", .array (s.fields.map StructField.toJson)),
    ("annotations", annotationsToJson s.annotations), ("exported", .bool s.exported)] ++
    docMember s.doc)

/-- The struct that a value spells. -/
def ofJson? (j : Json) : Option Struct := do
  let r ← Record.ofJson? recordFields j
  return {
    package := ← r.string? "package"
    name := ← r.string? "name"
    fields := ← (← (← r.get? "fields").array?).mapM StructField.ofJson?
    annotations := ← annotationsOfJson? (← r.get? "annotations")
    exported := ← (← r.get? "exported").bool?
    doc := ← r.stringOrEmpty? "doc" }

end Struct

end GoService.Data
