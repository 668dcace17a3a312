/-!
# Resolved types

What a written type means once every name in it has been looked up: a builtin type, a type with a
meaning of its own, a reference to a struct by its key, or a pointer, sequence or map of these.
Structs are referred to by key, so a resolved type is a finite tree even where structs recur.
-/

namespace GoService.Data

/-- The predeclared types. -/
inductive Builtin where
  | string | bool
  | int | int8 | int16 | int32 | int64
  | uint | uint8 | uint16 | uint32 | uint64
  | float32 | float64 | complex64 | complex128
  deriving DecidableEq, Inhabited

namespace Builtin

/-- Every predeclared type. -/
def all : List Builtin :=
  [.string, .bool, .int, .int8, .int16, .int32, .int64, .uint, .uint8, .uint16, .uint32, .uint64,
    .float32, .float64, .complex64, .complex128]

/-- The name of a builtin type, which is also the name of its form. -/
def name : Builtin → String
  | .string => "string"
  | .bool => "bool"
  | .int => "int"
  | .int8 => "int8"
  | .int16 => "int16"
  | .int32 => "int32"
  | .int64 => "int64"
  | .uint => "uint"
  | .uint8 => "uint8"
  | .uint16 => "uint16"
  | .uint32 => "uint32"
  | .uint64 => "uint64"
  | .float32 => "float32"
  | .float64 => "float64"
  | .complex64 => "complex64"
  | .complex128 => "complex128"

/-- The builtin type with a name. -/
def ofName? (s : String) : Option Builtin :=
  all.find? (·.name == s)

/-- The type that a predeclared identifier stands for; `byte` and `rune` are other names of integer
types. -/
def ofIdent? (s : String) : Option Builtin :=
  if s = "byte" then some .uint8
  else if s = "rune" then some .int32
  else ofName? s

end Builtin

/-- Types with a meaning of their own, which are never looked into. -/
inductive WellKnown where
  | context
  | empty
  | error
  | rawMessage
  | jsonObject
  | jsonArray
  | jsonDate
  | jsonTime
  | time
  | stdRawMessage
  /-- The type of all values. -/
  | any
  deriving DecidableEq, Inhabited

namespace WellKnown

/-- The well-known types, in the order of their list. -/
def all : List WellKnown :=
  [.context, .empty, .error, .rawMessage, .jsonObject, .jsonArray, .jsonDate, .jsonTime, .time,
    .stdRawMessage, .any]

/-- The name of a well-known type in the form. -/
def name : WellKnown → String
  | .context => "context"
  | .empty => "empty"
  | .error => "error"
  | .rawMessage => "raw_message"
  | .jsonObject => "json_object"
  | .jsonArray => "json_array"
  | .jsonDate => "json_date"
  | .jsonTime => "json_time"
  | .time => "time"
  | .stdRawMessage => "std_raw_message"
  | .any => "any"

/-- The name in messages. -/
def title : WellKnown → String
  | .context => "Context"
  | .empty => "Empty"
  | .error => "Error"
  | .rawMessage => "RawMessage"
  | .jsonObject => "JsonObject"
  | .jsonArray => "JsonArray"
  | .jsonDate => "JsonDate"
  | .jsonTime => "JsonTime"
  | .time => "Time"
  | .stdRawMessage => "StdRawMessage"
  | .any => "Any"

/-- The well-known type with a name. -/
def ofName? (s : String) : Option WellKnown :=
  all.find? (·.name == s)

end WellKnown

/-- A resolved type. -/
inductive DataType where
  | builtin (name : Builtin)
  | struct (key : String)
  | pointer (elem : DataType)
  | array (elem : DataType)
  | map (key : Builtin) (value : DataType)
  | wellKnown (name : WellKnown)
  deriving DecidableEq, Inhabited

namespace DataType

/-- The well-known type that a type is, if it is one itself. -/
def wellKnown? : DataType → Option WellKnown
  | .wellKnown w => some w
  | _ => none

/-- The key of the struct that a type is or points to. -/
def directStruct? : DataType → Option String
  | .struct key => some key
  | .pointer (.struct key) => some key
  | _ => none

/-- The keys of the structs mentioned in the type; there is at most one. -/
def structKeys : DataType → List String
  | .struct key => [key]
  | .pointer elem | .array elem => elem.structKeys
  | .map _ value => value.structKeys
  | .builtin _ | .wellKnown _ => []

/-- A type as it is shown in messages. -/
def text : DataType → String
  | .builtin b => b.name
  | .struct key => key
  | .pointer elem => "*" ++ elem.text
  | .array elem => "[]" ++ elem.text
  | .map key value => "map[" ++ key.name ++ "]" ++ value.text
  | .wellKnown w => w.title

end DataType

end GoService.Data
