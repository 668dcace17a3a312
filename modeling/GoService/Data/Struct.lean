import GoService.Annotation
import GoService.Data.DataType
import GoService.Tag
import GoService.Text.Uppercase

/-!
# Resolved structs

A struct with its fields in order, as they are seen from outside: embedded structs have been
replaced by their fields.
-/

namespace GoService.Data

/-- The key of a declared name: the import path of its package, a dot and the name. -/
def declKey (package name : String) : String :=
  package ++ "." ++ name

/-- Whether a name can be used outside its package: its first letter is a capital. -/
def isPublic (name : String) : Bool :=
  name.toList.head?.any Text.isUppercase

/-- A field; `jsonName` is the name given by its tag, or else its own. -/
structure StructField where
  name : String
  jsonName : String
  type : DataType
  tags : Tags
  annotations : Annotations
  exported : Bool
  doc : String
  deriving DecidableEq, Inhabited

/-- A declared struct; `package` is the import path of the package that declares it. -/
structure Struct where
  package : String
  name : String
  fields : List StructField
  annotations : Annotations
  exported : Bool
  doc : String
  deriving DecidableEq, Inhabited

namespace Struct

/-- The key of a struct: that of its declaration. -/
def key (s : Struct) : String :=
  declKey s.package s.name

/-- The field with a name. -/
def field? (s : Struct) (name : String) : Option StructField :=
  s.fields.find? (·.name == name)

end Struct

end GoService.Data
