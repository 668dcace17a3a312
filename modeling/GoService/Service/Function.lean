import GoService.Data.DataType
import GoService.Annotation
import GoService.Project.FilePath

/-!
# Service functions

A function that a service offers, with the types of the value it takes and of the value it gives.
-/

namespace GoService.Service

/-- The value that a function takes or gives, and the name that its signature gives to it. -/
structure Carried where
  name : Option String
  type : Data.DataType
  deriving DecidableEq, Inhabited

/-- A function offered by a service; `service` is empty when its package names none. -/
structure Function where
  service : String
  name : String
  package : String
  file : Project.FilePath
  line : Nat
  param : Option Carried
  result : Option Carried
  annotations : Annotations
  doc : String
  deriving DecidableEq, Inhabited

namespace Function

/-- The service and the name of the function, with a dot between them. -/
def key (f : Function) : String :=
  f.service ++ "." ++ f.name

/-- The keys of the structs that the function carries. -/
def structKeys (f : Function) : List String :=
  (f.param.toList ++ f.result.toList).flatMap (·.type.structKeys)

end Function

end GoService.Service
