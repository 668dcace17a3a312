import GoService.Data.Codec
import GoService.Service.Grouping

/-!
# The model of a project

Everything that is known about the services of a project, and its JSON form.
-/

namespace GoService

open Data

/-- The services of a module, with their structs and functions by key. -/
structure Model where
  module : String
  goVersion : Option String
  services : List Service
  structs : Dict Struct
  fns : Dict Service.Function
  deriving DecidableEq

/-- The model of a module with the given services; structs are taken from a table. Structs and
functions are sorted by key, and of two functions with one key the later one holds. -/
def Model.ofServices (module : String) (goVersion : Option String) (services : List Service)
    (structs : StructTable) : Model where
  module
  goVersion
  services
  structs := (Dict.ofEntries structs.finished).sortedByKey
  fns := (Dict.ofEntries ((services.flatMap (·.fns)).map fun f => (f.key, f))).sortedByKey

/-! ## JSON -/

/-- A member whose value is a text, if there is one. -/
def textMember (name : String) (text : Option String) : List (String × Json) :=
  (text.map fun t => (name, .string t)).toList

namespace Service

/-- The JSON form of a value that a function takes or gives. -/
def Carried.toJson (c : Carried) : Json :=
  .object (textMember "name" c.name ++ [("type", c.type.toJson)])

/-- The form of a function. -/
def Function.toJson (f : Function) : Json :=
  let carried (c : Option Carried) : Json := (c.map Carried.toJson).getD .null
  .object ([("service", .string f.service), ("name", .string f.name),
    ("package", .string f.package), ("file", .string f.file.text), ("line", .number f.line),
    ("param", carried f.param), ("result", carried f.result),
    ("annotations", annotationsToJson f.annotations)] ++ docMember f.doc)

/-- The form of a service. Texts that it does not have are left out. -/
def toJson (s : Service) : Json :=
  .object ([("name", .string s.name), ("package", .string s.package)] ++
    textMember "title" s.title ++ textMember "description" s.description ++
    textMember "terms" s.terms ++
    [("internal", .bool s.internal), ("annotations", annotationsToJson s.annotations),
      ("components", .array (s.components.map .string)),
      ("fns", .array (s.fns.map Function.toJson))])

end Service

/-- The form of a model: structs and functions by key beside the services. -/
def Model.toJson (m : Model) : Json :=
  .object ([("module", .string m.module)] ++ textMember "go_version" m.goVersion ++
    [("services", .array (m.services.map Service.toJson)),
      ("structs", .object (m.structs.entries.map fun e => (e.1, e.2.toJson))),
      ("fns", .object (m.fns.entries.map fun e => (e.1, e.2.toJson)))])

end GoService
