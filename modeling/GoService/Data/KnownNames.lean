import GoService.Data.DataType

/-!
# Well-known names

Names of the service framework and of the standard library that resolve to well-known types without
a look at their packages. The framework is a module path that the user can choose.
-/

namespace GoService.Data

/-- A declared name with the well-known type that it stands for. -/
structure KnownName where
  package : String
  name : String
  type : WellKnown
  deriving DecidableEq, Inhabited

/-- The well-known names when `framework` is the path of the framework. -/
structure KnownNames where
  framework : String
  deriving DecidableEq, Inhabited

namespace KnownNames

/-- The framework when none is chosen. -/
def standardFramework : String := "github.com/svcgen/rt"

/-- The text without slashes at its end. -/
def dropSlashes (s : String) : String :=
  String.ofList (s.toList.reverse.dropWhile (· == '/')).reverse

/-- The registry of a framework, whose import path may end with slashes. -/
def ofFramework (framework : String) : KnownNames :=
  ⟨dropSlashes framework⟩

/-- The well-known names, those of the framework first. -/
def entries (r : KnownNames) : List KnownName :=
  let json := r.framework ++ "/json"
  [⟨r.framework, "Context", .context⟩, ⟨r.framework, "Empty", .empty⟩,
    ⟨r.framework, "Error", .error⟩, ⟨json, "RawMessage", .rawMessage⟩,
    ⟨json, "Object", .jsonObject⟩, ⟨json, "Array", .jsonArray⟩, ⟨json, "Date", .jsonDate⟩,
    ⟨json, "Time", .jsonTime⟩, ⟨"time", "Time", .time⟩,
    ⟨"encoding/json", "RawMessage", .stdRawMessage⟩]

/-- The well-known type that a package declares under a name. -/
def lookup? (r : KnownNames) (package name : String) : Option WellKnown :=
  (r.entries.find? fun e => e.package == package && e.name == name).map (·.type)

/-- The name that stands for a well-known type, with its package. -/
def nameOf? (r : KnownNames) (w : WellKnown) : Option String :=
  (r.entries.find? (·.type == w)).map fun e => e.package ++ "." ++ e.name

end KnownNames

end GoService.Data
