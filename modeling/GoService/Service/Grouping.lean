import GoService.Package.Load
import GoService.Service.Components
import GoService.Text.Quoted

/-!
# Services

A service is what a package offers: all its service functions under the name that the package's
documentation gives. No two packages may give the same name.
-/

namespace GoService

open Data Package

/-- Why functions do not make up services. -/
inductive GroupingError where
  | unnamed (package : String)
  | duplicate (name : String) (first : String) (second : String)
  deriving DecidableEq, Inhabited

/-- What is told of the error. -/
def GroupingError.message : GroupingError → String
  | .unnamed package =>
    s!"package {package} declares @fn functions but has no @service annotation"
  | .duplicate name first second =>
    "service " ++ Text.quote name ++ s!" is declared by both {first} and {second}"

/-- A service with its functions in the order of their names; `components` are the keys of all
structs behind them. -/
structure Service where
  name : String
  package : String
  title : Option String
  description : Option String
  terms : Option String
  internal : Bool
  annotations : Annotations
  components : List String
  fns : List Service.Function
  deriving DecidableEq, Inhabited

namespace Service

/-- The functions of a package, with its import path. -/
structure Group where
  package : String
  fns : List Function

/-- The functions by package, in the order of each package's first function. -/
def groups (fns : List Function) : List Group :=
  (fns.map (·.package)).eraseDups.map fun p => ⟨p, fns.filter (·.package == p)⟩

/-- The annotations of the package with an import path; there are none if it is not in the list. -/
def annotationsOf (packages : List Package) (importPath : String) : Annotations :=
  match packages.find? (·.importPath == importPath) with
  | some p => p.annotations
  | none => .empty

/-- The service that the functions of a package make up, if the package names it. -/
def ofGroup (packages : List Package) (structs : StructTable) (g : Group) :
    Except GroupingError Service :=
  let annotations := annotationsOf packages g.package
  match (annotations.value? .service).filter (!·.isEmpty) with
  | none => .error (.unnamed g.package)
  | some name =>
    .ok {
      name
      package := g.package
      title := annotations.value? .title
      description := annotations.value? .description
      terms := annotations.value? .terms
      internal := annotations.isSet .internal
      annotations
      components := componentsOf structs g.fns
      fns := g.fns.mergeSort fun a b => decide (a.name ≤ b.name) }

/-- Adds the service of a group, unless there is one of its name. -/
def addGroup (packages : List Package) (structs : StructTable) (services : List Service)
    (g : Group) : Except GroupingError (List Service) := do
  let s ← ofGroup packages structs g
  match services.find? (·.name == s.name) with
  | some first => throw (.duplicate s.name first.package s.package)
  | none => return services ++ [s]

/-- The services that functions make up, in the order of their names. -/
def ofFunctions (packages : List Package) (structs : StructTable) (fns : List Function) :
    Except GroupingError (List Service) := do
  let services ← (groups fns).foldlM (addGroup packages structs) []
  return services.mergeSort fun a b => decide (a.name ≤ b.name)

end Service

end GoService
