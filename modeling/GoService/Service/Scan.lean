import GoService.Project.Settings
import GoService.Resolution.Types
import GoService.Service.Function
import GoService.Service.Shape

/-!
# Finding service functions

The functions of a package whose documentation has the annotation `@fn`. A function of another shape
ends the scan. A type that cannot be resolved ends it too, unless the mode is permissive: then the
function is left out, and the structs that were resolved only for it are dropped.
-/

namespace GoService.Service

open Data Package Resolution
open Project (FilePath Mode)

/-- Why the functions of a package cannot be had. -/
inductive FunctionError where
  | malformed (file : FilePath) (function : String) (fault : ShapeFault)
  | resolve (error : ResolutionError)
  deriving DecidableEq

/-- What is told of the error. -/
def FunctionError.message : FunctionError → String
  | .malformed file function fault => s!"{file.text}: function {function}: {fault.message}"
  | .resolve e => e.message

/-- A scan, which adds to the known packages and structs. -/
abbrev Scan := ExceptT FunctionError (StateM Known)

/-- Whether a function can take or give a value of the type: a struct, the empty value, or a pointer
to one of these. -/
def canCarry : DataType → Bool
  | .struct _ | .wellKnown .empty => true
  | .pointer (.struct _) | .pointer (.wellKnown .empty) => true
  | _ => false

/-- The name under which the functions of the package are grouped; empty if there is no annotation.
-/
def serviceName (p : Package) : String :=
  (p.annotations.value? .service).getD ""

section

variable (names : KnownNames) (site : Site)

/-- The type of an operand. -/
def operandType (s : Operand) : Scan DataType :=
  ExceptT.adapt FunctionError.resolve (resolve names site s.type)

/-- Resolves the type of an operand and makes sure that it is what it has to be. -/
def operandOf (wanted : DataType → Bool) (fault : String → FunctionError) (s : Operand) :
    Scan DataType := do
  let type ← operandType names site s
  if wanted type then return type else throw (fault type.text)

/-- Resolves the value in an operand, if there is one. -/
def carriedOf (fault : String → FunctionError) : Option Operand → Scan (Option Carried)
  | none => return none
  | some s => return some ⟨s.name, ← operandOf names site canCarry fault s⟩

/-- The service function that a declaration makes. -/
def functionOf (d : Source.FuncDecl) : Scan Function := do
  let malformed (fault : ShapeFault) : FunctionError := .malformed site.file.path d.name.name fault
  let shape ← liftExcept ((Shape.ofDecl (fun t => site.text t.span) d).mapError malformed)
  discard <| operandOf names site (· == .wellKnown .context) (malformed <| .context ·) shape.context
  let param ← carriedOf names site (malformed <| .param ·) shape.param
  let result ← carriedOf names site (malformed <| .result ·) shape.result
  discard <| operandOf names site (· == .wellKnown .error) (malformed <| .error ·) shape.error
  let doc := Source.docContent d.doc
  return {
    service := serviceName site.package
    name := d.name.name
    package := site.package.importPath
    file := site.file.path
    line := site.file.parsed.lineOf d.keyword
    param
    result
    annotations := Annotations.ofText doc
    doc }

end

/-- Whether the documentation of a function says that it is a service function. -/
def isAnnotated (d : Source.FuncDecl) : Bool :=
  ((Annotations.ofText (Source.docContent d.doc)).value? .function).isSome

/-- Whether an error makes the mode drop the function and go on. -/
def FunctionError.isDropped (mode : Mode) : FunctionError → Bool
  | .resolve e => mode == .permissive && e.isSkippable
  | .malformed .. => false

/-- Looks at a function: gives it if it is a service function that is not dropped. -/
def scanFunction (names : KnownNames) (mode : Mode) (p : Package) (f : DeclaredFunc) :
    Scan (Option Function) := do
  if !isAnnotated f.decl then return none
  let mark := (← get).structs.mark
  tryCatch (some <$> functionOf names ⟨p, f.file⟩ f.decl) fun e => do
    if e.isDropped mode then
      -- the structs of the operands before the failing one go with the function
      modify fun k => k.withStructs (k.structs.rewind mark)
      return none
    else throw e

/-- The functions that are made of declarations, in order. -/
def functionsAmong (names : KnownNames) (mode : Mode) (p : Package) (fs : List DeclaredFunc) :
    Scan (List Function) := do
  return (← fs.mapM (scanFunction names mode p)).filterMap id

/-- The functions of one file. -/
def fileFunctions (names : KnownNames) (mode : Mode) (p : Package) (index : Nat) :
    Scan (List Function) :=
  functionsAmong names mode p (p.funcs.filter (·.index == index))

/-- The service functions of a package, file by file. -/
def packageFunctions (names : KnownNames) (mode : Mode) (p : Package) : Scan (List Function) := do
  return (← (List.range p.files.length).mapM (fileFunctions names mode p)).flatten

end GoService.Service
