import GoService.Data.DataType
import GoService.Package.Loaded

/-!
# Why a type cannot be resolved

Every error but a failed load names the place of the type that could not be resolved.
-/

namespace GoService.Resolution

open Project (FilePath)
open Package (LoadError PackageError)

/-- A place in a source file. -/
structure SourcePlace where
  file : FilePath
  place : Source.Position
  deriving DecidableEq

/-- The place as it is shown: the file, and the position in it. -/
def SourcePlace.text (l : SourcePlace) : String :=
  l.file.text ++ ":" ++ l.place.text

/-- Why a name means nothing. -/
inductive Missing where
  | canonicalName
  | wellFormedType
  | declarationIn (importPath : String)
  | declaration
  | importFor
  | package (cause : PackageError)
  deriving DecidableEq

/-- The wording of the reason. -/
def Missing.message : Missing → String
  | .canonicalName => "anonymous structs have no canonical name"
  | .wellFormedType => "malformed type expression"
  | .declarationIn importPath => s!"not declared in package {importPath}"
  | .declaration => "no such type declaration"
  | .importFor => "no import provides this package name"
  | .package e => e.message

/-- A type that has no resolved form. -/
inductive Unsupported where
  | channel (text : String)
  | function (text : String)
  | methods
  | instantiation (text : String)
  | predeclared (name : String)
  | generic (key : String)
  | recursive (key : String)
  deriving DecidableEq

/-- What is told of the form that is not supported. -/
def Unsupported.message : Unsupported → String
  | .channel text => s!"channel type {text}"
  | .function text => s!"function type {text}"
  | .methods => "non-empty interface"
  | .instantiation text => s!"generic instantiation {text}"
  | .predeclared name => s!"predeclared type {name}"
  | .generic key => s!"generic type {key}"
  | .recursive key => s!"recursive type {key}"

/-- Why a type cannot be resolved. -/
inductive ResolutionError where
  | unresolved (place : SourcePlace) (name : String) (missing : Missing)
  | unsupported (place : SourcePlace) (type : Unsupported)
  | dotImport (place : SourcePlace) (path : String)
  | mapKey (place : SourcePlace) (found : Data.DataType)
  | cyclicEmbedding (place : SourcePlace) (key : String)
  | load (error : LoadError)
  /-- The bound on the depth of the search was reached. -/
  | exhausted (place : SourcePlace)
  deriving DecidableEq

namespace ResolutionError

/-- The place of the reference that failed, if it is known. -/
def place? : ResolutionError → Option SourcePlace
  | .unresolved l .. | .unsupported l .. | .dotImport l .. | .mapKey l .. | .cyclicEmbedding l ..
  | .exhausted l => some l
  | .load _ => none

/-- Whether a run may drop the function with the type and go on. -/
def isSkippable : ResolutionError → Bool
  | .load _ | .exhausted _ => false
  | _ => true

/-- What is wrong, without the place. -/
def reason : ResolutionError → String
  | .unresolved _ name missing => s!"unresolved type {name}: {missing.message}"
  | .unsupported _ type => s!"unsupported type: {type.message}"
  | .dotImport _ path => "dot import of " ++ Text.quote path ++ " is not supported"
  | .mapKey _ found => s!"map key must be a builtin type, found {found.text}"
  | .cyclicEmbedding _ key => s!"{key} is embedded while it is still being resolved"
  | .load e => e.message
  | .exhausted _ => "the search for the type does not end"

/-- What is told of the error, with its place before it. -/
def message (e : ResolutionError) : String :=
  match e.place? with
  | some l => l.text ++ ": " ++ e.reason
  | none => e.reason

end ResolutionError

end GoService.Resolution
