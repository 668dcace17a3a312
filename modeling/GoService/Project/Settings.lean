import GoService.Data.KnownNames
import GoService.Project.FilePath
import GoService.Text.Blank
import GoService.Text.Quoted

/-!
# Settings

Where modules and the standard library are found, which framework services use, and what happens to
a function whose types cannot be resolved. A variable that is blank counts as not set.
-/

namespace GoService.Project

/-- What a failed resolution in a signature does: it ends the run, or the function is dropped. -/
inductive Mode where
  | strict
  | permissive
  deriving DecidableEq, Inhabited

/-- The name of a mode in the settings. -/
def Mode.name : Mode → String
  | .strict => "strict"
  | .permissive => "permissive"

/-- Why there are no settings. -/
inductive SettingsError where
  | invalidMode (text : String)
  deriving DecidableEq, Inhabited

/-- The text of an error. -/
def SettingsError.message : SettingsError → String
  | .invalidMode text =>
    "invalid mode " ++ Text.quote text ++ ", expected `strict` or `permissive`"

/-- Reads a mode; case and white space around it do not matter. -/
def Mode.parse (text : String) : Except SettingsError Mode :=
  let word := String.ofList ((Text.trim text.toList).map Char.toLower)
  if word = Mode.strict.name then .ok .strict
  else if word = Mode.permissive.name then .ok .permissive
  else .error (.invalidMode text)

/-- The settings of a run. -/
structure Settings where
  modCache : Option FilePath
  goroot : Option FilePath
  framework : String
  mode : Mode
  deriving DecidableEq, Inhabited

namespace Settings

/-- The settings when nothing is set. -/
def default : Settings :=
  ⟨none, none, Data.KnownNames.standardFramework, .strict⟩

/-- The directory for module caches when only the workspace or the home directory is known. -/
def fallbackCache? (var : String → Option String) : Option FilePath := do
  let workspace ←
    match var "GOPATH" with
    | some paths => (Text.splitString ':' paths).head?.map FilePath.mk
    | none => (var "HOME").map fun home => (FilePath.mk home).join "go"
  return (workspace.join "pkg").join "mod"

/-- The settings that variables give; one that is blank counts as not set. -/
def ofVariables (lookup : String → Option String) : Except SettingsError Settings := do
  let var (name : String) := (lookup name).filter fun v => !(Text.trim v.toList).isEmpty
  let mode ←
    match var "SVCGEN_MODE" with
    | some text => Mode.parse text
    | none => pure .strict
  return {
    modCache := ((var "GOMODCACHE").map FilePath.mk).or (fallbackCache? var)
    goroot := (var "GOROOT").map FilePath.mk
    framework := (var "SVCGEN_FRAMEWORK").getD Data.KnownNames.standardFramework
    mode }

end Settings

end GoService.Project
