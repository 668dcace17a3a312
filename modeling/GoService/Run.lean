import GoService.Model
import GoService.Service.Scan

/-!
# A run over a project

From the manifest and the files of a project to its model: the packages of the project are loaded,
their service functions found, and the functions gathered into services. Packages outside the
project are loaded only where a type leads to them.
-/

namespace GoService

open Data Package Resolution
open Project (FilePath FileTree Settings Manifest ManifestError ListingError PackageDir Layout)
open Service (FunctionError Scan)

/-- Why there is no model. -/
inductive RunError where
  | manifest (error : ManifestError)
  | fileSet (error : ListingError)
  | load (package : String) (error : LoadError)
  | scan (package : String) (error : FunctionError)
  | service (error : GroupingError)
  deriving DecidableEq

/-- What is told of the error. -/
def RunError.message : RunError → String
  | .manifest e => e.message
  | .fileSet e => e.message
  | .load package e => s!"loading package {package}: {e.message}"
  | .scan package e => s!"scanning package {package}: {e.message}"
  | .service e => e.message

/-- What a run leaves: the model or an error, the structs resolved so far and, if there is a model,
the loaded packages. -/
structure Outcome where
  result : Except RunError Model
  structs : StructTable
  packages : Option LoadedPackages

namespace Outcome

/-- What a run that failed leaves. -/
def failure (error : RunError) (structs : StructTable) : Outcome :=
  ⟨.error error, structs, none⟩

end Outcome

namespace Project

/-- Loads the packages of the directories in order, and ends at the first that does not load. -/
def loadPackages (files : FileTree) (module : String) (nodes : List PackageDir) :
    Except RunError (List Package) :=
  nodes.mapM fun n =>
    (Package.load files n.importPath n.dir module n.files).mapError (.load n.importPath)

/-- Finds the service functions of packages, one package after another. -/
def scanPackages (names : KnownNames) (mode : Mode) (packages : List Package) :
    ExceptT RunError (StateM Known) (List Service.Function) := do
  return (← packages.mapM fun p =>
    ExceptT.adapt (RunError.scan p.importPath) (Service.packageFunctions names mode p)).flatten

/-- Finds and loads the packages below a directory. -/
def packagesIn (files : FileTree) (dir : FilePath) (manifest : Manifest) :
    Except RunError (List Package) := do
  let tree ← (packageTree files dir manifest.name).mapError .fileSet
  loadPackages files manifest.name tree.packages

/-- The model of a project whose manifest has been read and whose packages have been loaded. -/
def modelOf (settings : Settings) (manifest : Manifest) (packages : List Package)
    (store : LoadedPackages) : Outcome :=
  let names := KnownNames.ofFramework settings.framework
  match (scanPackages names settings.mode packages).run.run (.start store) with
  | (.error e, known) => .failure e known.structs
  | (.ok fns, known) =>
    match Service.ofFunctions packages known.structs fns with
    | .error e => .failure (.service e) known.structs
    | .ok services =>
      ⟨.ok (.ofServices manifest.name manifest.goVersion services known.structs), known.structs,
        some known.packages⟩

/-- Runs over the project in the directory `dir`. -/
def run (files : FileTree) (settings : Settings) (dir : FilePath) : Outcome :=
  match Manifest.read files dir with
  | .error e => .failure (.manifest e) .empty
  | .ok manifest =>
    match packagesIn files dir manifest with
    | .error e => .failure e .empty
    | .ok packages =>
      let layout := Layout.ofProject files dir manifest settings
      let store := LoadedPackages.ofSource (.ofFiles files layout)
      modelOf settings manifest packages (packages.foldl LoadedPackages.insert store)

end Project

end GoService
