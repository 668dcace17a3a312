import GoService.Project.Settings
import GoService.Project.Manifest

/-!
# Where packages live

The directory of a package by its import path. A package of the project's own module lies below the
project; a path of the standard library that no requirement claims lies below the Go installation;
all others lie in the vendor directory, if there is one, or else in the replacement or the cached
copy of the module that is required for them.
-/

namespace GoService.Project

/-- A package that could not be found, and the directory in which it was looked for. -/
structure LocationError where
  importPath : String
  searched : Option FilePath
  deriving DecidableEq, Inhabited

/-- The text of an error, with the directory that was searched if one was. -/
def LocationError.message (e : LocationError) : String :=
  s!"package {e.importPath} not found" ++
    match e.searched with
    | some dir => s!" (looked in {dir.text})"
    | none => ""

/-- The directory of a package and the module that provides it. -/
structure PackagePlace where
  dir : FilePath
  module : String
  deriving DecidableEq, Inhabited

/-- Whether an import path belongs to the standard library: its first element has no dot. -/
def isStandard (importPath : String) : Bool :=
  let first := (Text.splitString '/' importPath).headD ""
  !first.isEmpty && !first.toList.contains '.'

/-- Whether the last element of a module path gives its major version: `v` and a number from two on,
without leading zeros. -/
def isMajorSuffix (last : List Char) : Bool :=
  match last with
  | 'v' :: digits =>
    !digits.isEmpty && digits.all Char.isDigit && digits.head? != some '0' && digits != ['1']
  | _ => false

/-- Splits the major version off a module path. -/
def splitMajor (name : String) : String × Option String :=
  let reversed := name.toList.reverse
  let last := (reversed.takeWhile (· != '/')).reverse
  match reversed.dropWhile (· != '/') with
  | _ :: base =>
    if isMajorSuffix last then (String.ofList base.reverse, some (String.ofList last))
    else (name, none)
  | [] => (name, none)

/-- The text with capitals written as an exclamation mark and the small letter, so that names that
differ only in case stay distinct. -/
def escapeCapitals (s : String) : String :=
  String.ofList <| s.toList.flatMap fun c => if c.isUpper then ['!', c.toLower] else [c]

/-- The directory of a version of a module below a module cache. -/
def cachedDir (cache : FilePath) (name version : String) : FilePath :=
  let version := escapeCapitals version
  match splitMajor name with
  | (base, some major) => (cache.joinPieces (escapeCapitals base)).join s!"{major}@{version}"
  | (base, none) => cache.joinPieces s!"{escapeCapitals base}@{version}"

/-- What is known about the places of packages. -/
structure Layout where
  root : FilePath
  manifest : Manifest
  modCache : Option FilePath
  goroot : Option FilePath
  vendored : Bool
  deriving DecidableEq, Inhabited

namespace Layout

/-- The file whose presence shows that dependencies are vendored. -/
def vendorList : String := "vendor/modules.txt"

/-- The layout of a project; it has vendored packages if it has their list. -/
def ofProject (files : FileTree) (root : FilePath) (manifest : Manifest) (settings : Settings) :
    Layout :=
  ⟨root, manifest, settings.modCache, settings.goroot, files.isFile (root.join vendorList)⟩

/-- The directory of a required module: where its replacement leads, or its place in the cache. -/
def moduleRoot? (l : Layout) (r : Requirement) : Option FilePath :=
  match r.replacement with
  | some (.path path) =>
    if (FilePath.mk path).isAbsolute then some (FilePath.mk path).normalize
    else some (l.root.join path).normalize
  | some (.module name version) => l.modCache.map fun cache => cachedDir cache name version
  | none => l.modCache.map fun cache => cachedDir cache r.name r.version

/-- The directory in which a package has to be, whether it is there or not. -/
def expected? (l : Layout) (importPath : String) : Option PackagePlace :=
  let below (name : String) := String.ofList (importPath.toList.drop name.length)
  if l.manifest.covers importPath then
    some ⟨l.root.joinPieces (below l.manifest.name), l.manifest.name⟩
  else
    let require := l.manifest.requirementFor? importPath
    -- a required module wins over the standard library, and that over the vendored tree
    if require.isNone && isStandard importPath then
      l.goroot.map fun goroot => ⟨(goroot.join "src").joinPieces importPath, "std"⟩
    else if l.vendored then
      some ⟨(l.root.join "vendor").joinPieces importPath,
        (require.map (·.name)).getD importPath⟩
    else do
      let r ← require
      let dir ← l.moduleRoot? r
      return ⟨dir.joinPieces (below r.name), r.name⟩

/-- Finds the directory of a package. -/
def locate (l : Layout) (files : FileTree) (importPath : String) :
    Except LocationError PackagePlace :=
  match l.expected? importPath with
  | none => .error ⟨importPath, none⟩
  | some found => if files.isDir found.dir then .ok found else .error ⟨importPath, some found.dir⟩

end Layout

end GoService.Project
