import GoService.Annotation
import GoService.Package.Import
import GoService.Project.PackageTree

/-!
# Packages

A package is what the source files of a directory declare together. Files that a build constraint
leaves out are skipped, and so are files that name another package than most files do.
-/

namespace GoService.Package

open Source (Document)
open Project (FilePath FileTree ReadError ListingError)

/-- Why a package cannot be loaded. -/
inductive LoadError where
  | unreadable (path : FilePath) (error : ReadError)
  | malformed (path : FilePath) (place : Source.Position) (problem : Source.Problem)
  | badImport (path : FilePath) (error : ImportFault)
  | noSources (importPath : String) (dir : FilePath)
  | fileSet (error : ListingError)
  deriving DecidableEq, Inhabited

/-- The text of an error, with the file and the place that it is about. -/
def LoadError.message : LoadError → String
  | .unreadable path e => s!"reading {path.text}: {e.message}"
  | .malformed path place problem => s!"{path.text}:{place.text}: {problem.message}"
  | .badImport path e => s!"{path.text}:{e.message}"
  | .noSources importPath dir => s!"no Go files for {importPath} in {dir.text}"
  | .fileSet e => e.message

/-- A source file with its imports. -/
structure SourceUnit where
  path : FilePath
  parsed : Document
  imports : ImportList

/-- A declared type, the file that declares it, and the index of that file. -/
structure DeclaredType where
  index : Nat
  file : SourceUnit
  spec : Source.TypeSpec

/-- A function, the file that declares it, and the index of that file. -/
structure DeclaredFunc where
  index : Nat
  file : SourceUnit
  decl : Source.FuncDecl

end GoService.Package

namespace GoService

/-- A loaded package; `module` is the module that provides it. Each type stands under its own name
and in one of the files; each function stands in the file at its index, and the functions come in
the order of the files. -/
structure Package where
  importPath : String
  name : String
  dir : Project.FilePath
  module : String
  files : List Package.SourceUnit
  types : Dict Package.DeclaredType
  funcs : List Package.DeclaredFunc
  named : ∀ e ∈ types.entries, e.2.spec.name.name = e.1
  filed : ∀ e ∈ types.entries, e.2.file ∈ files
  placed : ∀ f ∈ funcs, files[f.index]? = some f.file
  ordered : funcs.Pairwise fun f g => f.index ≤ g.index

end GoService

namespace GoService.Package

open Source (Document)
open Project (FilePath FileTree)

/-- The declaration of a type with a name. -/
def type? (p : Package) (name : String) : Option DeclaredType :=
  p.types.get? name

/-- The annotations in the documentation of the package; later files win. -/
def annotations (p : Package) : Annotations :=
  p.files.foldl
    (fun a f => a.merge (Annotations.ofText (Source.docContent f.parsed.file.doc))) .empty

/-! ## Build constraints -/

/-- Whether a character can stand in the name of a build tag, or negate it. -/
def isBuildTagChar (c : Char) : Bool :=
  Text.isAlphanumeric c || c == '_' || c == '!'

/-- The runs of tag characters in a build constraint. -/
def buildTags (cs : List Char) : List (List Char) :=
  Text.split ' ' (cs.map fun c => if isBuildTagChar c then c else ' ')

/-- The constraint on a line, if it is one. -/
def buildConstraint? (line : List Char) : Option (List Char) :=
  ["//go:build ", "// +build "].findSome? fun start =>
    if start.toList.isPrefixOf line then some (line.drop start.length) else none

/-- Whether one of the lines before the package clause is a constraint that names `ignore`. -/
def isIgnoredBuild : List (List Char) → Bool
  | [] => false
  | l :: ls =>
    let line := Text.trim l
    -- constraints stand above the package clause
    if "package ".toList.isPrefixOf line then false
    else if (buildConstraint? line).any fun c => (buildTags c).contains "ignore".toList then true
    else isIgnoredBuild ls

/-! ## Loading -/

/-- Reads a source file; a file that its build constraint leaves out gives nothing. -/
def SourceUnit.read (files : FileTree) (path : FilePath) : Except LoadError (Option SourceUnit) :=
  match files.readText path with
  | .error e => .error (.unreadable path e)
  | .ok text =>
    if isIgnoredBuild (Text.lines text.toList) then .ok none
    else
      let parsed := Source.parse text
      match parsed.diagnostics with
      | d :: _ => .error (.malformed path (parsed.file.lines.positionOf d.span.start) d.problem)
      | [] =>
        match ImportList.ofFile parsed.file with
        | .error e => .error (.badImport path e)
        | .ok imports => .ok (some ⟨path, parsed.file, imports⟩)

/-- The first of the names that occur most often. -/
def commonName? (names : List String) : Option String :=
  names.foldl (fun best n =>
    match best with
    | some b => if names.count b < names.count n then some n else best
    | none => some n) none

/-- The types that a file declares, in order. -/
def declaredTypes (file : Document) : List Source.TypeSpec :=
  file.file.decls.flatMap fun
    | .gen d => d.specs.filterMap fun
      | .typeSpec s => some s
      | _ => none
    | _ => []

/-- The functions that a file declares, in order. -/
def declaredFuncs (file : Document) : List Source.FuncDecl :=
  file.file.decls.filterMap fun
    | .func d => some d
    | _ => none

/-- The types that files declare, by name. -/
def typesOf (files : List SourceUnit) : List (String × DeclaredType) :=
  files.zipIdx.flatMap fun (f, i) =>
    ((declaredTypes f.parsed).filter (·.name.name != "_")).map fun s => (s.name.name, ⟨i, f, s⟩)

/-- The functions that files declare, file by file in source order. -/
def funcsOf (files : List SourceUnit) : List DeclaredFunc :=
  files.zipIdx.flatMap fun (f, i) => (declaredFuncs f.parsed).map fun d => ⟨i, f, d⟩

/-- A type of a package stands at its own name, and is declared in the file that is kept with it. -/
theorem mem_typesOf {files : List SourceUnit} {e : String × DeclaredType}
    (h : e ∈ typesOf files) :
    e.2.spec.name.name = e.1 ∧ e.2.file ∈ files ∧ e.2.spec ∈ declaredTypes e.2.file.parsed := by
  obtain ⟨⟨f, i⟩, hf, h⟩ := List.mem_flatMap.1 h
  obtain ⟨s, hs, rfl⟩ := List.mem_map.1 h
  exact ⟨rfl, List.fst_mem_of_mem_zipIdx hf, (List.mem_filter.1 hs).1⟩

/-- A function of a package is kept with the file at its index. -/
theorem placed_of_mem_funcsOf {files : List SourceUnit} {f : DeclaredFunc} (h : f ∈ funcsOf files) :
    files[f.index]? = some f.file := by
  obtain ⟨⟨file, i⟩, hfile, h⟩ := List.mem_flatMap.1 h
  obtain ⟨d, -, rfl⟩ := List.mem_map.1 h
  exact List.mem_zipIdx_iff_getElem?.1 hfile

/-- Functions come in the order of their files. -/
theorem pairwise_funcsOf (files : List SourceUnit) :
    (funcsOf files).Pairwise fun f g => f.index ≤ g.index := by
  have hindices : files.zipIdx.Pairwise fun a b => a.2 < b.2 := by
    rw [← List.pairwise_map, List.zipIdx_map_snd]
    exact List.pairwise_lt_range'
  refine List.pairwise_flatMap.2 ⟨fun a _ => ?_, hindices.imp fun {a b} hlt => ?_⟩
  · exact List.pairwise_map.2 (List.pairwise_of_forall fun _ _ => Nat.le_refl _)
  · intro f hf g hg
    obtain ⟨_, -, rfl⟩ := List.mem_map.1 hf
    obtain ⟨_, -, rfl⟩ := List.mem_map.1 hg
    exact Nat.le_of_lt hlt

/-- The package that files make up together. -/
def ofFiles (importPath name : String) (dir : FilePath) (module : String)
    (files : List SourceUnit) : Package where
  importPath
  name
  dir
  module
  files
  types := .ofEntries (typesOf files)
  funcs := funcsOf files
  named _ h := (mem_typesOf (Dict.mem_entries_ofEntries h)).1
  filed _ h := (mem_typesOf (Dict.mem_entries_ofEntries h)).2.1
  placed _ h := placed_of_mem_funcsOf h
  ordered := pairwise_funcsOf files

/-- Loads a package from files: those with the most common package name, if there is one. -/
def load (files : FileTree) (importPath : String) (dir : FilePath) (module : String)
    (paths : List FilePath) : Except LoadError Package := do
  let units := (← paths.mapM (SourceUnit.read files)).filterMap id
  match commonName? (units.map (·.parsed.packageName)) with
  | none => throw (.noSources importPath dir)
  | some name =>
    return ofFiles importPath name dir module (units.filter (·.parsed.packageName == name))

/-! ## What a loaded package mentions -/

/-- A file that was read is the text of a file in the tree with its imports. -/
theorem SourceUnit.parsed_of_read {files : FileTree} {path : FilePath} {f : SourceUnit}
    (h : SourceUnit.read files path = .ok (some f)) :
    (∃ s ∈ files.texts, f.parsed = (Source.parse s).file) ∧
      ImportList.ofFile f.parsed = .ok f.imports := by
  simp only [SourceUnit.read] at h
  split at h
  · simp at h
  · next text htext =>
    split at h
    · simp at h
    · split at h
      · simp at h
      · split at h
        · simp at h
        · next imports himports =>
          simp only [Except.ok.injEq, Option.some.injEq] at h
          subst h
          exact ⟨⟨text, FileTree.mem_texts_of_readText htext, rfl⟩, himports⟩

/-- A package that is loaded is made up of files that were read. -/
theorem eq_ofFiles_of_load {files : FileTree} {importPath module : String} {dir : FilePath}
    {paths : List FilePath} {p : Package} (h : load files importPath dir module paths = .ok p) :
    ∃ name units, p = ofFiles importPath name dir module units ∧
      ∀ f ∈ units, ∃ path, SourceUnit.read files path = .ok (some f) := by
  cases hus : paths.mapM (SourceUnit.read files) with
  | error e => simp [load, hus, bind, Except.bind] at h
  | ok us =>
    simp only [load, hus, bind, Except.bind] at h
    split at h
    · simp [throw, throwThe, MonadExceptOf.throw] at h
    · next name _ =>
      refine ⟨name, _, (Except.ok.inj h).symm, fun f hf => ?_⟩
      obtain ⟨o, ho, rfl⟩ := List.mem_filterMap.1 (List.mem_filter.1 hf).1
      obtain ⟨path, -, hread⟩ := exists_of_mapM_ok hus ho
      exact ⟨path, hread⟩

end GoService.Package
