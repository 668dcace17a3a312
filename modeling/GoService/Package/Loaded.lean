import GoService.Package.Load
import GoService.Project.Layout

/-!
# Packages on demand

A `PackageSource` gives packages by their import paths, always the same one for a path. A
`LoadedPackages` remembers which packages have been asked for: a package is loaded when it is first
needed, and a failure is not remembered.
-/

namespace GoService.Package

open Project (FileTree Layout LocationError)

/-- Why a package cannot be had. -/
inductive PackageError where
  | locate (error : LocationError)
  | load (error : LoadError)
  deriving DecidableEq, Inhabited

/-- The text of an error, that of what went wrong. -/
def PackageError.message : PackageError → String
  | .locate e => e.message
  | .load e => e.message

/-- The import paths that the files of a package mention. -/
def mentionedPaths (p : Package) : List String :=
  p.files.flatMap fun f => f.imports.imports.map (·.path)

/-- Where packages come from. The packages declare only types with the given names, and their files
mention only the given import paths, so only finitely many declarations can be reached from one
another. -/
structure PackageSource where
  load : String → Except PackageError Package
  paths : List String
  names : List String
  importPath_of_load : ∀ {path p}, load path = .ok p → p.importPath = path
  names_of_load : ∀ {path p}, load path = .ok p → p.types.keys ⊆ names
  paths_of_load : ∀ {path p}, load path = .ok p → mentionedPaths p ⊆ paths

namespace PackageSource

/-- Loads the package at an import path from where the layout has it. -/
def loadFrom (files : FileTree) (layout : Layout) (importPath : String) :
    Except PackageError Package :=
  match layout.locate files importPath with
  | .error e => .error (.locate e)
  | .ok found =>
    match Project.sourceFiles files found.dir with
    | .error e => .error (.load (.fileSet e))
    | .ok paths =>
      match Package.load files importPath found.dir found.module paths with
      | .error e => .error (.load e)
      | .ok p => .ok p

/-- A package that is found has the import path for which it was looked up and is made up of files
in the tree. -/
theorem eq_ofFiles_of_loadFrom {files : FileTree} {layout : Layout} {importPath : String}
    {p : Package} (h : loadFrom files layout importPath = .ok p) :
    ∃ name dir module units, p = Package.ofFiles importPath name dir module units ∧
      ∀ f ∈ units, ∃ path, SourceUnit.read files path = .ok (some f) := by
  simp only [loadFrom] at h
  split at h
  · simp at h
  · split at h
    · simp at h
    · split at h
      · simp at h
      · next hload =>
        obtain rfl := Except.ok.inj h
        obtain ⟨name, units, rfl, hunits⟩ := eq_ofFiles_of_load hload
        exact ⟨name, _, _, units, rfl, hunits⟩

/-- The files of a tree as documents, whether they are source files or not. -/
def documents (files : FileTree) : List Source.Document :=
  files.texts.map fun text => (Source.parse text).file

/-- The packages of a project. All they can mention and declare is in the files of the tree. -/
def ofFiles (files : FileTree) (layout : Layout) : PackageSource where
  load := loadFrom files layout
  paths := (documents files).flatMap ImportList.mentioned
  names := (documents files).flatMap fun d => (declaredTypes d).map (·.name.name)
  importPath_of_load h := by
    obtain ⟨name, dir, module, units, rfl, -⟩ := eq_ofFiles_of_loadFrom h
    rfl
  names_of_load h := by
    obtain ⟨name, dir, module, units, rfl, hunits⟩ := eq_ofFiles_of_loadFrom h
    intro key hkey
    obtain ⟨e, he, rfl⟩ := List.mem_map.1 hkey
    obtain ⟨hname, hfile, hspec⟩ := mem_typesOf (Dict.mem_entries_ofEntries he)
    obtain ⟨path, hread⟩ := hunits _ hfile
    obtain ⟨⟨text, htext, hparsed⟩, -⟩ := SourceUnit.parsed_of_read hread
    exact List.mem_flatMap.2 ⟨_, List.mem_map.2 ⟨text, htext, hparsed.symm⟩,
      List.mem_map.2 ⟨_, hspec, hname⟩⟩
  paths_of_load h := by
    obtain ⟨name, dir, module, units, rfl, hunits⟩ := eq_ofFiles_of_loadFrom h
    intro path hpath
    obtain ⟨f, hf, hpath⟩ := List.mem_flatMap.1 hpath
    obtain ⟨i, hi, rfl⟩ := List.mem_map.1 hpath
    obtain ⟨_, hread⟩ := hunits _ hf
    obtain ⟨⟨text, htext, hparsed⟩, himports⟩ := SourceUnit.parsed_of_read hread
    exact List.mem_flatMap.2 ⟨_, List.mem_map.2 ⟨text, htext, hparsed.symm⟩,
      ImportList.path_mem_mentioned himports hi⟩

end PackageSource

/-- The packages loaded so far, by import path, and where more of them come from. -/
structure LoadedPackages where
  source : PackageSource
  loaded : Dict Package
  keyed : ∀ e ∈ loaded.entries, e.2.importPath = e.1

namespace LoadedPackages

/-- The store before the first package. -/
def ofSource (source : PackageSource) : LoadedPackages where
  source
  loaded := .empty
  keyed _ h := absurd h List.not_mem_nil

/-- The number of loaded packages. -/
def size (s : LoadedPackages) : Nat :=
  s.loaded.size

/-- The package at an import path, if it was loaded before. -/
def get? (s : LoadedPackages) (importPath : String) : Option Package :=
  s.loaded.get? importPath

/-- Remembers a package at its import path. -/
def insert (s : LoadedPackages) (p : Package) : LoadedPackages where
  source := s.source
  loaded := s.loaded.insert p.importPath p
  keyed e h := by
    rcases Dict.mem_entries_insert h with rfl | h
    · rfl
    · exact s.keyed e h

/-- The package at an import path, loaded if it was not yet. -/
def load (s : LoadedPackages) (importPath : String) :
    Except PackageError Package × LoadedPackages :=
  match s.get? importPath with
  | some p => (.ok p, s)
  | none =>
    match s.source.load importPath with
    | .ok p => (.ok p, s.insert p)
    | .error e => (.error e, s)

/-- The import paths of the loaded packages, and those at which more of them can be asked for. -/
def paths (s : LoadedPackages) : List String :=
  s.loaded.keys ++ s.loaded.entries.flatMap (fun e => mentionedPaths e.2) ++ s.source.paths

/-- The names that loaded packages declare, and those that packages still to come can declare. -/
def names (s : LoadedPackages) : List String :=
  s.loaded.entries.flatMap (fun e => e.2.types.keys) ++ s.source.names

/-- A bound on the number of declared types that can be reached from one another. -/
def weight (s : LoadedPackages) : Nat :=
  s.paths.length * s.names.length

end LoadedPackages

end GoService.Package
