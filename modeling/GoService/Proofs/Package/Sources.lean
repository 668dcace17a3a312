import GoService.Package.Load
import GoService.Proofs.Lists
import Mathlib.Data.List.Induction

/-!
# The sources of a package

Which of the files of a directory make up its package: those that no build constraint leaves out and
that name the package that most of these name. A package that is loaded has just these files, in the
order of their paths, and all functions that they declare (`load_sources`).
-/

namespace GoService.Package

open Source (Document FuncDecl)
open Project (FilePath FileTree)

/-! ## Sources -/

/-- A source file as it is written: where it stands and what it says. -/
structure SourceText where
  path : FilePath
  document : Document

/-- The source file at a path; there is none if its build constraint leaves it out. -/
def sourceAt? (files : FileTree) (path : FilePath) : Option SourceText :=
  match files.readText path with
  | .ok text =>
    if isIgnoredBuild (Text.lines text.toList) then none
    else some ⟨path, (Source.parse text).file⟩
  | .error _ => none

/-- The source files among those at given paths that make up a package. -/
def keptSources (files : FileTree) (paths : List FilePath) : List SourceText :=
  let sources := paths.filterMap (sourceAt? files)
  sources.filter fun s =>
    commonName? (sources.map (·.document.packageName)) == some s.document.packageName

/-- A file without its imports. -/
def SourceUnit.source (f : SourceUnit) : SourceText :=
  ⟨f.path, f.parsed⟩

/-- A file that is read has the source at its path, or none if it is left out. -/
lemma sourceAt?_of_read {files : FileTree} {path : FilePath} {o : Option SourceUnit}
    (h : SourceUnit.read files path = .ok o) :
    sourceAt? files path = o.map SourceUnit.source := by
  rw [SourceUnit.read] at h
  rw [sourceAt?]
  cases htext : files.readText path with
  | error e =>
    rw [htext] at h
    cases h
  | ok text =>
    simp only [htext] at h ⊢
    split at h
    · next hignored =>
      cases h
      rw [if_pos hignored]
      rfl
    · next hkept =>
      rw [if_neg hkept]
      split at h
      · cases h
      · split at h
        · cases h
        · cases h
          rfl

/-- Files that are read have the sources at their paths. -/
lemma sources_of_read {files : FileTree} {paths : List FilePath} {os : List (Option SourceUnit)}
    (h : paths.mapM (SourceUnit.read files) = .ok os) :
    paths.filterMap (sourceAt? files) = (os.filterMap id).map SourceUnit.source := by
  have hall := forall₂_of_mapM_ok h
  clear h
  induction hall with
  | nil => rfl
  | @cons path o paths os hread _ ih =>
    rw [List.filterMap_cons, sourceAt?_of_read hread, ih]
    cases o with
    | none => rfl
    | some f => rfl

/-- A package that is loaded is made up of the sources that a directory keeps. -/
structure MadeOf (files : FileTree) (paths : List FilePath) (p : Package) : Prop where
  sources : p.files.map SourceUnit.source = keptSources files paths
  funcs : p.funcs = funcsOf p.files

/-- A package that is loaded has its import path and is made of the sources at the paths. -/
theorem load_sources {files : FileTree} {importPath module : String} {dir : FilePath}
    {paths : List FilePath} {p : Package} (h : load files importPath dir module paths = .ok p) :
    p.importPath = importPath ∧ MadeOf files paths p := by
  cases hread : paths.mapM (SourceUnit.read files) with
  | error e =>
    rw [load, hread] at h
    cases h
  | ok os =>
    have hsources := sources_of_read hread
    rw [load, hread] at h
    simp only [bind, Except.bind] at h
    split at h
    · cases h
    · next name hname =>
      cases h
      refine ⟨rfl, ?_, rfl⟩
      have hnames : ((os.filterMap id).map SourceUnit.source).map (·.document.packageName) =
          (os.filterMap id).map (·.parsed.packageName) := List.map_map ..
      rw [keptSources, hsources, hnames, hname, List.filter_map]
      refine congrArg _ (List.filter_congr fun f _ => Bool.eq_iff_iff.2 ?_)
      simp only [beq_iff_eq, Function.comp_apply, Option.some.injEq]
      exact eq_comm

end GoService.Package
