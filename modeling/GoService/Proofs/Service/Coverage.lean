import GoService.Proofs.Package.Sources
import GoService.Proofs.Project.Directories
import GoService.Proofs.Service.Groups
import GoService.Proofs.Service.Order

/-!
# Every annotated function is served

A strict run that succeeds serves the functions that are annotated in the sources of the project,
each of them once (`strict_run_serves_annotated`). On the way no function is lost and none is added:
the packages have all that their sources declare (`annotatedDecls_eq`), a strict scan makes
something of each annotated function (`scanPackages_strict`), and grouping only changes the order
(`groups_perm`, `servesAll_of_ofFunctions`). A group is named by the package that declares its
functions, as import paths differ.
-/

namespace GoService.Service

open Data Package Resolution
open Project (Mode FileTree FilePath PackageDir Settings Manifest OpenDir WalkEntry)

/-! ## What a strict scan makes of functions -/

/-- What a package with a function makes of it. -/
structure Makes (p : Package) (f : DeclaredFunc) (fn : Function) : Prop where
  service : fn.service = serviceName p
  package : fn.package = p.importPath
  name : fn.name = f.decl.name.name
  file : fn.file = f.file.path
  line : fn.line = f.file.parsed.lineOf f.decl.keyword
  doc : fn.doc = Source.docContent f.decl.doc
  annotations : fn.annotations = Annotations.ofText (Source.docContent f.decl.doc)

section

variable {names : KnownNames} {mode : Mode} {p : Package} {k k' : Known}

/-- A function that is made of a declaration has what the package gives it. -/
lemma makes_of_functionOf {f : DeclaredFunc} {fn : Function}
    (h : outcome (functionOf names ⟨p, f.file⟩ f.decl) k = (.ok fn, k')) : Makes p f fn := by
  rw [functionOf] at h
  obtain ⟨shape, _, -, h⟩ := exists_of_outcome_bind h
  obtain ⟨_, _, -, h⟩ := exists_of_outcome_bind h
  obtain ⟨param, _, -, h⟩ := exists_of_outcome_bind h
  obtain ⟨result, _, -, h⟩ := exists_of_outcome_bind h
  obtain ⟨_, _, -, h⟩ := exists_of_outcome_bind h
  cases h
  exact ⟨rfl, rfl, rfl, rfl, rfl, rfl, rfl⟩

/-- A function that is kept is made of its declaration. -/
lemma makes_of_scanFunction {f : DeclaredFunc} {fn : Function}
    (h : outcome (scanFunction names mode p f) k = (.ok (some fn), k')) : Makes p f fn := by
  by_cases hannotated : isAnnotated f.decl
  · rw [outcome_scanFunction_of_annotated hannotated] at h
    obtain ⟨fn', k₁, ho⟩ | ⟨e, k₁, ho⟩ := outcome_cases (functionOf names ⟨p, f.file⟩ f.decl) k
    · rw [ho] at h
      cases h
      exact makes_of_functionOf ho
    · rw [ho] at h
      dsimp only at h
      split at h
      · cases h
      · cases h
  · rw [outcome_scanFunction_of_not_annotated hannotated] at h
    cases h

/-- Nothing is dropped in strict mode. -/
lemma isDropped_strict (e : FunctionError) : e.isDropped .strict = false := by
  cases e <;> rfl

/-- A strict scan makes something of a function just if it is annotated. -/
lemma scanFunction_strict {f : DeclaredFunc} {o : Option Function}
    (h : outcome (scanFunction names .strict p f) k = (.ok o, k')) :
    isAnnotated f.decl = o.isSome ∧ ∀ fn ∈ o, Makes p f fn := by
  refine ⟨?_, fun fn hfn => makes_of_scanFunction ((Option.mem_def.1 hfn) ▸ h)⟩
  by_cases hannotated : isAnnotated f.decl
  · rw [outcome_scanFunction_of_annotated hannotated] at h
    obtain ⟨fn, k₁, ho⟩ | ⟨e, k₁, ho⟩ := outcome_cases (functionOf names ⟨p, f.file⟩ f.decl) k
    · rw [ho] at h
      cases h
      exact hannotated
    · rw [ho] at h
      simp only [isDropped_strict] at h
      cases h
  · rw [outcome_scanFunction_of_not_annotated hannotated] at h
    cases h
    exact eq_false_of_ne_true hannotated

/-- A strict scan makes a function of each annotated declaration. -/
lemma functionsAmong_strict {fs : List DeclaredFunc} {fns : List Function}
    (h : outcome (functionsAmong names .strict p fs) k = (.ok fns, k')) :
    List.Forall₂ (Makes p) (fs.filter fun f => isAnnotated f.decl) fns := by
  induction fs generalizing k fns with
  | nil =>
    rw [functionsAmong_nil] at h
    cases h
    exact .nil
  | cons f fs ih =>
    rw [functionsAmong_cons] at h
    obtain ⟨o, k₁, hscan, h⟩ := exists_of_outcome_bind h
    obtain ⟨fns₁, k₂, hrest, hret⟩ := exists_of_outcome_bind h
    cases hret
    obtain ⟨hsome, hmakes⟩ := scanFunction_strict hscan
    rw [List.filter_cons, hsome]
    cases o with
    | none => exact ih hrest
    | some fn => exact .cons (hmakes fn rfl) (ih hrest)

/-- The annotated functions of packages, with their packages. -/
def annotatedFuncs (ps : List Package) : List (Package × DeclaredFunc) :=
  ps.flatMap fun p => (p.funcs.filter fun f => isAnnotated f.decl).map (p, ·)

/-- A strict scan of packages makes a function of each annotated declaration in them. -/
lemma scanPackages_strict {ps : List Package} {fns : List Function}
    (h : outcome (Project.scanPackages names .strict ps) k = (.ok fns, k')) :
    List.Forall₂ (fun d fn => Makes d.1 d.2 fn) (annotatedFuncs ps) fns := by
  induction ps generalizing k fns with
  | nil =>
    rw [Project.scanPackages_nil] at h
    cases h
    exact .nil
  | cons p ps ih =>
    rw [Project.scanPackages_cons] at h
    obtain ⟨fns₁, k₁, hscan, h⟩ := exists_of_outcome_bind h
    obtain ⟨fns₂, k₂, hrest, hret⟩ := exists_of_outcome_bind h
    cases hret
    rw [annotatedFuncs, List.flatMap_cons]
    refine List.rel_append ?_ (ih hrest)
    exact List.forall₂_map_left_iff.2 (functionsAmong_strict (outcome_adapt_eq_ok.1 hscan))

end

/-! ## Declarations -/

/-- A function declaration with the source file in which it stands and the import path of the
package. -/
structure Declaration where
  package : String
  source : SourceText
  decl : Source.FuncDecl

/-- The annotated functions that are declared in the sources of the package in a directory. -/
def declarationsIn (files : FileTree) (n : PackageDir) : List Declaration :=
  (keptSources files n.files).flatMap fun s =>
    ((declaredFuncs s.document).filter isAnnotated).map fun d => ⟨n.importPath, s, d⟩

/-- The annotated functions that are declared in the sources of a project. -/
def annotatedDecls (files : FileTree) (tree : PackageDir) : List Declaration :=
  tree.packages.flatMap (declarationsIn files)

/-- The function is the one that is declared. -/
structure Matches (d : Declaration) (fn : Function) : Prop where
  package : fn.package = d.package
  name : fn.name = d.decl.name.name
  file : fn.file = d.source.path
  line : fn.line = d.source.document.lineOf d.decl.keyword
  doc : fn.doc = Source.docContent d.decl.doc
  annotations : fn.annotations = Annotations.ofText (Source.docContent d.decl.doc)

/-- The declaration of a function of a package. -/
def declarationOf (d : Package × DeclaredFunc) : Declaration :=
  ⟨d.1.importPath, d.2.file.source, d.2.decl⟩

/-- A package that is loaded has the functions that its sources declare. -/
lemma declarationsIn_eq {files : FileTree} {n : PackageDir} {p : Package}
    (hpath : p.importPath = n.importPath) (h : MadeOf files n.files p) :
    declarationsIn files n = (annotatedFuncs [p]).map declarationOf := by
  have hunits : p.files = p.files.zipIdx.map Prod.fst := (List.zipIdx_map_fst ..).symm
  rw [annotatedFuncs, List.flatMap_singleton, List.map_map, declarationsIn, ← h.sources, h.funcs,
    funcsOf, List.filter_flatMap, List.map_flatMap]
  conv_lhs => rw [hunits, List.map_map, List.flatMap_map]
  refine List.flatMap_congr fun e _ => ?_
  rw [List.filter_map, List.map_map, ← hpath]
  rfl

/-- Packages that are loaded have the paths of their directories and are made of the files there. -/
lemma loaded_of_loadPackages {files : FileTree} {module : String} {ns : List PackageDir}
    {ps : List Package} (h : Project.loadPackages files module ns = .ok ps) :
    List.Forall₂ (fun n p => p.importPath = n.importPath ∧ MadeOf files n.files p) ns ps := by
  refine (forall₂_of_mapM_ok h).imp fun n p hload => ?_
  cases hp : Package.load files n.importPath n.dir module n.files with
  | error e =>
    rw [hp] at hload
    cases hload
  | ok p =>
    rw [hp] at hload
    cases hload
    exact load_sources hp

/-- The annotated declarations in the files are those of the loaded packages. -/
lemma annotatedDecls_eq {files : FileTree} {ns : List PackageDir} {ps : List Package}
    (h : List.Forall₂ (fun n p => p.importPath = n.importPath ∧ MadeOf files n.files p) ns ps) :
    ns.flatMap (declarationsIn files) = (annotatedFuncs ps).map declarationOf := by
  induction h with
  | nil => rfl
  | @cons n p ns ps hp _ ih =>
    have hcons : annotatedFuncs (p :: ps) = annotatedFuncs [p] ++ annotatedFuncs ps := by
      simp [annotatedFuncs]
    rw [List.flatMap_cons, hcons, List.map_append, ih, declarationsIn_eq hp.1 hp.2]

/-- The import paths are those of the directories. -/
lemma importPaths_eq {files : FileTree} {ns : List PackageDir} {ps : List Package}
    (h : List.Forall₂ (fun n p => p.importPath = n.importPath ∧ MadeOf files n.files p) ns ps) :
    ps.map (·.importPath) = ns.map (·.importPath) := by
  induction h with
  | nil => rfl
  | cons hp _ ih => exact congrArg₂ _ hp.1 ih

/-! ## Runs -/

/-- Services have just the functions that are annotated in the sources of a project. Each function
is in the one service of the package that declares it and bears the name of that service. -/
structure Covers (files : FileTree) (tree : PackageDir) (ss : List GoService.Service) : Prop where
  declared : ∃ fns, List.Forall₂ Matches (annotatedDecls files tree) fns ∧
    (ss.flatMap (·.fns)).Perm fns
  named : ∀ s ∈ ss, s.name ≠ "" ∧ ∀ f ∈ s.fns, f.service = s.name ∧ f.package = s.package
  services : (ss.map (·.package)).Nodup
  packages : (tree.packages.map (·.importPath)).Nodup

/-- A strict run covers the annotated declarations of the project. -/
lemma covers_of_modelOf {files : FileTree} {settings : Settings} {manifest : Manifest}
    {tree : PackageDir} {packages : List Package} {store : LoadedPackages} {m : Model}
    (hmode : settings.mode = .strict) (hdistinct : (tree.packages.map (·.importPath)).Nodup)
    (hloaded : Project.loadPackages files manifest.name tree.packages = .ok packages)
    (h : (Project.modelOf settings manifest packages store).result = .ok m) :
    Covers files tree m.services := by
  have hall := loaded_of_loadPackages hloaded
  obtain ⟨fns, k', services, hscan, hservices, -, rfl⟩ := Project.scanned_of_modelOf h
  rw [hmode] at hscan
  have hmakes := scanPackages_strict hscan
  have hserves := servesAll_of_ofFunctions hservices
  refine ⟨⟨fns, ?_, hserves.perm⟩, ?_, hserves.distinct, hdistinct⟩
  · rw [annotatedDecls, annotatedDecls_eq hall, List.forall₂_map_left_iff]
    exact hmakes.imp fun d fn hd =>
      ⟨hd.package, hd.name, hd.file, hd.line, hd.doc, hd.annotations⟩
  · refine hserves.named (importPaths_eq hall ▸ hdistinct) fun f hf => ?_
    obtain ⟨d, hd, hmade⟩ := exists_of_forall₂ hmakes hf
    obtain ⟨p, hp, hd⟩ := List.mem_flatMap.1 hd
    obtain ⟨_, -, rfl⟩ := List.mem_map.1 hd
    exact ⟨p, hp, hmade.package, hmade.service⟩

/-- What a run that succeeds has read and loaded. -/
lemma modelOf_of_run {files : FileTree} {settings : Settings} {dir : FilePath} {m : Model}
    (h : (Project.run files settings dir).result = .ok m) :
    ∃ manifest tree packages store, Manifest.read files dir = .ok manifest ∧
      Project.packageTree files dir manifest.name = .ok tree ∧
      Project.loadPackages files manifest.name tree.packages = .ok packages ∧
      (Project.modelOf settings manifest packages store).result = .ok m := by
  rw [Project.run] at h
  cases hmanifest : Manifest.read files dir with
  | error e =>
    rw [hmanifest] at h
    cases h
  | ok manifest =>
    cases htree : Project.packageTree files dir manifest.name with
    | error e =>
      have hpackages : Project.packagesIn files dir manifest = .error (.fileSet e) := by
        rw [Project.packagesIn, htree]
        rfl
      simp only [hmanifest, hpackages] at h
      cases h
    | ok tree =>
      have hload : Project.packagesIn files dir manifest =
          Project.loadPackages files manifest.name tree.packages := by
        rw [Project.packagesIn, htree]
        rfl
      cases hpackages : Project.loadPackages files manifest.name tree.packages with
      | error e =>
        simp only [hmanifest, hload, hpackages] at h
        cases h
      | ok packages =>
        simp only [hmanifest, hload, hpackages] at h
        exact ⟨manifest, tree, packages, _, rfl, htree, hpackages, h⟩

/-- A strict run that succeeds loses no annotated function and makes none up, whatever the files
are, as long as their names have no slashes. -/
theorem strict_run_serves_annotated {files : FileTree} {settings : Settings} {dir : FilePath}
    {m : Model} (hfiles : files.PlainNames) (hmode : settings.mode = .strict)
    (h : (Project.run files settings dir).result = .ok m) :
    ∃ manifest tree, Manifest.read files dir = .ok manifest ∧
      Project.packageTree files dir manifest.name = .ok tree ∧ Covers files tree m.services := by
  obtain ⟨manifest, tree, packages, store, hmanifest, htree, hpackages, h⟩ := modelOf_of_run h
  have hdistinct := Project.importPaths_nodup hfiles htree
  exact ⟨manifest, tree, hmanifest, htree, covers_of_modelOf hmode hdistinct hpackages h⟩

/-! ## A project with one service -/

namespace Greeter

/-- The manifest of the project. -/
def manifestText : String := "module m\n"

/-- A service with one annotated function and another one. -/
def sourceText : String :=
  "// @service s\npackage p\n\nimport \"github.com/svcgen/rt\"\n\n" ++
    "// @fn\nfunc F(rt.Context) error\n\nfunc G()\n"

/-- The files of the project. -/
def files : FileTree :=
  .dir [("go.mod", .file manifestText.toUTF8), ("p.go", .file sourceText.toUTF8)]

/-- The root of the project. -/
def root : FilePath := ⟨"/"⟩

/-- The packages of the project, of which there is one. -/
def tree : PackageDir :=
  .node "m" "m" root [⟨"/p.go"⟩] []

/-- The root as a walk opens it. -/
def rootDir : OpenDir :=
  ⟨[], root, [], files.entries⟩

/-- The entries of the root are in order. -/
lemma sortedEntries_root : rootDir.sortedEntries = files.entries :=
  List.mergeSort_of_pairwise (by decide +kernel)

/-- A walk starts in the root. -/
lemma walkStart_root : files.walkStart root = .ok (some rootDir) := by
  rfl

/-- A walk meets both files. -/
lemma walk_root : files.walk WalkEntry.isLeftOut root =
    [.ok ⟨⟨"/go.mod"⟩, "go.mod", [], false⟩, .ok ⟨⟨"/p.go"⟩, "p.go", [], false⟩] := by
  rw [FileTree.walk, walkStart_root]
  have hfuel : (files.weight + 1) * (files.weight + 1) =
    (files.weight + 1) * files.weight + files.weight + 1 := rfl
  dsimp only
  rw [hfuel, OpenDir.below, sortedEntries_root]
  decide +kernel

/-- The tree of packages is that of the walk. -/
lemma packageTree_root : Project.packageTree files root "m" = .ok tree := by
  have hcollect : Project.collectSources [] (files.walk WalkEntry.isLeftOut root) =
      .ok [([], [⟨"/p.go"⟩])] := by
    rw [walk_root]
    decide +kernel
  have hname : Project.suggestedName "m" = "m" := by decide +kernel
  rw [Project.packageTree_of_own (by decide +kernel) hcollect, hname]
  rfl

/-- What the manifest says. -/
def manifest : Manifest :=
  ⟨"m", none, none, [], []⟩

/-- The manifest is read. -/
lemma read_manifest : Manifest.read files root = .ok manifest := by
  decide +kernel

/-- The run succeeds. -/
lemma run_succeeds : (Project.run files .default root).result.toOption.isSome = true := by
  rw [Project.run, read_manifest]
  dsimp only
  rw [Project.packagesIn]
  have hname : manifest.name = "m" := rfl
  rw [hname, packageTree_root]
  decide +kernel

/-- Of the two functions of the project the annotated one is served. -/
theorem greeter_serves_annotated :
    ∃ m manifest tree, (Project.run files .default root).result = .ok m ∧
      Manifest.read files root = .ok manifest ∧
      Project.packageTree files root manifest.name = .ok tree ∧
      (annotatedDecls files tree).map (·.decl.name.name) = ["F"] ∧
      Covers files tree m.services := by
  have hplain : files.PlainNames := by decide
  cases hrun : (Project.run files .default root).result with
  | error e =>
    have hsucceeds := run_succeeds
    rw [hrun] at hsucceeds
    cases hsucceeds
  | ok m =>
    obtain ⟨manifest', tree', hmanifest, htree, hcovers⟩ :=
      strict_run_serves_annotated hplain rfl hrun
    cases read_manifest.symm.trans hmanifest
    cases packageTree_root.symm.trans htree
    exact ⟨m, manifest, tree, rfl, hmanifest, htree, by decide +kernel, hcovers⟩

end Greeter

end GoService.Service
