import GoService.Proofs.Dictionaries
import GoService.Proofs.Resolution.Meaning
import GoService.Proofs.Service.Coverage

/-!
# Functions by key

A model has its functions twice: in the services and by key. A key determines the service, as no two
services have one name, and the name of the function, as a name has no dot (`key_injective`). So the
two views agree as long as no service has two functions of one name; of such functions only the last
is found by key (`run_indexes_functions`). A package may have them: nothing keeps two of its files
from declaring the same function.
-/

namespace GoService.Service

open Data Package Resolution
open Project (Mode FileTree FilePath PackageDir Settings Manifest OpenDir WalkEntry)

/-! ## What a scan makes of functions -/

section

variable {names : KnownNames} {mode : Mode} {p : Package} {k k' : Known}

/-- The functions of a scan are made of declarations. -/
lemma makes_of_functionsAmong {fs : List DeclaredFunc} {fns : List Function}
    (h : outcome (functionsAmong names mode p fs) k = (.ok fns, k')) :
    ∀ fn ∈ fns, ∃ f, Makes p f fn := by
  induction fs generalizing k fns with
  | nil =>
    rw [functionsAmong_nil] at h
    cases h
    exact fun fn hfn => nomatch hfn
  | cons f fs ih =>
    rw [functionsAmong_cons] at h
    obtain ⟨o, k₁, hscan, h⟩ := exists_of_outcome_bind h
    obtain ⟨fns₁, k₂, hrest, hret⟩ := exists_of_outcome_bind h
    cases hret
    intro fn hfn
    rcases List.mem_append.1 hfn with hfn | hfn
    · obtain rfl := Option.mem_toList.1 hfn
      exact ⟨f, makes_of_scanFunction hscan⟩
    · exact ih hrest fn hfn

/-- Every function that is found, in whatever mode, is made of one that a package has. -/
lemma makes_of_scanPackages {ps : List Package} {fns : List Function}
    (h : outcome (Project.scanPackages names mode ps) k = (.ok fns, k')) :
    ∀ fn ∈ fns, ∃ p ∈ ps, ∃ f, Makes p f fn := by
  induction ps generalizing k fns with
  | nil =>
    rw [Project.scanPackages_nil] at h
    cases h
    exact fun fn hfn => nomatch hfn
  | cons p ps ih =>
    rw [Project.scanPackages_cons] at h
    obtain ⟨fns₁, k₁, hscan, h⟩ := exists_of_outcome_bind h
    obtain ⟨fns₂, k₂, hrest, hret⟩ := exists_of_outcome_bind h
    cases hret
    intro fn hfn
    rcases List.mem_append.1 hfn with hfn | hfn
    · exact ⟨p, List.mem_cons_self .., makes_of_functionsAmong (outcome_adapt_eq_ok.1 hscan) fn hfn⟩
    · obtain ⟨p', hp', hmakes⟩ := ih hrest fn hfn
      exact ⟨p', List.mem_cons_of_mem _ hp', hmakes⟩

end

/-! ## Keys -/

/-- The name of a function has no dot. -/
lemma Makes.dot_notMem {p : Package} {f : DeclaredFunc} {fn : Function} (h : Makes p f fn) :
    '.' ∉ fn.name.toList := by
  rw [h.name]
  exact f.decl.name.word.dot_notMem

/-- Functions without dots in their names have one key only if service and name are the same. -/
lemma key_injective {f g : Function} (hf : '.' ∉ f.name.toList) (hg : '.' ∉ g.name.toList)
    (h : f.key = g.key) : f.service = g.service ∧ f.name = g.name := by
  have hsplit : splitKey? f.key = some (f.service, f.name) := splitKey?_declKey hf
  have hsplit' : splitKey? g.key = some (g.service, g.name) := splitKey?_declKey hg
  rw [h, hsplit', Option.some_inj, Prod.mk.injEq] at hsplit
  exact ⟨hsplit.1.symm, hsplit.2.symm⟩

/-- Services whose functions have keys that determine the service and the name. -/
structure Keyed (ss : List GoService.Service) : Prop where
  names : (ss.map (·.name)).Nodup
  service : ∀ s ∈ ss, ∀ f ∈ s.fns, f.service = s.name
  undotted : ∀ s ∈ ss, ∀ f ∈ s.fns, '.' ∉ f.name.toList

/-- No two functions have one key exactly if no service has two functions of one name. -/
lemma Keyed.nodup_keys_iff {ss : List GoService.Service} (h : Keyed ss) :
    ((ss.flatMap (·.fns)).map (·.key)).Nodup ↔ ∀ s ∈ ss, (s.fns.map (·.name)).Nodup := by
  have hsame : ∀ s ∈ ss, ((s.fns.map (·.key)).Nodup ↔ (s.fns.map (·.name)).Nodup) := by
    intro s hs
    have hkeys : s.fns.map (·.key) = (s.fns.map (·.name)).map (declKey s.name) := by
      rw [List.map_map]
      exact List.map_congr_left fun f hf => congrArg (declKey · f.name) (h.service s hs f hf)
    rw [hkeys]
    constructor
    · exact List.Nodup.of_map _
    · refine List.Nodup.map_on fun x hx y hy heq => ?_
      obtain ⟨f, hf, rfl⟩ := List.mem_map.1 hx
      obtain ⟨g, hg, rfl⟩ := List.mem_map.1 hy
      have hsplit : splitKey? (declKey s.name f.name) = some (s.name, f.name) :=
        splitKey?_declKey (h.undotted s hs f hf)
      rw [heq, splitKey?_declKey (h.undotted s hs g hg), Option.some_inj, Prod.mk.injEq] at hsplit
      exact hsplit.2.symm
  have hapart : ss.Pairwise fun s s' =>
      (s.fns.map (·.key)).Disjoint (s'.fns.map (·.key)) := by
    refine (List.pairwise_map.1 h.names).imp_of_mem fun {s s'} hs hs' hne => ?_
    intro key hkey hkey'
    obtain ⟨f, hf, rfl⟩ := List.mem_map.1 hkey
    obtain ⟨g, hg, heq⟩ := List.mem_map.1 hkey'
    have hservice := (key_injective (h.undotted s hs f hf) (h.undotted s' hs' g hg) heq.symm).1
    rw [h.service s hs f hf, h.service s' hs' g hg] at hservice
    exact hne hservice
  rw [List.map_flatMap, List.nodup_flatMap]
  constructor
  · intro hnodup s hs
    exact (hsame s hs).1 (hnodup.1 s hs)
  · intro hnames
    exact ⟨fun s hs => (hsame s hs).2 (hnames s hs), hapart⟩

/-! ## The two views -/

/-- The functions by key are those of the services, all of them and no others. -/
structure ViewsAgree (m : Model) : Prop where
  found : ∀ s ∈ m.services, ∀ f ∈ s.fns, m.fns.get? (s.name ++ "." ++ f.name) = some f
  size : m.fns.size = (m.services.flatMap (·.fns)).length

/-- The functions of a model can be found by key, though of those with one key only the last. The
views agree just if no service has two functions of one name. -/
structure Indexed (m : Model) : Prop where
  sorted : m.fns.keys.Pairwise (· < ·)
  key : ∀ s ∈ m.services, ∀ f ∈ s.fns, f.key = s.name ++ "." ++ f.name
  last : ∀ key, m.fns.get? key =
    ((m.services.flatMap (·.fns)).filter (·.key == key)).getLast?
  agree_iff : ViewsAgree m ↔ ∀ s ∈ m.services, (s.fns.map (·.name)).Nodup

section

variable {ss : List GoService.Service} {module : String} {goVersion : Option String}
variable {structs : StructTable}

/-- No function is lost by key just if no two have the same key. -/
lemma size_fns_ofServices :
    (Model.ofServices module goVersion ss structs).fns.size = (ss.flatMap (·.fns)).length ↔
      ((ss.flatMap (·.fns)).map (·.key)).Nodup := by
  have hsize := Dict.size_ofEntries_iff ((ss.flatMap (·.fns)).map fun f => (f.key, f))
  rw [List.length_map, List.map_map] at hsize
  rw [Model.ofServices, Dict.size_sortedByKey]
  exact hsize

/-- A model of services with determined keys is indexed. -/
lemma indexed_ofServices (h : Keyed ss) :
    Indexed (.ofServices module goVersion ss structs) := by
  have hkey : ∀ s ∈ ss, ∀ f ∈ s.fns, f.key = s.name ++ "." ++ f.name := fun s hs f hf =>
    congrArg (· ++ "." ++ f.name) (h.service s hs f hf)
  refine ⟨Dict.keys_sortedByKey _, hkey, ?_, ?_⟩
  · intro key
    refine (Dict.get?_sortedByKey _ key).trans ((Dict.get?_ofEntries ..).trans ?_)
    rw [List.filter_map, List.map_map]
    exact congrArg List.getLast? (List.map_id _)
  · constructor
    · exact fun hviews => h.nodup_keys_iff.1 (size_fns_ofServices.1 hviews.size)
    · intro hnames
      have hkeys := h.nodup_keys_iff.2 hnames
      refine ⟨fun s hs f hf => ?_, size_fns_ofServices.2 hkeys⟩
      rw [← hkey s hs f hf]
      refine (Dict.get?_sortedByKey _ f.key).trans (Dict.get?_eq_some_iff.2 ?_)
      rw [Dict.entries_ofEntries (by rwa [List.map_map])]
      exact List.mem_map_of_mem (List.mem_flatMap.2 ⟨s, hs, hf⟩)

end

/-! ## Runs -/

/-- The services of a scan have functions with determined keys. -/
lemma keyed_of_ofFunctions {names : KnownNames} {mode : Mode} {packages : List Package}
    {k k' : Known} {fns : List Function} {ss : List GoService.Service}
    (hdistinct : (packages.map (·.importPath)).Nodup)
    (hscan : outcome (Project.scanPackages names mode packages) k = (.ok fns, k'))
    (hss : ofFunctions packages k'.structs fns = .ok ss) : Keyed ss := by
  have hmakes := makes_of_scanPackages hscan
  have hserves := servesAll_of_ofFunctions hss
  have hnamed := hserves.named hdistinct fun fn hfn => by
    obtain ⟨p, hp, f, hmade⟩ := hmakes fn hfn
    exact ⟨p, hp, hmade.package, hmade.service⟩
  refine ⟨nodup_names_of_ofFunctions hss, fun s hs f hf => ((hnamed s hs).2 f hf).1, ?_⟩
  intro s hs fn hfn
  have hmem : fn ∈ fns := hserves.perm.mem_iff.1 (List.mem_flatMap.2 ⟨s, hs, hfn⟩)
  obtain ⟨p, -, f, hmade⟩ := hmakes fn hmem
  exact hmade.dot_notMem

/-- In the model of a run that succeeds functions are found by key, in whatever mode and whatever
the files are, as long as their names have no slashes; the two views of the functions agree just if
no service has two functions of one name. -/
theorem run_indexes_functions {files : FileTree} {settings : Settings} {dir : FilePath} {m : Model}
    (hfiles : files.PlainNames) (h : (Project.run files settings dir).result = .ok m) :
    Indexed m := by
  obtain ⟨manifest, tree, packages, store, hmanifest, htree, hpackages, h⟩ := modelOf_of_run h
  obtain ⟨fns, k', services, hscan, hservices, -, rfl⟩ := Project.scanned_of_modelOf h
  have hpaths := importPaths_eq (loaded_of_loadPackages hpackages)
  have hdistinct : (packages.map (·.importPath)).Nodup := by
    rw [hpaths]
    exact Project.importPaths_nodup hfiles htree
  exact indexed_ofServices (keyed_of_ofFunctions hdistinct hscan hservices)

/-! ## A function that two platforms have -/

namespace Platforms

/-- A service with a function in a file for one platform. -/
def linuxText : String :=
  "// @service s\npackage p\n\nimport \"github.com/svcgen/rt\"\n\n// @fn\nfunc F(rt.Context) error\n"

/-- The same function in a file for another platform. -/
def windowsText : String :=
  "package p\n\nimport \"github.com/svcgen/rt\"\n\n// @fn\nfunc F(rt.Context) error\n"

/-- The files of the project. -/
def files : FileTree :=
  .dir [("a_linux.go", .file linuxText.toUTF8), ("a_windows.go", .file windowsText.toUTF8),
    ("go.mod", .file "module m\n".toUTF8)]

/-- The root of the project. -/
def root : FilePath := ⟨"/"⟩

/-- The packages of the project, of which there is one. -/
def tree : PackageDir :=
  .node "m" "m" root [⟨"/a_linux.go"⟩, ⟨"/a_windows.go"⟩] []

/-- What the manifest says. -/
def manifest : Manifest :=
  ⟨"m", none, none, [], []⟩

/-- The packages as they are loaded. -/
def packages : List Package :=
  (Project.loadPackages files "m" tree.packages).toOption.getD []

/-- The packages at hand in the run. -/
def store : LoadedPackages :=
  packages.foldl LoadedPackages.insert
    (.ofSource (.ofFiles files (.ofProject files root manifest .default)))

/-- The manifest is read. -/
lemma read_manifest : Manifest.read files root = .ok manifest := by
  decide +kernel

/-- The root as a walk opens it. -/
def rootDir : OpenDir :=
  ⟨[], root, [], files.entries⟩

/-- The entries of the root are in order. -/
lemma sortedEntries_root : rootDir.sortedEntries = files.entries :=
  List.mergeSort_of_pairwise (by decide +kernel)

/-- A walk meets both files and the manifest. -/
lemma walk_root : files.walk WalkEntry.isLeftOut root =
    [.ok ⟨⟨"/a_linux.go"⟩, "a_linux.go", [], false⟩,
      .ok ⟨⟨"/a_windows.go"⟩, "a_windows.go", [], false⟩,
      .ok ⟨⟨"/go.mod"⟩, "go.mod", [], false⟩] := by
  have hstart : files.walkStart root = .ok (some rootDir) := rfl
  have hfuel : (files.weight + 1) * (files.weight + 1) =
    (files.weight + 1) * files.weight + files.weight + 1 := rfl
  rw [FileTree.walk, hstart]
  dsimp only
  rw [hfuel, OpenDir.below, sortedEntries_root]
  decide +kernel

/-- The tree of packages is that of the walk. -/
lemma packageTree_root : Project.packageTree files root "m" = .ok tree := by
  have hcollect : Project.collectSources [] (files.walk WalkEntry.isLeftOut root) =
      .ok [([], [⟨"/a_linux.go"⟩, ⟨"/a_windows.go"⟩])] := by
    rw [walk_root]
    decide +kernel
  have hname : Project.suggestedName "m" = "m" := by decide +kernel
  rw [Project.packageTree_of_own (by decide +kernel) hcollect, hname]
  rfl

/-- The packages can be loaded, the scan finds a function in each file, and a model is made. -/
lemma run_found :
    (Project.loadPackages files "m" tree.packages).toOption.isSome = true ∧
    (outcome (Project.scanPackages (.ofFramework Settings.default.framework)
      Settings.default.mode packages) (.start store)).1.toOption.map (·.map (·.key)) =
        some ["s.F", "s.F"] ∧
    (Project.modelOf .default manifest packages store).result.toOption.isSome = true := by
  decide +kernel

/-- The packages are loaded. -/
lemma loadPackages_root : Project.loadPackages files "m" tree.packages = .ok packages := by
  have hloads := run_found.1
  cases h : Project.loadPackages files "m" tree.packages with
  | error e =>
    rw [h] at hloads
    cases hloads
  | ok ps =>
    rw [packages, h]
    rfl

/-- The run makes a model of the packages. -/
lemma run_root :
    Project.run files .default root = Project.modelOf .default manifest packages store := by
  have hpackages : Project.packagesIn files root manifest =
      Project.loadPackages files "m" tree.packages := by
    have hname : manifest.name = "m" := rfl
    simp only [Project.packagesIn, hname, packageTree_root, Except.mapError, bind, Except.bind]
  rw [Project.run, read_manifest]
  simp only [hpackages, loadPackages_root, store]

/-- The run succeeds. -/
lemma run_succeeds : ∃ m, (Project.run files .default root).result = .ok m := by
  have hsucceeds := run_found.2.2
  rw [← run_root] at hsucceeds
  cases h : (Project.run files .default root).result with
  | error e =>
    rw [h] at hsucceeds
    cases hsucceeds
  | ok m => exact ⟨m, rfl⟩

/-- The functions of the project are found by key, as those of any project. -/
theorem platform_functions_indexed :
    files.PlainNames ∧ ∃ m, (Project.run files .default root).result = .ok m ∧ Indexed m := by
  have hplain : files.PlainNames := by decide
  obtain ⟨m, hrun⟩ := run_succeeds
  exact ⟨hplain, m, hrun, run_indexes_functions hplain hrun⟩

/-- The service of the project has a function of each platform under one key, so by key one of them
is lost. -/
theorem platform_views_disagree :
    ∃ m, (Project.run files .default root).result = .ok m ∧
      (m.services.flatMap (·.fns)).map (·.key) = ["s.F", "s.F"] ∧ ¬ ViewsAgree m := by
  obtain ⟨m, hrun⟩ := run_succeeds
  refine ⟨m, hrun, ?_⟩
  rw [run_root] at hrun
  obtain ⟨fns, k', services, hscan, hservices, -, rfl⟩ := Project.scanned_of_modelOf hrun
  have hfound : fns.map (·.key) = List.replicate 2 "s.F" := by
    have hkeys := run_found.2.1
    rw [hscan] at hkeys
    exact Option.some_inj.1 hkeys
  have hperm := (servesAll_of_ofFunctions hservices).perm.map (·.key)
  rw [hfound, List.perm_replicate] at hperm
  refine ⟨hperm, fun hviews => ?_⟩
  have hnodup := size_fns_ofServices.1 hviews.size
  rw [hperm] at hnodup
  revert hnodup
  decide

end Platforms

end GoService.Service
