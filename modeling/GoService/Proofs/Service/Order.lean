import GoService.Proofs.Lists
import GoService.Proofs.Resolution.Adequacy
import GoService.Run

/-!
# The order of a scan

A package is scanned file by file, and its functions come in the order of the files. So a scan looks
at the functions one after another, each of them once (`packageFunctions_eq`), and packages are
scanned one after another (`scanPackages_cons`). What they have makes up the model
(`scanned_of_modelOf`).
-/

namespace GoService

/-! ## Packages -/

namespace Package

variable (p : Package)

/-- The file of a function of a package is one of the package. -/
lemma file_mem {f : DeclaredFunc} (h : f ∈ p.funcs) : f.file ∈ p.files :=
  List.mem_of_getElem? (p.placed f h)

/-- The functions of the files, file by file, are the functions of the package. -/
lemma funcs_by_file :
    ((List.range p.files.length).flatMap fun i => p.funcs.filter (·.index == i)) = p.funcs := by
  refine flatMap_filter_eq p.ordered fun f hf => ?_
  exact (List.getElem?_eq_some_iff.1 (p.placed f hf)).1

end Package

namespace Service

open Data Package Resolution
open Project (Mode)

section

variable {names : KnownNames} {mode : Mode} {p : Package} {f : DeclaredFunc} {k : Known}

/-- A declaration without an annotation is passed over. -/
lemma outcome_scanFunction_of_not_annotated (h : ¬ isAnnotated f.decl) :
    outcome (scanFunction names mode p f) k = (.ok none, k) := by
  simp only [scanFunction, h, Bool.not_false, if_true]
  rfl

/-- An annotated function is dropped together with what was resolved for it, if its error allows. -/
lemma outcome_scanFunction_of_annotated (h : isAnnotated f.decl) :
    outcome (scanFunction names mode p f) k =
      match outcome (functionOf names ⟨p, f.file⟩ f.decl) k with
      | (.ok fn, k₁) => (.ok (some fn), k₁)
      | (.error e, k₁) =>
        if e.isDropped mode then (.ok none, k₁.withStructs (k₁.structs.rewind k.structs.mark))
        else (.error e, k₁) := by
  simp only [scanFunction, h, Bool.not_true, Bool.false_eq_true, if_false]
  rw [outcome_get_bind, outcome_tryCatch, map_eq_pure_bind, outcome_bind]
  obtain ⟨fn, k₁, ho⟩ | ⟨e, k₁, ho⟩ := outcome_cases (functionOf names ⟨p, f.file⟩ f.decl) k
  · rw [ho]
    rfl
  · rw [ho]
    by_cases hdrop : e.isDropped mode
    · simp only [hdrop, if_true]
      rfl
    · simp only [hdrop]
      rfl

end

section

variable (names : KnownNames) (mode : Mode) (p : Package)

/-- Without declarations nothing is scanned. -/
lemma functionsAmong_nil : functionsAmong names mode p [] = pure [] := by
  simp [functionsAmong]

/-- Declarations are scanned one after another. -/
lemma functionsAmong_cons (f : DeclaredFunc) (fs : List DeclaredFunc) :
    functionsAmong names mode p (f :: fs) = do
      let fn ← scanFunction names mode p f
      let fns ← functionsAmong names mode p fs
      return fn.toList ++ fns := by
  simp only [functionsAmong, List.mapM_cons, bind_assoc, pure_bind]
  congr 1
  funext o
  cases o <;> simp

/-- Declarations can be scanned in two parts. -/
lemma functionsAmong_append (fs gs : List DeclaredFunc) :
    functionsAmong names mode p (fs ++ gs) = do
      let fns ← functionsAmong names mode p fs
      let fns' ← functionsAmong names mode p gs
      return fns ++ fns' := by
  simp [functionsAmong, List.mapM_append]

/-- Declarations can be scanned part by part. -/
lemma functionsAmong_flatMap (parts : List Nat) (part : Nat → List DeclaredFunc) :
    functionsAmong names mode p (parts.flatMap part) = do
      return (← parts.mapM fun i => functionsAmong names mode p (part i)).flatten := by
  induction parts with
  | nil => simp [functionsAmong]
  | cons i parts ih =>
    rw [List.flatMap_cons, functionsAmong_append, ih]
    simp

/-- A scan of a package looks at its functions one after another. -/
lemma packageFunctions_eq :
    packageFunctions names mode p = functionsAmong names mode p p.funcs := by
  conv_rhs => rw [← p.funcs_by_file]
  rw [functionsAmong_flatMap]
  rfl

end

end Service

namespace Project

open Data Package Resolution

/-- Without packages nothing is scanned. -/
lemma scanPackages_nil (names : KnownNames) (mode : Mode) :
    scanPackages names mode [] = pure [] := by
  simp [scanPackages]

/-- Packages are scanned one after another, each with all its functions. -/
lemma scanPackages_cons (names : KnownNames) (mode : Mode) (p : Package) (ps : List Package) :
    scanPackages names mode (p :: ps) = do
      let fns ← ExceptT.adapt (RunError.scan p.importPath)
        (Service.functionsAmong names mode p p.funcs)
      let fns' ← scanPackages names mode ps
      return fns ++ fns' := by
  simp [scanPackages, Service.packageFunctions_eq]

/-- What a model is made of: the services that the functions found in the packages make up, and the
structs that are known after the scan. -/
lemma scanned_of_modelOf {settings : Settings} {manifest : Manifest} {packages : List Package}
    {store : LoadedPackages} {m : Model}
    (h : (modelOf settings manifest packages store).result = .ok m) :
    ∃ fns k' services,
      outcome (scanPackages (.ofFramework settings.framework) settings.mode packages)
        (.start store) = (.ok fns, k') ∧
      Service.ofFunctions packages k'.structs fns = .ok services ∧
      (modelOf settings manifest packages store).structs = k'.structs ∧
      m = .ofServices manifest.name manifest.goVersion services k'.structs := by
  obtain ⟨fns, k', ho⟩ | ⟨e, k', ho⟩ := outcome_cases
    (scanPackages (.ofFramework settings.framework) settings.mode packages) (.start store)
  · have hscan := ho
    rw [outcome] at ho
    simp only [modelOf, ho] at h ⊢
    cases hs : Service.ofFunctions packages k'.structs fns with
    | error e =>
      simp only [hs] at h
      cases h
    | ok services =>
      simp only [hs] at h
      cases h
      exact ⟨fns, k', services, hscan, hs, rfl, rfl⟩
  · rw [outcome] at ho
    simp only [modelOf, ho] at h
    cases h

end Project

end GoService
