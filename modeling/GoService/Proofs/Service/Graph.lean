import GoService.Proofs.Resolution.Closure
import GoService.Proofs.Service.Coverage
import GoService.Proofs.Service.Permissive

/-!
# The graph of structs behind services

A scan that starts from a closed table ends with one, and every struct that a function takes or
gives is in it; a function that is left out leaves the table as it was. So the structs in the model
of a project are closed under reference, and contain the components of every service.

* `componentsOf_subset`: what can be reached from keys of a closed table is in the table.
* `scanPackages_closed`, `run_closed`: scans and runs that succeed.
-/

namespace GoService.Service

open Data Package Resolution
open Project (FileTree FilePath Settings Mode)

/-! ## Components -/

/-- A struct in a closed table refers only to keys of the table. -/
lemma references_subset {structs : StructTable} (h : structs.Closed) (key : String) :
    references structs key ⊆ structs.keys := by
  rw [references]
  split
  · next s hs =>
    intro key' hkey'
    obtain ⟨f, hf, hkey'⟩ := List.mem_flatMap.1 hkey'
    exact (h.fields (StructTable.mem_of_get? hs)).within f hf hkey'
  · exact List.nil_subset _

/-- A visit that starts among the keys of a closed table stays among them. -/
lemma reach_subset {structs : StructTable} (h : structs.Closed) (seen pending : List String)
    (hseen : seen ⊆ structs.keys) (hpending : pending ⊆ structs.keys) :
    reach structs seen pending ⊆ structs.keys := by
  induction seen, pending using reach.induct structs with
  | case1 seen =>
    rw [reach]
    exact hseen
  | case2 seen key pending hin ih =>
    rw [reach, if_pos hin]
    exact ih hseen (List.subset_of_cons_subset hpending)
  | case3 seen key pending hout ih =>
    rw [reach, if_neg hout]
    have hkey : key ∈ structs.keys := hpending (List.mem_cons_self ..)
    apply ih
    · exact List.cons_subset.2 ⟨hkey, hseen⟩
    · exact List.append_subset.2 ⟨references_subset h key, List.subset_of_cons_subset hpending⟩

/-- The components of functions that mention structs of a closed table are in the table. -/
lemma componentsOf_subset {structs : StructTable} (h : structs.Closed) {fns : List Function}
    (hfns : ∀ f ∈ fns, f.structKeys ⊆ structs.keys) :
    componentsOf structs fns ⊆ structs.keys := by
  intro key hkey
  apply reach_subset h [] _ (List.nil_subset _) _ (List.mem_mergeSort.1 hkey)
  intro key' hkey'
  obtain ⟨f, hf, hkey'⟩ := List.mem_flatMap.1 hkey'
  exact hfns f hf hkey'

/-! ## Scans -/

/-- The table has grown to a closed one that holds the mentioned keys. -/
structure Keeps (k : Known) (mentioned : List String) (k' : Known) : Prop where
  grows : k.structs.Grows k'.structs
  closed : k'.structs.Closed
  mentioned : mentioned ⊆ k'.structs.keys

namespace Keeps

variable {k k₁ k' : Known} {keys keys₁ : List String}

/-- A closed table is kept as it is. -/
lemma refl (h : k.structs.Closed) : Keeps k [] k :=
  ⟨.refl _, h, List.nil_subset _⟩

/-- What is kept in two steps is kept. -/
lemma trans (h : Keeps k keys k₁) (h₁ : Keeps k₁ keys₁ k') : Keeps k (keys ++ keys₁) k' := by
  refine ⟨h.grows.trans h₁.grows, h₁.closed, List.append_subset.2 ⟨?_, h₁.mentioned⟩⟩
  exact List.Subset.trans h.mentioned h₁.grows.keys

end Keeps

/-- A computation that leads from closed tables which hold the given keys to closed tables which
hold the mentioned ones. -/
def KeepsClosed (x : ExceptT ε (StateM Known) α) (given : List String)
    (mentioned : α → List String) : Prop :=
  ∀ k, k.structs.Closed → given ⊆ k.structs.keys →
    Ends x k (fun a k' => Keeps k (mentioned a) k') fun _ k' => k.structs.Grows k'.structs

namespace KeepsClosed

variable {ε α β : Type} {given : List String} {mentioned : α → List String}

/-- A value that mentions only given keys keeps tables closed. -/
lemma pure {a : α} (h : mentioned a ⊆ given) :
    KeepsClosed (pure a : ExceptT ε (StateM Known) α) given mentioned :=
  fun _ hk hgiven => .pure ⟨.refl _, hk, List.Subset.trans h hgiven⟩

/-- An error keeps tables closed. -/
lemma throw (e : ε) : KeepsClosed (throw e : ExceptT ε (StateM Known) α) given mentioned :=
  fun _ _ _ => .throw (.refl _)

/-- What is settled without the table keeps it closed. -/
lemma liftExcept (r : Except ε α) :
    KeepsClosed (liftExcept r : ExceptT ε (StateM Known) α) [] fun _ => [] := by
  cases r with
  | ok a => exact pure (List.nil_subset _)
  | error e => exact throw e

/-- The second part of a sequence is given what the first mentions. -/
lemma bind {x : ExceptT ε (StateM Known) α} {f : α → ExceptT ε (StateM Known) β}
    {mentioned' : β → List String} (hx : KeepsClosed x given mentioned)
    (hf : ∀ a, KeepsClosed (f a) (given ++ mentioned a) mentioned') :
    KeepsClosed (x >>= f) given mentioned' := by
  intro k hk hgiven
  refine .bind ((hx k hk hgiven).imp (fun {a k₁} h => ?_) id)
  have hgiven₁ : given ++ mentioned a ⊆ k₁.structs.keys :=
    List.append_subset.2 ⟨List.Subset.trans hgiven h.grows.keys, h.mentioned⟩
  refine (hf a k₁ h.closed hgiven₁).imp (fun h' => ?_) h.grows.trans
  exact ⟨h.grows.trans h'.grows, h'.closed, h'.mentioned⟩

/-- What is given may be more, and what is mentioned less. -/
lemma weaken {x : ExceptT ε (StateM Known) α} {given' : List String} {mentioned' : α → List String}
    (hx : KeepsClosed x given mentioned) (hgiven : given ⊆ given')
    (hmentioned : ∀ a, mentioned' a ⊆ mentioned a) : KeepsClosed x given' mentioned' :=
  fun k hk hk' => (hx k hk (List.Subset.trans hgiven hk')).imp
    (fun {a _} h => ⟨h.grows, h.closed, List.Subset.trans (hmentioned a) h.mentioned⟩) id

/-- A value that is not looked at mentions nothing. -/
lemma discard {x : ExceptT ε (StateM Known) α} (hx : KeepsClosed x given mentioned) :
    KeepsClosed (Functor.discard x) given fun _ => [] :=
  bind hx fun _ => pure (List.nil_subset _)

/-- Going through a list keeps tables closed if each step does. -/
lemma mapM {f : β → ExceptT ε (StateM Known) α} {xs : List β}
    (hf : ∀ x ∈ xs, KeepsClosed (f x) given mentioned) :
    KeepsClosed (xs.mapM f) given fun as => as.flatMap mentioned := by
  induction xs with
  | nil => exact pure (List.nil_subset _)
  | cons x xs ih =>
    rw [List.mapM_cons]
    refine bind (hf x (List.mem_cons_self ..)) fun a => ?_
    have hxs := ih fun y hy => hf y (List.mem_cons_of_mem _ hy)
    refine bind (hxs.weaken (List.subset_append_left ..) fun _ => List.Subset.refl _) fun as => ?_
    refine pure ?_
    rw [List.flatMap_cons, List.append_assoc]
    exact List.subset_append_right ..

end KeepsClosed

section Functions

variable (names : KnownNames) (site : Site) {given : List String}

/-- The type of an operand keeps tables closed. -/
lemma operandType_keepsClosed (s : Operand) :
    KeepsClosed (operandType names site s) given fun t => t.structKeys := by
  intro k hk _
  refine .adapt ((resolve_closed names site s.type hk).imp ?_ ?_)
  · intro t k' ⟨hgrows, hclosed, ht⟩
    exact ⟨hgrows, hclosed, ht⟩
  · intro e k' hsame
    rw [hsame]
    exact .refl _

/-- An operand of a wanted type keeps tables closed. -/
lemma operandOf_keepsClosed (wanted : DataType → Bool) (fault : String → FunctionError)
    (s : Operand) :
    KeepsClosed (operandOf names site wanted fault s) given fun t => t.structKeys := by
  refine .bind (operandType_keepsClosed names site s) fun t => ?_
  by_cases hw : wanted t
  · rw [if_pos hw]
    exact .pure (List.subset_append_right ..)
  · rw [if_neg hw]
    exact .throw _

/-- The keys that the value in an operand mentions, if there is one. -/
def carriedKeys (c : Option Carried) : List String :=
  c.toList.flatMap (·.type.structKeys)

/-- An operand that may carry a struct keeps tables closed. -/
lemma carriedOf_keepsClosed (fault : String → FunctionError) (s : Option Operand) :
    KeepsClosed (carriedOf names site fault s) given carriedKeys := by
  cases s with
  | none => exact .pure (List.nil_subset _)
  | some s =>
    refine .bind (operandOf_keepsClosed names site canCarry fault s) fun t => .pure ?_
    simp [carriedKeys]

/-- The types of a service function are resolved one after another. -/
lemma functionOf_keepsClosed (d : Source.FuncDecl) :
    KeepsClosed (functionOf names site d) given Function.structKeys := by
  rw [functionOf]
  refine .bind ((KeepsClosed.liftExcept _).weaken (List.nil_subset _) fun _ => .refl _)
    fun shape => ?_
  refine .bind (.discard (operandOf_keepsClosed names site _ _ shape.context)) fun _ => ?_
  refine .bind (carriedOf_keepsClosed names site _ shape.param) fun param => ?_
  refine .bind (carriedOf_keepsClosed names site _ shape.result) fun result => ?_
  refine .bind (.discard (operandOf_keepsClosed names site _ _ shape.error)) fun _ => .pure ?_
  simp [Function.structKeys, carriedKeys]

end Functions

/-- The keys that functions mention. -/
def functionKeys (fns : List Function) : List String :=
  fns.flatMap Function.structKeys

section Scans

variable (names : KnownNames) (mode : Mode) (p : Package)

/-- A function is scanned; if it is left out, the table is as it was. -/
lemma scanFunction_ends (f : DeclaredFunc) {k : Known} (hk : k.structs.Closed) :
    Ends (scanFunction names mode p f) k
      (fun o k' => Keeps k (functionKeys o.toList) k' ∧ (o = none → k'.structs = k.structs))
      fun _ k' => k.structs.Grows k'.structs := by
  rw [scanFunction]
  by_cases hf : isAnnotated f.decl
  · simp only [hf, Bool.not_true, Bool.false_eq_true, if_false]
    refine .bind (.get (.tryCatch ?_))
    rw [map_eq_pure_bind]
    refine .bind ((functionOf_keepsClosed names ⟨p, f.file⟩ f.decl k hk (List.nil_subset _)).imp
      (fun {fn k₁} h => .pure ⟨?_, fun hnone => absurd hnone (Option.some_ne_none fn)⟩)
      (fun {e k₁} h => ?_))
    · simpa [functionKeys] using h
    · split
      · refine .bind (.modify (.pure ?_))
        have hsame : (k₁.withStructs (k₁.structs.rewind k.structs.mark)).structs = k.structs :=
          h.rewind
        refine ⟨⟨?_, ?_, List.nil_subset _⟩, fun _ => hsame⟩
        · rw [hsame]
          exact .refl _
        · rw [hsame]
          exact hk
      · exact .throw h
  · simp only [hf, Bool.not_false, if_true]
    exact .pure ⟨.refl hk, fun _ => rfl⟩

/-- Scanning a declaration keeps tables closed. -/
lemma scanFunction_keepsClosed (f : DeclaredFunc) :
    KeepsClosed (scanFunction names mode p f) [] fun o => functionKeys o.toList :=
  fun _ hk _ => (scanFunction_ends names mode p f hk).imp And.left id

/-- Scanning declarations keeps tables closed. -/
lemma functionsAmong_keepsClosed (fs : List DeclaredFunc) :
    KeepsClosed (functionsAmong names mode p fs) [] functionKeys := by
  rw [functionsAmong]
  refine .bind (.mapM fun f _ => scanFunction_keepsClosed names mode p f) fun os => .pure ?_
  intro key hkey
  obtain ⟨fn, hfn, hkey⟩ := List.mem_flatMap.1 hkey
  obtain ⟨o, ho, rfl⟩ := List.mem_filterMap.1 hfn
  refine List.mem_flatMap.2 ⟨some fn, ho, ?_⟩
  simpa [functionKeys] using hkey

/-- Functions in parts mention no more keys than the parts do. -/
lemma functionKeys_flatten (fnss : List (List Function)) :
    functionKeys fnss.flatten ⊆ [] ++ fnss.flatMap functionKeys := by
  intro key hkey
  obtain ⟨fn, hfn, hkey⟩ := List.mem_flatMap.1 hkey
  obtain ⟨fns, hfns, hfn⟩ := List.mem_flatten.1 hfn
  exact List.mem_flatMap.2 ⟨fns, hfns, List.mem_flatMap.2 ⟨fn, hfn, hkey⟩⟩

/-- Scanning a package keeps tables closed. -/
lemma packageFunctions_keepsClosed :
    KeepsClosed (packageFunctions names mode p) [] functionKeys := by
  rw [packageFunctions]
  exact .bind (.mapM fun i _ => functionsAmong_keepsClosed names mode p _) fun fnss =>
    .pure (functionKeys_flatten fnss)

end Scans

/-- Scanning packages keeps tables closed. -/
lemma scanPackages_keepsClosed (names : KnownNames) (mode : Mode) (packages : List Package) :
    KeepsClosed (Project.scanPackages names mode packages) [] functionKeys := by
  rw [Project.scanPackages]
  refine .bind (.mapM fun p _ => ?_) fun fnss => .pure (functionKeys_flatten fnss)
  intro k hk hgiven
  exact .adapt (packageFunctions_keepsClosed names mode p k hk hgiven)

/-! ## Services -/

/-- A service whose components and functions mention only the given keys. -/
structure ServiceWithin (keys : List String) (s : GoService.Service) : Prop where
  components : s.components ⊆ keys
  fns : functionKeys s.fns ⊆ keys

variable {packages : List Package} {structs : StructTable}

/-- A service whose functions are within a closed table is within it. -/
lemma within_ofGroup (h : structs.Closed) {g : Group}
    (hg : ∀ f ∈ g.fns, f.structKeys ⊆ structs.keys) {s : GoService.Service}
    (hs : ofGroup packages structs g = .ok s) : ServiceWithin structs.keys s := by
  simp only [ofGroup] at hs
  split at hs
  · cases hs
  · cases hs
    refine ⟨componentsOf_subset h hg, ?_⟩
    intro key hkey
    obtain ⟨f, hf, hkey⟩ := List.mem_flatMap.1 hkey
    exact hg f (List.mem_mergeSort.1 hf) hkey

/-- All services are within a closed table if all functions are. -/
lemma within_ofFunctions (h : structs.Closed) {fns : List Function}
    (hfns : functionKeys fns ⊆ structs.keys) {services : List GoService.Service}
    (hs : ofFunctions packages structs fns = .ok services) :
    ∀ s ∈ services, ServiceWithin structs.keys s := by
  obtain ⟨unsorted, hgroups, hperm⟩ := services_of_ofFunctions hs
  intro s hmem
  obtain ⟨g, hg, hs⟩ := exists_of_forall₂ hgroups (hperm.mem_iff.1 hmem)
  refine within_ofGroup h ?_ hs
  intro f hf
  obtain ⟨path, -, rfl⟩ := List.mem_map.1 hg
  intro key hkey
  exact hfns (List.mem_flatMap.2 ⟨f, (List.mem_filter.1 hf).1, hkey⟩)

/-! ## Models -/

/-- The structs of a model stand at their own keys, their fields have different names, and nothing
in the model mentions a struct that is not among them. -/
structure ModelClosed (m : Model) : Prop where
  keyed : ∀ e ∈ m.structs.entries, e.2.key = e.1
  fields : ∀ e ∈ m.structs.entries, FieldsWithin m.structs.keys e.2.fields
  services : ∀ s ∈ m.services, ServiceWithin m.structs.keys s
  fns : ∀ e ∈ m.fns.entries, e.2.structKeys ⊆ m.structs.keys

/-- Every key of a closed table has a finished struct. -/
lemma exists_mem_finished (h : structs.Closed) {key : String} (hkey : key ∈ structs.keys) :
    ∃ s, (key, s) ∈ structs.finished := by
  obtain ⟨⟨_, state⟩, he, rfl⟩ := List.mem_map.1 hkey
  cases state with
  | inProgress => exact absurd rfl (h.finished _ he)
  | resolved s => exact ⟨s, List.mem_filterMap.2 ⟨_, he, rfl⟩⟩

/-- A finished struct is an entry of the table. -/
lemma mem_entries_of_mem_finished {e : String × Struct} (h : e ∈ structs.finished) :
    (e.1, .resolved e.2) ∈ structs.states.entries := by
  obtain ⟨⟨key, state⟩, he, h⟩ := List.mem_filterMap.1 h
  cases state with
  | inProgress => cases h
  | resolved s =>
    cases h
    exact he

/-- A model with a closed table and services within it is closed. -/
lemma closed_ofServices (h : structs.Closed) {services : List GoService.Service}
    (hs : ∀ s ∈ services, ServiceWithin structs.keys s) (module : String)
    (goVersion : Option String) :
    ModelClosed (Model.ofServices module goVersion services structs) := by
  have hkeys :
      structs.keys ⊆ (Model.ofServices module goVersion services structs).structs.keys := by
    intro key hkey
    obtain ⟨s, hs⟩ := exists_mem_finished h hkey
    have hmem := Dict.mem_keys_ofEntries hs
    obtain ⟨e, he, heq⟩ := List.mem_map.1 hmem
    exact List.mem_map.2 ⟨e, Dict.mem_entries_sortedByKey.2 he, heq⟩
  have hstructs : ∀ e ∈ (Model.ofServices module goVersion services structs).structs.entries,
      (e.1, .resolved e.2) ∈ structs.states.entries := by
    intro e he
    exact mem_entries_of_mem_finished
      (Dict.mem_entries_ofEntries (Dict.mem_entries_sortedByKey.1 he))
  refine ⟨?_, ?_, ?_, ?_⟩
  · intro e he
    exact h.keyed (hstructs e he)
  · intro e he
    exact (h.fields (hstructs e he)).mono hkeys
  · intro s hmem
    exact ⟨List.Subset.trans (hs s hmem).components hkeys,
      List.Subset.trans (hs s hmem).fns hkeys⟩
  · intro e he
    have hmem := Dict.mem_entries_ofEntries (Dict.mem_entries_sortedByKey.1 he)
    obtain ⟨f, hf, rfl⟩ := List.mem_map.1 hmem
    obtain ⟨s, hsmem, hf⟩ := List.mem_flatMap.1 hf
    intro key hkey
    exact hkeys ((hs s hsmem).fns (List.mem_flatMap.2 ⟨f, hf, hkey⟩))

/-- The model of packages, once it is had, is closed, and so is the table of structs. -/
lemma modelOf_closed {settings : Project.Settings} {manifest : Project.Manifest}
    {store : LoadedPackages} {m : Model}
    (h : (Project.modelOf settings manifest packages store).result = .ok m) :
    (Project.modelOf settings manifest packages store).structs.Closed ∧ ModelClosed m := by
  have hkeeps := scanPackages_keepsClosed (.ofFramework settings.framework) settings.mode packages
    (.start store) .empty (List.nil_subset _)
  obtain ⟨fns, k', services, hscan, hservices, hstructs, rfl⟩ := Project.scanned_of_modelOf h
  have hk := hkeeps.ok hscan
  have hwithin := within_ofFunctions hk.closed hk.mentioned hservices
  rw [hstructs]
  exact ⟨hk.closed, closed_ofServices hk.closed hwithin _ _⟩

/-- Scans and runs that succeed leave a closed graph of structs.
* A scan of packages that starts from a closed table ends with one, which holds every struct that
  one of the functions takes or gives.
* A function that is left out leaves the table as it was.
* The model of a project is closed under reference, and so is the table behind it. -/
theorem scan_and_run_closed :
    (∀ (names : KnownNames) (mode : Mode) (packages : List Package) (k k' : Known)
      (fns : List Function), k.structs.Closed →
      outcome (Project.scanPackages names mode packages) k = (.ok fns, k') →
      k'.structs.Closed ∧ ∀ f ∈ fns, f.structKeys ⊆ k'.structs.keys) ∧
    (∀ (names : KnownNames) (mode : Mode) (p : Package) (f : DeclaredFunc) (k k' : Known),
      k.structs.Closed → outcome (scanFunction names mode p f) k = (.ok none, k') →
      k'.structs = k.structs) ∧
    ∀ (files : FileTree) (settings : Settings) (dir : FilePath) (m : Model),
      (Project.run files settings dir).result = .ok m →
      (Project.run files settings dir).structs.Closed ∧ ModelClosed m := by
  refine ⟨?_, ?_, ?_⟩
  · intro names mode packages k k' fns hk ho
    have h := (scanPackages_keepsClosed names mode packages k hk (List.nil_subset _)).ok ho
    refine ⟨h.closed, ?_⟩
    intro f hf key hkey
    exact h.mentioned (List.mem_flatMap.2 ⟨f, hf, hkey⟩)
  · intro names mode p f k k' hk ho
    exact ((scanFunction_ends names mode p f hk).ok ho).2 rfl
  · intro files settings dir m h
    rw [Project.run] at h ⊢
    cases hm : Project.Manifest.read files dir with
    | error e =>
      simp only [hm] at h
      cases h
    | ok manifest =>
      cases hp : Project.packagesIn files dir manifest with
      | error e =>
        simp only [hm, hp] at h
        cases h
      | ok packages =>
        simp only [hm, hp] at h ⊢
        exact modelOf_closed h

/-- A scan of a package with a function that is left out, and a run over a project. -/
theorem dropping_and_greeter_closed :
    Dropping.start.structs.Closed ∧
    (∃ k', outcome (Project.scanPackages ⟨"rt"⟩ .permissive [Dropping.package]) Dropping.start =
        (.ok [Dropping.served], k') ∧
      k'.structs.Closed ∧ k'.structs.keys = ["m/d.In"] ∧
      Dropping.served.structKeys ⊆ k'.structs.keys) ∧
    (∃ k', outcome (scanFunction ⟨"rt"⟩ .permissive Dropping.package
        ⟨0, Dropping.file, Dropping.failing⟩) Dropping.start = (.ok none, k') ∧
      k'.structs = Dropping.start.structs) ∧
    ∃ m, (Project.run Greeter.files .default Greeter.root).result = .ok m ∧ ModelClosed m := by
  have hclosed : Dropping.start.structs.Closed := StructTable.Closed.empty
  have hscan : (outcome (Project.scanPackages ⟨"rt"⟩ .permissive [Dropping.package])
      Dropping.start).1 = .ok [Dropping.served] := rfl
  have hdropped : (outcome (scanFunction ⟨"rt"⟩ .permissive Dropping.package
      ⟨0, Dropping.file, Dropping.failing⟩) Dropping.start).1 = .ok none := rfl
  obtain ⟨hscans, hleaves, hruns⟩ := scan_and_run_closed
  have hscan := Prod.ext_iff.2 ⟨hscan, rfl⟩
  have hdropped := Prod.ext_iff.2 ⟨hdropped, rfl⟩
  obtain ⟨htable, hkeys⟩ := hscans _ _ _ _ _ _ hclosed hscan
  refine ⟨hclosed, ⟨_, hscan, htable, rfl, hkeys _ (List.mem_singleton_self _)⟩,
    ⟨_, hdropped, hleaves _ _ _ _ _ _ hclosed hdropped⟩, ?_⟩
  cases hrun : (Project.run Greeter.files .default Greeter.root).result with
  | error e =>
    have hsucceeds := Greeter.run_succeeds
    rw [hrun] at hsucceeds
    cases hsucceeds
  | ok m => exact ⟨m, rfl, (hruns _ _ _ m hrun).2⟩

end GoService.Service
