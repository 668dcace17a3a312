import GoService.Proofs.Service.Groups

/-!
# When functions make up services

Functions make up services exactly if each of their packages names a service and no two of them name
the same one (`Nameable`). The services then split the functions among them (`Split`). Otherwise the
error is about the first function whose package is at fault (`FirstFault`).
-/

namespace GoService.Service

open Data Package

/-! ## Named packages -/

/-- One of the packages has the import path and gives its service a name. -/
def Names (packages : List Package) (path name : String) : Prop :=
  ∃ p ∈ packages, p.importPath = path ∧ p.annotations.value? .service = some name ∧ name ≠ ""

/-- The packages of the functions give their services names, each its own. -/
structure Nameable (packages : List Package) (fns : List Function) : Prop where
  named : ∀ f ∈ fns, ∃ name, Names packages f.package name
  apart : ∀ f ∈ fns, ∀ g ∈ fns, ∀ name, Names packages f.package name →
    Names packages g.package name → f.package = g.package

/-- The first function whose package is at fault, and the error about it. -/
inductive FirstFault (packages : List Package) (fns : List Function) : GroupingError → Prop where
  | unnamed {before f after} :
    fns = before ++ f :: after →
    Nameable packages before →
    (∀ name, ¬ Names packages f.package name) →
    FirstFault packages fns (.unnamed f.package)
  | duplicate {before f after first name} :
    fns = before ++ f :: after →
    Nameable packages before →
    first ∈ before →
    first.package ≠ f.package →
    Names packages first.package name →
    Names packages f.package name →
    FirstFault packages fns (.duplicate name first.package f.package)

/-- A service has all functions of its package, those of one name in the order in which they
came. -/
structure Offers (packages : List Package) (fns : List Function) (s : GoService.Service) :
    Prop where
  named : Names packages s.package s.name
  perm : s.fns.Perm (fns.filter (·.package == s.package))
  sorted : s.fns.Pairwise fun f g => f.name ≤ g.name
  stable : ∀ name, s.fns.filter (·.name == name) =
    (fns.filter (·.package == s.package)).filter (·.name == name)

/-- Services in the order of their names that split functions by package. -/
structure Split (packages : List Package) (fns : List Function) (ss : List GoService.Service) :
    Prop where
  ascending : (ss.map (·.name)).Pairwise (· < ·)
  onePerPackage : (ss.map (·.package)).Perm (fns.map (·.package)).eraseDups
  perm : (ss.flatMap (·.fns)).Perm fns
  each : ∀ s ∈ ss, Offers packages fns s

section

variable {packages : List Package} {structs : StructTable}

/-- A package that gives a name has it among its annotations. -/
lemma Names.annotationsOf {path name : String}
    (hdistinct : (packages.map (·.importPath)).Nodup) (h : Names packages path name) :
    (Service.annotationsOf packages path).value? .service = some name := by
  obtain ⟨p, hp, rfl, hname, -⟩ := h
  rw [annotationsOf_of_mem hdistinct hp]
  exact hname

/-- A package gives one name only. -/
lemma Names.unique {path name name' : String} (hdistinct : (packages.map (·.importPath)).Nodup)
    (h : Names packages path name) (h' : Names packages path name') : name = name' :=
  Option.some.inj ((h.annotationsOf hdistinct).symm.trans (h'.annotationsOf hdistinct))

/-- The name that is not empty among the annotations of a package is one that it gives. -/
lemma names_of_annotationsOf {path name : String}
    (h : (annotationsOf packages path).value? .service = some name) (hname : name ≠ "") :
    Names packages path name := by
  rw [annotationsOf] at h
  split at h
  · next p hfind =>
    have hpath : p.importPath = path := by simpa using List.find?_some hfind
    exact ⟨p, List.mem_of_find?_eq_some hfind, hpath, h, hname⟩
  · cases h

/-- A service is named as its package says. -/
lemma Serves.names {g : Group} {s : GoService.Service} (h : Serves packages g s) :
    Names packages g.package s.name :=
  names_of_annotationsOf h.named h.nonempty

/-! ## Failures -/

/-- A group of which no service is made is that of a package that gives no name. -/
lemma not_names_of_ofGroup {g : Group} {e : GroupingError}
    (hdistinct : (packages.map (·.importPath)).Nodup)
    (h : ofGroup packages structs g = .error e) :
    e = .unnamed g.package ∧ ∀ name, ¬ Names packages g.package name := by
  rw [ofGroup] at h
  split at h
  · next hnone =>
    cases h
    refine ⟨rfl, fun name hname => ?_⟩
    rw [hname.annotationsOf hdistinct] at hnone
    obtain ⟨-, -, -, -, hnonempty⟩ := hname
    simp [hnonempty] at hnone
  · cases h

/-- A group is not added because its package has no name or because the name is used. -/
lemma cases_of_addGroup_error {ss : List GoService.Service} {g : Group} {e : GroupingError}
    (hdistinct : (packages.map (·.importPath)).Nodup)
    (h : addGroup packages structs ss g = .error e) :
    (e = .unnamed g.package ∧ ∀ name, ¬ Names packages g.package name) ∨
    ∃ first ∈ ss, e = .duplicate first.name first.package g.package ∧
      Names packages g.package first.name := by
  cases hg : ofGroup packages structs g with
  | error e' =>
    simp only [addGroup, hg, bind, Except.bind] at h
    cases h
    exact .inl (not_names_of_ofGroup hdistinct hg)
  | ok s =>
    have hserves := serves_of_ofGroup hg
    simp only [addGroup, hg, bind, Except.bind] at h
    cases hfind : ss.find? (·.name == s.name) with
    | none =>
      rw [hfind] at h
      cases h
    | some first =>
      rw [hfind] at h
      cases h
      have hname : first.name = s.name := by simpa using List.find?_some hfind
      refine .inr ⟨first, List.mem_of_find?_eq_some hfind, ?_, hname ▸ hserves.names⟩
      rw [hname, hserves.package]

/-! ## Groups and functions -/

/-- The packages of the first groups are those of the functions before the first function of the
next one. -/
lemma exists_of_groups_eq {fns : List Function} {before after : List Group} {g : Group}
    (h : groups fns = before ++ g :: after) :
    ∃ fns₁ f fns₂, fns = fns₁ ++ f :: fns₂ ∧ f.package = g.package ∧
      before.map (·.package) = (fns₁.map (·.package)).eraseDups := by
  have hpackages := congrArg (List.map (·.package)) h
  rw [groups, List.map_map, List.map_append, List.map_cons] at hpackages
  obtain ⟨xs₁, xs₂, hxs, hbefore⟩ := exists_of_eraseDups_eq ((List.map_id _).symm.trans hpackages)
  obtain ⟨fns₁, fns', rfl, rfl, hrest⟩ := List.map_eq_append_iff.1 hxs
  obtain ⟨f, fns₂, rfl, hf, -⟩ := List.map_eq_cons_iff.1 hrest
  exact ⟨fns₁, f, fns₂, rfl, hf, hbefore.symm⟩

/-- Groups with different names make up services for packages that are named apart. -/
lemma nameable_of_serves {fns : List Function} {gs : List Group} {ss : List GoService.Service}
    (hdistinct : (packages.map (·.importPath)).Nodup)
    (hgs : gs.map (·.package) = (fns.map (·.package)).eraseDups)
    (hserves : List.Forall₂ (Serves packages) gs ss) (hnames : (ss.map (·.name)).Nodup) :
    Nameable packages fns := by
  have hservice : ∀ f ∈ fns, ∃ s ∈ ss, s.package = f.package ∧ Names packages f.package s.name := by
    intro f hf
    have hpackage : f.package ∈ ss.map (·.package) := by
      rw [packages_of_serves hserves, hgs, List.mem_eraseDups]
      exact List.mem_map_of_mem hf
    obtain ⟨s, hs, hs'⟩ := List.mem_map.1 hpackage
    obtain ⟨g, -, hg⟩ := exists_of_forall₂ hserves hs
    exact ⟨s, hs, hs', hs' ▸ hg.package ▸ hg.names⟩
  refine ⟨fun f hf => ?_, fun f hf g hg name hfname hgname => ?_⟩
  · obtain ⟨s, -, -, hname⟩ := hservice f hf
    exact ⟨s.name, hname⟩
  · obtain ⟨s, hs, hsf, hsname⟩ := hservice f hf
    obtain ⟨t, ht, htg, htname⟩ := hservice g hg
    have heq : s.name = t.name :=
      (hsname.unique hdistinct hfname).trans (hgname.unique hdistinct htname)
    obtain rfl := List.inj_on_of_nodup_map hnames hs ht heq
    exact hsf.symm.trans htg

/-- A fold over groups that ends well leaves a service for each of them, under different names. -/
lemma services_of_foldlM_addGroup {gs : List Group} {ss : List GoService.Service}
    (h : gs.foldlM (addGroup packages structs) [] = .ok ss) :
    List.Forall₂ (fun g s => ofGroup packages structs g = .ok s) gs ss ∧
      (ss.map (·.name)).Nodup := by
  obtain ⟨new, rfl, hnew⟩ := forall₂_of_foldlM_addGroup h
  exact ⟨hnew, nodup_names_of_foldlM_addGroup h List.nodup_nil⟩

/-- An error of the aggregation tells the first function at fault. -/
lemma firstFault_of_foldlM {fns : List Function} {e : GroupingError}
    (hdistinct : (packages.map (·.importPath)).Nodup)
    (h : (groups fns).foldlM (addGroup packages structs) [] = .error e) :
    FirstFault packages fns e := by
  obtain ⟨before, g, after, ss, hsplit, hbefore, hg⟩ := exists_of_foldlM_error h
  obtain ⟨fns₁, f, fns₂, hfns, hf, hpackages⟩ := exists_of_groups_eq hsplit
  obtain ⟨hgroups, hnames⟩ := services_of_foldlM_addGroup hbefore
  have hserves := hgroups.imp fun _ _ => serves_of_ofGroup
  have hnameable := nameable_of_serves hdistinct hpackages hserves hnames
  rcases cases_of_addGroup_error hdistinct hg with ⟨rfl, hnone⟩ | ⟨s, hs, rfl, hname⟩
  · rw [← hf]
    exact .unnamed hfns hnameable (hf ▸ hnone)
  · obtain ⟨g', hg', hs'⟩ := exists_of_forall₂ hserves hs
    -- the service that has the name already is that of a function before
    have hmem : g'.package ∈ fns₁.map (·.package) := by
      rw [← List.mem_eraseDups, ← hpackages]
      exact List.mem_map_of_mem hg'
    obtain ⟨first, hfirst, hfirst'⟩ := List.mem_map.1 hmem
    have hne : first.package ≠ f.package := by
      rw [hfirst', hf]
      have hnodup := nodup_groups fns
      rw [hsplit, List.map_append, List.nodup_append] at hnodup
      exact hnodup.2.2 _ (List.mem_map_of_mem hg') _ (by simp)
    rw [hs'.package, ← hfirst', ← hf]
    exact .duplicate hfns hnameable hfirst hne (hfirst' ▸ hs'.names) (hf ▸ hname)

/-- Functions with a fault among them cannot be named. -/
lemma FirstFault.not_nameable {fns : List Function} {e : GroupingError}
    (h : FirstFault packages fns e) : ¬ Nameable packages fns := by
  rintro ⟨hnamed, hapart⟩
  cases h with
  | unnamed hfns _ hnone =>
    obtain ⟨name, hname⟩ := hnamed _ (hfns ▸ List.mem_append_right _ List.mem_cons_self)
    exact hnone name hname
  | duplicate hfns _ hfirst hne hname hname' =>
    have hmem := hfns ▸ List.mem_append_left _ hfirst
    have hmem' := hfns ▸ List.mem_append_right _ List.mem_cons_self
    exact hne (hapart _ hmem _ hmem' _ hname hname')

/-! ## Successes -/

/-- The service of a group has the functions of its package. -/
lemma offers_of_ofGroup {fns : List Function} {g : Group} {s : GoService.Service}
    (hg : g ∈ groups fns) (h : ofGroup packages structs g = .ok s) : Offers packages fns s := by
  obtain ⟨path, -, rfl⟩ := List.mem_map.1 hg
  have hserves := serves_of_ofGroup h
  rw [ofGroup] at h
  split at h
  · cases h
  · cases h
    exact ⟨hserves.names, hserves.fns, pairwise_mergeSort_name Function.name _,
      filter_mergeSort_name Function.name _⟩

/-- The services of all groups, sorted by name, split the functions. -/
lemma split_of_foldlM {fns : List Function} {ss : List GoService.Service}
    (h : (groups fns).foldlM (addGroup packages structs) [] = .ok ss) :
    Split packages fns (ss.mergeSort fun a b => decide (a.name ≤ b.name)) := by
  obtain ⟨hgroups, hnames⟩ := services_of_foldlM_addGroup h
  have hserves := hgroups.imp fun _ _ => serves_of_ofGroup
  have hperm := List.mergeSort_perm ss fun a b => decide (a.name ≤ b.name)
  refine ⟨?_, ?_, ?_, fun s hs => ?_⟩
  · have hsorted := List.pairwise_map.2 (pairwise_mergeSort_name Service.name ss)
    have hdistinct := (hperm.map (·.name)).nodup_iff.2 hnames
    exact (hsorted.and hdistinct).imp fun ⟨hle, hne⟩ => lt_of_le_of_ne hle hne
  · exact packages_groups fns ▸ packages_of_serves hserves ▸ hperm.map (·.package)
  · exact (hperm.flatMap_right _).trans ((perm_of_serves hserves).trans (groups_perm fns))
  · obtain ⟨g, hg, hs⟩ := exists_of_forall₂ hgroups (hperm.mem_iff.1 hs)
    exact offers_of_ofGroup hg hs

/-- Functions make up services exactly if their packages name one each, all different. If they do,
the services split them; if not, the first fault is told. -/
theorem ofFunctions_splits_or_tells_first_fault (structs : StructTable) (fns : List Function)
    (hdistinct : (packages.map (·.importPath)).Nodup) :
    ((∃ ss, ofFunctions packages structs fns = .ok ss) ↔ Nameable packages fns) ∧
    (∀ ss, ofFunctions packages structs fns = .ok ss → Split packages fns ss) ∧
    ∀ e, ofFunctions packages structs fns = .error e → FirstFault packages fns e := by
  cases hfold : (groups fns).foldlM (addGroup packages structs) [] with
  | ok unsorted =>
    obtain ⟨hgroups, hnames⟩ := services_of_foldlM_addGroup hfold
    have hserves := hgroups.imp fun _ _ => serves_of_ofGroup
    have hok : ofFunctions packages structs fns =
        .ok (unsorted.mergeSort fun a b => decide (a.name ≤ b.name)) := by
      rw [ofFunctions, hfold]
      rfl
    have hnameable := nameable_of_serves hdistinct (packages_groups fns) hserves hnames
    rw [hok]
    refine ⟨iff_of_true ⟨_, rfl⟩ hnameable, fun ss hss => ?_, fun e he => ?_⟩
    · cases hss
      exact split_of_foldlM hfold
    · cases he
  | error e =>
    have herror : ofFunctions packages structs fns = .error e := by
      rw [ofFunctions, hfold]
      rfl
    have hfault := firstFault_of_foldlM hdistinct hfold
    rw [herror]
    refine ⟨iff_of_false ?_ hfault.not_nameable, fun ss hss => ?_, fun e' he' => ?_⟩
    · rintro ⟨ss, hss⟩
      cases hss
    · cases hss
    · cases he'
      exact hfault

end

/-! ## Two shops -/

namespace Shops

/-- A package whose documentation names a service. -/
def shop (path service : String) : Package :=
  ofFiles path "p" ⟨path⟩ "m"
    [⟨⟨path ++ "/p.go"⟩, (Source.parse ("// @service " ++ service ++ "\npackage p\n")).file, ⟨[]⟩⟩]

/-- A function of a package in a line of its file. -/
def sells (package name : String) (line : Nat) : Function :=
  ⟨"", name, package, ⟨package ++ "/p.go"⟩, line, none, none, .empty, ""⟩

/-- Four functions of two packages, two of them of one name in one package. -/
def fns : List Function :=
  [sells "m/a" "Sell" 3, sells "m/b" "Buy" 1, sells "m/a" "Buy" 2, sells "m/a" "Sell" 1]

/-- Two shops with different names have services. -/
lemma shops_succeed :
    (ofFunctions [shop "m/a" "zoo", shop "m/b" "bar"] .empty fns).toOption.isSome = true := by
  decide +kernel

/-- Two shops with one name have none. -/
lemma shops_fail :
    ofFunctions [shop "m/a" "zoo", shop "m/b" "zoo"] .empty fns =
      .error (.duplicate "zoo" "m/a" "m/b") := by
  decide +kernel

/-- Shops with different names split what they sell; the second of two with one name is told. -/
theorem shops_split_or_clash :
    (∃ ss, ofFunctions [shop "m/a" "zoo", shop "m/b" "bar"] .empty fns = .ok ss ∧
      Split [shop "m/a" "zoo", shop "m/b" "bar"] fns ss) ∧
    FirstFault [shop "m/a" "zoo", shop "m/b" "zoo"] fns (.duplicate "zoo" "m/a" "m/b") := by
  constructor
  · cases h : ofFunctions [shop "m/a" "zoo", shop "m/b" "bar"] .empty fns with
    | error e =>
      have hsucceed := shops_succeed
      rw [h] at hsucceed
      cases hsucceed
    | ok ss =>
      exact ⟨ss, rfl, (ofFunctions_splits_or_tells_first_fault .empty fns (by decide)).2.1 ss h⟩
  · exact (ofFunctions_splits_or_tells_first_fault .empty fns (by decide)).2.2 _ shops_fail

end Shops

end GoService.Service
