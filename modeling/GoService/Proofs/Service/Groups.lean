import GoService.Proofs.Lists
import GoService.Service.Grouping
import GoService.Service.Scan
import Mathlib.Data.List.Nodup

/-!
# Functions in services

Grouping puts functions in another order, and that is all: the groups have all functions
(`groups_perm`), each group makes up one service (`services_of_ofFunctions`), and no two services
have the same package. The service of a package bears the name that the package gives
(`ServesAll.named`).
-/

namespace GoService.Service

open Data Package

/-! ## Groups -/

/-- The functions in groups are all functions. -/
lemma groups_perm (fns : List Function) : ((groups fns).flatMap (·.fns)).Perm fns := by
  rw [groups, List.flatMap_map]
  refine flatMap_filter_perm (nodup_eraseDups _) fun f hf => ?_
  exact List.mem_eraseDups.2 (List.mem_map_of_mem hf)

/-- There is a group for each package, in the order in which the packages first come. -/
lemma packages_groups (fns : List Function) :
    (groups fns).map (·.package) = (fns.map (·.package)).eraseDups := by
  rw [groups, List.map_map]
  exact List.map_id _

/-- No package has two groups. -/
lemma nodup_groups (fns : List Function) : ((groups fns).map (·.package)).Nodup := by
  rw [packages_groups]
  exact nodup_eraseDups _

section

variable {packages : List Package} {structs : StructTable}

/-- Groups that are added one after another give one service each. -/
lemma forall₂_of_foldlM_addGroup {gs : List Group} {ss ss' : List GoService.Service}
    (h : gs.foldlM (addGroup packages structs) ss = .ok ss') :
    ∃ new, ss' = ss ++ new ∧
      List.Forall₂ (fun g s => ofGroup packages structs g = .ok s) gs new := by
  induction gs generalizing ss with
  | nil =>
    cases h
    exact ⟨[], (List.append_nil _).symm, .nil⟩
  | cons g gs ih =>
    rw [List.foldlM_cons] at h
    cases hg : ofGroup packages structs g with
    | error e =>
      simp only [addGroup, hg, bind, Except.bind] at h
      cases h
    | ok s =>
      simp only [addGroup, hg, bind, Except.bind] at h
      cases hfind : ss.find? (·.name == s.name) with
      | some first =>
        rw [hfind] at h
        cases h
      | none =>
        rw [hfind] at h
        obtain ⟨new, rfl, hnew⟩ := ih h
        exact ⟨s :: new, by simp, .cons hg hnew⟩

/-- A service that is added has a new name. -/
lemma nodup_names_of_foldlM_addGroup {gs : List Group} {ss ss' : List GoService.Service}
    (h : gs.foldlM (addGroup packages structs) ss = .ok ss') (hss : (ss.map (·.name)).Nodup) :
    (ss'.map (·.name)).Nodup := by
  induction gs generalizing ss with
  | nil =>
    cases h
    exact hss
  | cons g gs ih =>
    rw [List.foldlM_cons] at h
    cases hg : ofGroup packages structs g with
    | error e =>
      simp only [addGroup, hg, bind, Except.bind] at h
      cases h
    | ok s =>
      simp only [addGroup, hg, bind, Except.bind] at h
      cases hfind : ss.find? (·.name == s.name) with
      | some first =>
        rw [hfind] at h
        cases h
      | none =>
        rw [hfind] at h
        apply ih h
        rw [List.map_append, List.nodup_append]
        refine ⟨hss, List.nodup_singleton _, ?_⟩
        rintro name hname _ hlast rfl
        obtain ⟨s', hs', heq⟩ := List.mem_map.1 hname
        cases List.mem_singleton.1 hlast
        have hne := List.find?_eq_none.1 hfind s' hs'
        exact hne (beq_iff_eq.2 heq)

/-- No two services have one name. -/
lemma nodup_names_of_ofFunctions {fns : List Function} {ss : List GoService.Service}
    (h : ofFunctions packages structs fns = .ok ss) : (ss.map (·.name)).Nodup := by
  cases hfold : (groups fns).foldlM (addGroup packages structs) [] with
  | error e =>
    simp only [ofFunctions, hfold, bind, Except.bind] at h
    cases h
  | ok unsorted =>
    simp only [ofFunctions, hfold, bind, Except.bind] at h
    cases h
    have hnames := nodup_names_of_foldlM_addGroup hfold List.nodup_nil
    exact ((List.mergeSort_perm ..).map _).nodup_iff.2 hnames

/-- The services that functions make up are those of their groups, in another order. -/
lemma services_of_ofFunctions {fns : List Function} {ss : List GoService.Service}
    (h : ofFunctions packages structs fns = .ok ss) :
    ∃ ss', List.Forall₂ (fun g s => ofGroup packages structs g = .ok s) (groups fns) ss' ∧
      ss.Perm ss' := by
  cases hfold : (groups fns).foldlM (addGroup packages structs) [] with
  | error e =>
    simp only [ofFunctions, hfold, bind, Except.bind] at h
    cases h
  | ok unsorted =>
    simp only [ofFunctions, hfold, bind, Except.bind] at h
    cases h
    obtain ⟨new, heq, hnew⟩ := forall₂_of_foldlM_addGroup hfold
    rw [List.nil_append] at heq
    subst heq
    exact ⟨unsorted, hnew, List.mergeSort_perm ..⟩

/-! ## Services -/

/-- A service with the functions of a group, under the name that the group's package gives. -/
structure Serves (packages : List Package) (g : Group) (s : GoService.Service) : Prop where
  package : s.package = g.package
  fns : s.fns.Perm g.fns
  named : (annotationsOf packages g.package).value? .service = some s.name
  nonempty : s.name ≠ ""

/-- The service of a group serves it. -/
lemma serves_of_ofGroup {g : Group} {s : GoService.Service}
    (h : ofGroup packages structs g = .ok s) : Serves packages g s := by
  rw [ofGroup] at h
  split at h
  · cases h
  · next name hname =>
    cases h
    obtain ⟨hvalue, hnonempty⟩ := Option.filter_eq_some_iff.1 hname
    exact ⟨rfl, List.mergeSort_perm .., hvalue, by simpa using hnonempty⟩

/-- Services have the functions of the groups that they serve. -/
lemma perm_of_serves {gs : List Group} {ss : List GoService.Service}
    (h : List.Forall₂ (Serves packages) gs ss) :
    (ss.flatMap (·.fns)).Perm (gs.flatMap (·.fns)) := by
  induction h with
  | nil => exact .nil
  | cons hserves _ ih => exact hserves.fns.append ih

/-- Services have the packages of the groups that they serve. -/
lemma packages_of_serves {gs : List Group} {ss : List GoService.Service}
    (h : List.Forall₂ (Serves packages) gs ss) : ss.map (·.package) = gs.map (·.package) := by
  induction h with
  | nil => rfl
  | cons hserves _ ih => exact congrArg₂ _ hserves.package ih

/-- Services that have given functions together, one service for each package. -/
structure ServesAll (packages : List Package) (fns : List Function)
    (ss : List GoService.Service) : Prop where
  perm : (ss.flatMap (·.fns)).Perm fns
  distinct : (ss.map (·.package)).Nodup
  each : ∀ s ∈ ss, ∃ g ∈ groups fns, Serves packages g s

/-- All functions are served, and each package by one service. -/
lemma servesAll_of_ofFunctions {fns : List Function} {ss : List GoService.Service}
    (h : ofFunctions packages structs fns = .ok ss) : ServesAll packages fns ss := by
  obtain ⟨ss', hgroups, hperm⟩ := services_of_ofFunctions h
  have hserves := hgroups.imp fun _ _ => serves_of_ofGroup
  refine ⟨?_, ?_, fun s hs => exists_of_forall₂ hserves (hperm.mem_iff.1 hs)⟩
  · exact (hperm.flatMap_right _).trans ((perm_of_serves hserves).trans (groups_perm fns))
  · rw [(hperm.map _).nodup_iff, packages_of_serves hserves]
    exact nodup_groups fns

/-- The annotations of a package are found by its path, if no two packages have one. -/
lemma annotationsOf_of_mem (hdistinct : (packages.map (·.importPath)).Nodup) {p : Package}
    (hp : p ∈ packages) : annotationsOf packages p.importPath = p.annotations := by
  rw [annotationsOf]
  cases hfind : packages.find? (·.importPath == p.importPath) with
  | none =>
    have hne := List.find?_eq_none.1 hfind p hp
    exact absurd (beq_self_eq_true p.importPath) hne
  | some q =>
    have hpath : q.importPath = p.importPath := by simpa using List.find?_some hfind
    obtain rfl := List.inj_on_of_nodup_map hdistinct (List.mem_of_find?_eq_some hfind) hp hpath
    rfl

/-- The functions of a service bear its name if they bear the names that their packages give. -/
lemma ServesAll.named {fns : List Function} {ss : List GoService.Service}
    (h : ServesAll packages fns ss) (hdistinct : (packages.map (·.importPath)).Nodup)
    (hfns : ∀ f ∈ fns, ∃ p ∈ packages, f.package = p.importPath ∧ f.service = serviceName p) :
    ∀ s ∈ ss, s.name ≠ "" ∧ ∀ f ∈ s.fns, f.service = s.name ∧ f.package = s.package := by
  intro s hs
  obtain ⟨g, hg, hserves⟩ := h.each s hs
  obtain ⟨path, -, rfl⟩ := List.mem_map.1 hg
  refine ⟨hserves.nonempty, fun f hf => ?_⟩
  obtain ⟨hf, hpath⟩ := List.mem_filter.1 (hserves.fns.mem_iff.1 hf)
  obtain ⟨p, hp, hpackage, hservice⟩ := hfns f hf
  have heq : path = p.importPath := (eq_of_beq hpath).symm.trans hpackage
  have hnamed := hserves.named
  rw [heq, annotationsOf_of_mem hdistinct hp] at hnamed
  rw [hservice, serviceName, hnamed, hserves.package]
  exact ⟨rfl, eq_of_beq hpath⟩

end

end GoService.Service
