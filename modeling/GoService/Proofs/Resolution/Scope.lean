import GoService.Proofs.Resolution.Faithful
import GoService.Proofs.Resolution.References

/-!
# Scopes

Only finitely many declarations can be reached from one another. A store knows the paths of the
packages that are loaded and of those which files can mention, and the names that packages can
declare; a key in scope is made up of these (`InScope.mem_knownKeys`), and references lead from keys
in scope to keys in scope (`InScope.refers`). There are as many such keys as the weight of the store
says.
-/

namespace GoService.Package

namespace LoadedPackages

variable {s : LoadedPackages} {p : Package}

/-- The keys of declared types that can be reached. -/
def knownKeys (s : LoadedPackages) : List String :=
  s.paths.flatMap fun path => s.names.map (Data.declKey path)

/-- There are as many keys as the weight says. -/
lemma length_knownKeys (s : LoadedPackages) : s.knownKeys.length = s.weight := by
  simp [knownKeys, weight, List.length_flatMap, List.map_const']

/-- A package that is held is an entry at its import path. -/
lemma Holds.mem (h : s.Holds p) : (p.importPath, p) ∈ s.loaded.entries :=
  Dict.mem_of_get? h

/-- Whatever package is had declares names and mentions paths that the store knows. -/
lemma subset_of_catalog {path : String} (h : s.catalog path = .ok p) :
    p.types.keys ⊆ s.names ∧ mentionedPaths p ⊆ s.paths := by
  rw [catalog] at h
  cases hget : s.get? path with
  | some q =>
    rw [load_of_get? hget] at h
    obtain rfl := Except.ok.inj h
    have hmem := (holds_of_get? hget).2.mem
    constructor
    · intro x hx
      exact List.mem_append_left _ (List.mem_flatMap.2 ⟨_, hmem, hx⟩)
    · intro path hpath
      refine List.mem_append_left _ (List.mem_append_right _ ?_)
      exact List.mem_flatMap.2 ⟨_, hmem, hpath⟩
  | none =>
    cases hload : s.source.load path with
    | error e =>
      rw [load_of_error hget hload] at h
      cases h
    | ok q =>
      rw [load_of_ok hget hload] at h
      obtain rfl := Except.ok.inj h
      constructor
      · intro x hx
        exact List.mem_append_right _ (s.source.names_of_load hload hx)
      · intro path hpath
        exact List.mem_append_right _ (s.source.paths_of_load hload hpath)

/-- A package that is had, at a path that the store knows. -/
structure Scoped (s : LoadedPackages) (p : Package) : Prop where
  held : s.catalog p.importPath = .ok p
  path : p.importPath ∈ s.paths

/-- A package that is held is in scope. -/
lemma Holds.scoped (h : s.Holds p) : s.Scoped p := by
  refine ⟨h.catalog, List.mem_append_left _ (List.mem_append_left _ ?_)⟩
  exact List.mem_map_of_mem h.mem

/-- A package that is mentioned in scope is in scope. -/
lemma Scoped.mentioned (h : s.Scoped p) {q : Package} {path : String}
    (hpath : path ∈ mentionedPaths p) (hq : s.catalog path = .ok q) : s.Scoped q := by
  obtain ⟨rfl, -⟩ := holds_of_catalog hq
  exact ⟨hq, (subset_of_catalog h.held).2 hpath⟩

end LoadedPackages

end GoService.Package

namespace GoService.Resolution

open Data Package Source Relation

variable {s : LoadedPackages} {names : KnownNames}

/-- A file of a package in scope. -/
structure Site.Scoped (site : Site) (s : LoadedPackages) : Prop where
  package : s.Scoped site.package
  file : site.file ∈ site.package.files

/-- A key is that of a name that a package in scope declares. -/
def InScope (s : LoadedPackages) (key : String) : Prop :=
  ∃ p x, key = keyIn p x ∧ s.Scoped p ∧ p.types.contains x

/-- A key in scope is one of those that can be reached. -/
lemma InScope.mem_knownKeys {key : String} (h : InScope s key) : key ∈ s.knownKeys := by
  obtain ⟨p, x, rfl, hp, hx⟩ := h
  have hname := (LoadedPackages.subset_of_catalog hp.held).1 (Dict.contains_iff_mem_keys.1 hx)
  exact List.mem_flatMap.2 ⟨_, hp.path, List.mem_map_of_mem hname⟩

/-- A qualifier leads to a path that the file imports. -/
lemma mem_imports_of_qualifierIn {c : Catalog} {site : Site} {q path : String}
    (h : qualifierIn c site q = some path) :
    path ∈ site.file.imports.imports.map (·.path) := by
  rw [qualifierIn] at h
  split at h
  · next i hi =>
    cases h
    exact List.mem_map_of_mem (List.mem_of_find?_eq_some hi)
  · obtain ⟨i, hi, rfl⟩ := List.mem_map.1 (List.mem_of_find?_eq_some h)
    exact List.mem_map_of_mem (List.mem_filter.1 hi).1

namespace Site.Scoped

variable {site : Site} (h : site.Scoped s)
include h

/-- The package of a qualifier is in scope. -/
lemma qualifier {q path : String} {p : Package}
    (hq : qualifierIn s.catalog site q = some path) (hp : s.catalog path = .ok p) : s.Scoped p :=
  h.package.mentioned (List.mem_flatMap.2 ⟨_, h.file, mem_imports_of_qualifierIn hq⟩) hp

/-- What a name refers to is declared in scope. -/
lemma referent {qualifier : Option Ident} {ident : Ident} {p : Package} {x : String}
    (hname : referentIn s.catalog names site qualifier ident = some (.declared p x)) :
    s.Scoped p ∧ p.types.contains x := by
  obtain ⟨hx, rfl | ⟨q, path, hpath, hp⟩⟩ := package_of_referentIn hname
  · exact ⟨h.package, hx⟩
  · exact ⟨h.qualifier hpath hp, hx⟩

/-- The keys that a type in scope mentions are in scope. -/
lemma mentions {type : TypeExpr} {key : String} (hm : Mentions s.catalog names site type key) :
    InScope s key := by
  induction hm with
  | named hname => exact ⟨_, _, rfl, h.referent hname⟩
  | _ => assumption

end Site.Scoped

/-- The declarations of a package in scope are at sites in scope. -/
lemma scoped_of_type? {p : Package} {x : String} {d : DeclaredType} (hp : s.Scoped p)
    (hd : p.type? x = some d) : Site.Scoped ⟨p, d.file⟩ s :=
  ⟨hp, p.filed _ (Dict.mem_of_get? hd)⟩

/-- The struct of a declaration in scope is written in scope. -/
lemma Declares.source_scoped {p : Package} {x : String} {d : DeclaredType} {source : StructLiteral}
    (h : Declares s.catalog names p x d (some source)) (hp : s.Scoped p) :
    source.site.Scoped s := by
  refine site_of_literalIn (P := fun site => site.Scoped s) (scoped_of_type? hp h.declared) ?_ ?_
    h.search
  · intro site x d hsite hd
    exact scoped_of_type? hsite.package hd
  · intro site q path p x d hsite hq hp hd
    exact scoped_of_type? (hsite.qualifier hq hp) hd

/-- The package of a key in scope is in scope. -/
lemma InScope.package {p : Package} {x : String} {d : DeclaredType}
    {source : Option StructLiteral} (h : InScope s (keyIn p x))
    (hd : Declares s.catalog names p x d source) : s.Scoped p := by
  obtain ⟨p', x', heq, hp', hx'⟩ := h
  obtain ⟨d', hd'⟩ := Option.isSome_iff_exists.1 hx'
  obtain ⟨rfl, -⟩ := keyIn_injective hd.held hd.declared hp'.held hd' heq
  exact hp'

/-- What a declaration in scope refers to is in scope. -/
lemma InScope.refers {key key' : String} (h : InScope s key)
    (hr : Refers s.catalog names key key') : InScope s key' := by
  cases hr with
  | type hd hm => exact (scoped_of_type? (h.package hd) hd.declared).mentions hm
  | field hd _ hm => exact (hd.source_scoped (h.package hd)).mentions hm.2

/-- What is reached from a key in scope is in scope. -/
lemma InScope.reaches {stop : String → Prop} {key key' : String} (h : InScope s key)
    (hr : ReflTransGen (Leads s.catalog names stop) key key') : InScope s key' := by
  induction hr with
  | refl => exact h
  | tail _ hstep ih => exact ih.refers hstep.2

end GoService.Resolution
