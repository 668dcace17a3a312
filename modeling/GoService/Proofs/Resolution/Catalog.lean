import GoService.Proofs.Resolution.Outcome

/-!
# Lookups

A lookup follows names through packages. Which packages have been loaded before does not matter to
it: what it gives is a function of the catalog, which says for every import path what is had there
and never changes. The functions ending in `In` are these functions; `Looks` ties a lookup to one of
them, and there is one such lemma for each lookup.
-/

namespace GoService.Package

/-- Packages that are at hand; there is nothing at other import paths. -/
def PackageSource.ofPackages (packages : List Package) : PackageSource where
  load path :=
    match packages.find? (·.importPath == path) with
    | some p => .ok p
    | none => .error (.load (.noSources path ⟨path⟩))
  paths := packages.flatMap mentionedPaths
  names := packages.flatMap (·.types.keys)
  importPath_of_load h := by
    split at h
    · next hfind =>
      cases h
      simpa using List.find?_some hfind
    · cases h
  names_of_load h := by
    split at h
    · next hfind =>
      cases h
      exact fun _ h => List.mem_flatMap_of_mem (List.mem_of_find?_eq_some hfind) h
    · cases h
  paths_of_load h := by
    split at h
    · next hfind =>
      cases h
      exact fun _ h => List.mem_flatMap_of_mem (List.mem_of_find?_eq_some hfind) h
    · cases h

/-- What is had at each import path. -/
def Catalog : Type :=
  String → Except PackageError Package

/-- The packages of a catalog have the import paths at which they are found. -/
def Catalog.Keyed (c : Catalog) : Prop :=
  ∀ path p, c path = .ok p → p.importPath = path

namespace LoadedPackages

/-- What a store answers for each import path. -/
def catalog (s : LoadedPackages) : Catalog :=
  fun path => (s.load path).1

/-- A package that is loaded, under its own import path. -/
def Holds (s : LoadedPackages) (p : Package) : Prop :=
  s.get? p.importPath = some p

section Load

variable {s : LoadedPackages} {path : String} {p : Package}

/-- A package that was loaded is not loaded again. -/
lemma load_of_get? (h : s.get? path = some p) : s.load path = (.ok p, s) := by
  rw [load, h]

/-- A package that is loaded is remembered. -/
lemma load_of_ok (h : s.get? path = none) (hp : s.source.load path = .ok p) :
    s.load path = (.ok p, s.insert p) := by
  rw [load, h]
  simp only [hp]

/-- A failure is not remembered. -/
lemma load_of_error {e : PackageError} (h : s.get? path = none)
    (he : s.source.load path = .error e) : s.load path = (.error e, s) := by
  rw [load, h]
  simp only [he]

/-- After a package is remembered it is found at its path, and all others as before. -/
lemma get?_insert (path : String) :
    (s.insert p).get? path = if path = p.importPath then some p else s.get? path :=
  Dict.get?_insert ..

/-- A package that is inserted is held. -/
lemma holds_insert (s : LoadedPackages) (p : Package) : (s.insert p).Holds p := by
  rw [Holds, get?_insert, if_pos rfl]

/-- A package that is loaded at some path is held, and the path is its own. -/
lemma holds_of_get? (h : s.get? path = some p) : p.importPath = path ∧ s.Holds p := by
  have hpath : p.importPath = path := s.keyed _ (Dict.mem_of_get? h)
  refine ⟨hpath, ?_⟩
  rw [Holds, hpath]
  exact h

/-- A package that is held is in the catalog. -/
lemma Holds.catalog (h : s.Holds p) : s.catalog p.importPath = .ok p := by
  rw [LoadedPackages.catalog, load_of_get? h]

/-- Whatever is had at a path has this import path, and is held from then on. -/
lemma holds_of_catalog (h : s.catalog path = .ok p) :
    p.importPath = path ∧ (s.load path).2.Holds p := by
  rw [LoadedPackages.catalog] at h
  cases hget : s.get? path with
  | some q =>
    rw [load_of_get? hget] at h ⊢
    obtain rfl := Except.ok.inj h
    exact holds_of_get? hget
  | none =>
    cases hload : s.source.load path with
    | error e =>
      rw [load_of_error hget hload] at h
      simp at h
    | ok q =>
      rw [load_of_ok hget hload] at h ⊢
      obtain rfl := Except.ok.inj h
      exact ⟨s.source.importPath_of_load hload, holds_insert s q⟩

/-- The packages of the catalog have their paths. -/
lemma keyed_catalog (s : LoadedPackages) : s.catalog.Keyed :=
  fun _ _ h => (holds_of_catalog h).1

/-- Loading does not forget packages. -/
lemma get?_load {path' : String} (h : s.get? path' = some p) :
    (s.load path).2.get? path' = some p := by
  cases hget : s.get? path with
  | some q =>
    rw [load_of_get? hget]
    exact h
  | none =>
    cases hload : s.source.load path with
    | error e =>
      rw [load_of_error hget hload]
      exact h
    | ok q =>
      have hne : path' ≠ q.importPath := by
        rw [s.source.importPath_of_load hload]
        rintro rfl
        simp [hget] at h
      rw [load_of_ok hget hload, get?_insert, if_neg hne]
      exact h

end Load

/-- A package that is inserted is had at its own import path; at any other one nothing changes. -/
lemma catalog_insert (s : LoadedPackages) (p : Package) (path : String) :
    (s.insert p).catalog path = if path = p.importPath then .ok p else s.catalog path := by
  by_cases hpath : path = p.importPath
  · have hnew : (s.insert p).get? path = some p := by rw [get?_insert, if_pos hpath]
    rw [if_pos hpath, catalog, load_of_get? hnew]
  · have hsame : (s.insert p).get? path = s.get? path := by rw [get?_insert, if_neg hpath]
    rw [if_neg hpath, catalog, catalog]
    cases hget : s.get? path with
    | some q => rw [load_of_get? (hsame.trans hget), load_of_get? hget]
    | none =>
      cases hload : s.source.load path with
      | error e => rw [load_of_error (hsame.trans hget) hload, load_of_error hget hload]
      | ok q => rw [load_of_ok (hsame.trans hget) hload, load_of_ok hget hload]

/-- Loading does not change the catalog. -/
@[simp]
lemma catalog_load (s : LoadedPackages) (path : String) :
    (s.load path).2.catalog = s.catalog := by
  cases hget : s.get? path with
  | some q => rw [load_of_get? hget]
  | none =>
    cases hload : s.source.load path with
    | error e => rw [load_of_error hget hload]
    | ok q =>
      rw [load_of_ok hget hload]
      funext path'
      rw [catalog_insert, s.source.importPath_of_load hload]
      split
      · next hpath => rw [hpath, catalog, load_of_ok hget hload]
      · rfl

/-- Before the first package is loaded a store answers what its source has. -/
lemma catalog_ofSource (source : PackageSource) : (ofSource source).catalog = source.load := by
  funext path
  have hget : (ofSource source).get? path = none := rfl
  cases hload : source.load path with
  | error e => rw [catalog, load_of_error hget hload]
  | ok p => rw [catalog, load_of_ok hget hload]

/-- The second store is the first one after some packages have been asked for. -/
structure Extends (s s' : LoadedPackages) : Prop where
  catalog : s'.catalog = s.catalog
  get? : ∀ {path p}, s.get? path = some p → s'.get? path = some p

namespace Extends

/-- A store extends itself. -/
lemma refl (s : LoadedPackages) : s.Extends s :=
  ⟨rfl, id⟩

/-- A store that extends an extension extends the first store. -/
lemma trans {s s₁ s₂ : LoadedPackages} (h₁ : s.Extends s₁) (h₂ : s₁.Extends s₂) : s.Extends s₂ :=
  ⟨h₂.catalog.trans h₁.catalog, fun h => h₂.get? (h₁.get? h)⟩

/-- A package stays held when the store is extended. -/
lemma holds {s s' : LoadedPackages} (h : s.Extends s') {p : Package} (hp : s.Holds p) :
    s'.Holds p :=
  h.get? hp

/-- Loading extends the store. -/
lemma load (s : LoadedPackages) (path : String) : s.Extends (s.load path).2 :=
  ⟨catalog_load s path, get?_load⟩

end Extends

end LoadedPackages

end GoService.Package

namespace GoService.Resolution

open Data Package Source

/-! ## Lookups in a catalog -/

/-- The first of the paths whose package has a name. -/
def firstNamedIn (c : Catalog) (name : String) (paths : List String) : Option String :=
  paths.find? fun path => (c path).toOption.any (·.name == name)

/-- The path to which a qualifier leads, as far as a catalog tells it. -/
def qualifierIn (c : Catalog) (site : Site) (qualifier : String) : Option String :=
  match site.file.imports.find? qualifier with
  | some i => some i.path
  | none => firstNamedIn c qualifier ((site.file.imports.unnamedExcept qualifier).map (·.path))

/-- What a name refers to, as far as a catalog tells it. -/
def referentIn (c : Catalog) (names : KnownNames) (site : Site) (qualifier : Option Ident)
    (name : Ident) : Option Referent :=
  match qualifier with
  | none => (plainReferent site name.name (site.placeOf name.span)).toOption
  | some q => do
    let path ← qualifierIn c site q.name
    match names.lookup? path name.name with
    | some w => return .type (.wellKnown w)
    | none =>
      let target ← (c path).toOption
      if target.types.contains name.name then return .declared target name.name else none

/-- The struct literal behind a type, if the search for it ends. -/
def literalIn (c : Catalog) (names : KnownNames) :
    Nat → Site → TypeExpr → Option (Option StructLiteral)
  | 0, _, _ => some none
  | n + 1, site, type =>
    match type with
    | .struct _ _ fields _ => some (some ⟨site, fields⟩)
    | .paren _ inner => literalIn c names n site inner
    | .named _ none name [] =>
      match plainDecl? site.package name.name with
      | some (site, type) => literalIn c names n site type
      | none => some none
    | .named _ (some qualifier) name [] => do
      let path ← qualifierIn c site qualifier.name
      if (names.lookup? path name.name).isSome then return none
      let target ← (c path).toOption
      match plainDecl? target name.name with
      | some (site, type) => literalIn c names n site type
      | none => return none
    | _ => some none

/-! ## What a lookup changes -/

/-- One state comes from another by loading packages. -/
structure Loads (k k' : Known) : Prop where
  structs : k'.structs = k.structs
  trail : k'.trail = k.trail
  packages : k.packages.Extends k'.packages

namespace Loads

/-- Nothing needs to be loaded. -/
lemma refl (k : Known) : Loads k k :=
  ⟨rfl, rfl, .refl _⟩

/-- Loading can go on. -/
lemma trans {k k₁ k₂ : Known} (h₁ : Loads k k₁) (h₂ : Loads k₁ k₂) : Loads k k₂ :=
  ⟨h₂.structs.trans h₁.structs, h₂.trail.trans h₁.trail, h₁.packages.trans h₂.packages⟩

/-- Loading a package changes nothing but the packages. -/
lemma load (k : Known) (path : String) : Loads k (k.withPackages (k.packages.load path).2) :=
  ⟨rfl, rfl, .load ..⟩

end Loads

/-- A lookup only loads packages, and gives what `f` reads from the catalog. -/
structure Looks (x : Resolve α) (f : Catalog → Option α) : Prop where
  loads : ∀ k, Loads k (outcome x k).2
  answer : ∀ k, (outcome x k).1.toOption = f k.packages.catalog

namespace Looks

variable {α β : Type}

/-- What a lookup finds is what the catalog tells. -/
lemma of_ok {x : Resolve α} {f : Catalog → Option α} (h : Looks x f) {k k' : Known} {a : α}
    (hx : outcome x k = (.ok a, k')) : Loads k k' ∧ f k.packages.catalog = some a := by
  have hl := h.loads k
  have ha := h.answer k
  rw [hx] at hl ha
  exact ⟨hl, ha.symm⟩

/-- A lookup fails only where the catalog tells nothing. -/
lemma of_error {x : Resolve α} {f : Catalog → Option α} (h : Looks x f) {k k' : Known}
    {e : ResolutionError} (hx : outcome x k = (.error e, k')) :
    Loads k k' ∧ f k.packages.catalog = none := by
  have hl := h.loads k
  have ha := h.answer k
  rw [hx] at hl ha
  exact ⟨hl, ha.symm⟩

/-- A value that is known needs no lookup. -/
lemma pure (a : α) : Looks (pure a) fun _ => some a :=
  ⟨.refl, fun _ => rfl⟩

/-- A lookup can fail at once. -/
lemma throw (e : ResolutionError) : Looks (throw e : Resolve α) fun _ => none :=
  ⟨.refl, fun _ => rfl⟩

/-- Asking for a package gives what the catalog has at its path. -/
lemma askPackage (path : String) : Looks (askPackage path) fun c => some (c path) :=
  ⟨fun k => .load k path, fun _ => rfl⟩

/-- What is settled without packages needs no lookup. -/
lemma liftExcept (r : Except ResolutionError α) :
    Looks (liftExcept r : Resolve α) fun _ => r.toOption := by
  constructor
  · intro k
    rw [outcome_liftExcept]
    exact .refl k
  · intro k
    rw [outcome_liftExcept]

/-- Lookups one after another find what the catalog tells of each. -/
lemma bind {x : Resolve α} {f : Catalog → Option α} {y : α → Resolve β}
    {g : Catalog → α → Option β} (hx : Looks x f) (hy : ∀ a, Looks (y a) fun c => g c a) :
    Looks (x >>= y) fun c => (f c).bind (g c) := by
  have hboth : ∀ k, Loads k (outcome (x >>= y) k).2 ∧
      (outcome (x >>= y) k).1.toOption = (f k.packages.catalog).bind (g k.packages.catalog) := by
    intro k
    rw [outcome_bind]
    obtain ⟨a, k₁, h⟩ | ⟨e, k₁, h⟩ := outcome_cases x k
    · obtain ⟨hl, hf⟩ := hx.of_ok h
      have hg := (hy a).answer k₁
      rw [hl.packages.catalog] at hg
      simp only [h, hf, Option.bind_some]
      exact ⟨hl.trans ((hy a).loads k₁), hg⟩
    · obtain ⟨hl, hf⟩ := hx.of_error h
      simp only [h, hf, Option.bind_none]
      exact ⟨hl, rfl⟩
  exact ⟨fun k => (hboth k).1, fun k => (hboth k).2⟩

end Looks

/-! ## The lookups -/

/-- The first package with a name is found by lookups. -/
lemma looks_firstNamed (name : String) (paths : List String) :
    Looks (firstNamed name paths) fun c => some (firstNamedIn c name paths) := by
  induction paths with
  | nil => exact .pure none
  | cons path paths ih =>
    have hall : Looks (firstNamed name (path :: paths)) fun c => (some (c path)).bind fun answer =>
        if answer.toOption.any (·.name == name) then some (some path)
        else some (firstNamedIn c name paths) := by
      rw [firstNamed]
      refine .bind (.askPackage path) fun answer => ?_
      cases answer with
      | error e => exact ih
      | ok p =>
        by_cases hp : p.name = name
        · simpa [Except.toOption, hp] using Looks.pure (some path)
        · simpa [Except.toOption, hp] using ih
    refine ⟨hall.loads, fun k => (hall.answer k).trans ?_⟩
    simp only [Option.bind_some, firstNamedIn, List.find?_cons]
    split
    · next h => simp [h]
    · next h => simp [h]

/-- The path of a qualifier is found by lookups. -/
lemma looks_qualifierPath (site : Site) (qualifier : String) (place : SourcePlace) :
    Looks (qualifierPath site qualifier place) fun c => qualifierIn c site qualifier := by
  rw [qualifierPath]
  simp only [qualifierIn]
  cases site.file.imports.find? qualifier with
  | some i => exact .pure i.path
  | none =>
    refine .bind (looks_firstNamed ..) (g := fun _ path => path) fun path => ?_
    cases path with
    | some path => exact .pure path
    | none => exact .throw _

/-- The package at a path is found by a lookup. -/
lemma looks_packageAt (path name : String) (place : SourcePlace) :
    Looks (packageAt path name place) fun c => (c path).toOption := by
  refine .bind (.askPackage path) (g := fun _ answer => answer.toOption) fun answer => ?_
  cases answer with
  | ok p => exact .pure p
  | error e =>
    cases e with
    | locate e => exact .throw _
    | load e =>
      cases e with
      | noSources importPath dir => exact .throw _
      | _ => exact .throw _

/-- Where a name is read shows only in errors. -/
lemma toOption_plainReferent (site : Site) (name : String) (place place' : SourcePlace) :
    (plainReferent site name place).toOption = (plainReferent site name place').toOption := by
  unfold plainReferent
  repeat' split
  all_goals rfl

/-- What a name refers to is found by lookups. -/
lemma looks_referentOf (names : KnownNames) (site : Site) (qualifier : Option Ident)
    (name : Ident) (place : SourcePlace) :
    Looks (referentOf names site qualifier name place)
      fun c => referentIn c names site qualifier name := by
  cases qualifier with
  | none =>
    simp only [referentIn, toOption_plainReferent site name.name _ place]
    exact .liftExcept _
  | some q =>
    refine .bind (looks_qualifierPath ..) fun path => ?_
    cases names.lookup? path name.name with
    | some w => exact .pure _
    | none =>
      refine .bind (looks_packageAt ..) fun target => ?_
      by_cases h : target.types.contains name.name
      · simp only [h, if_true]
        exact .pure _
      · simp only [h]
        exact .throw _

/-- A name that stands for a type without a declaration stands for no struct. -/
lemma structKeys_of_referentIn {c : Catalog} {names : KnownNames} {site : Site}
    {qualifier : Option Ident} {ident : Ident} {t : DataType}
    (h : referentIn c names site qualifier ident = some (.type t)) : t.structKeys = [] := by
  cases qualifier with
  | none =>
    simp only [referentIn, plainReferent] at h
    repeat' split at h
    all_goals simp only [Except.toOption, Option.some.injEq, Referent.type.injEq, reduceCtorEq] at h
    all_goals rw [← h, DataType.structKeys]
  | some q =>
    obtain ⟨path, -, h⟩ := Option.bind_eq_some_iff.1 h
    split at h
    · cases h
      rfl
    · obtain ⟨target, -, h⟩ := Option.bind_eq_some_iff.1 h
      split at h
      · cases h
      · cases h

/-- A declared type for which a name stands is declared in the package of the file, or in one to
which a qualifier leads. -/
lemma package_of_referentIn {c : Catalog} {names : KnownNames} {site : Site}
    {qualifier : Option Ident} {ident : Ident} {p : Package} {x : String}
    (h : referentIn c names site qualifier ident = some (.declared p x)) :
    p.types.contains x ∧
      (p = site.package ∨ ∃ q path, qualifierIn c site q = some path ∧ c path = .ok p) := by
  cases qualifier with
  | none =>
    simp only [referentIn, plainReferent] at h
    split at h
    · next hcontains =>
      cases h
      exact ⟨hcontains, .inl rfl⟩
    · repeat' split at h
      all_goals simp [Except.toOption] at h
  | some q =>
    obtain ⟨path, hpath, h⟩ := Option.bind_eq_some_iff.1 h
    split at h
    · cases h
    · obtain ⟨target, htarget, h⟩ := Option.bind_eq_some_iff.1 h
      split at h
      · next hcontains =>
        cases h
        cases hok : c path with
        | error e => simp [hok, Except.toOption] at htarget
        | ok q' =>
          rw [hok] at htarget
          cases htarget
          exact ⟨hcontains, .inr ⟨q.name, path, hpath, hok⟩⟩
      · cases h

/-- The package of a site is the one in the catalog. -/
def Site.In (site : Site) (c : Catalog) : Prop :=
  c site.package.importPath = .ok site.package

/-- A declared type for which a name stands is in a package of the catalog, and is declared there.
-/
lemma declared_of_referentIn {c : Catalog} (hc : c.Keyed) {names : KnownNames} {site : Site}
    (hsite : site.In c) {qualifier : Option Ident} {ident : Ident} {p : Package} {x : String}
    (h : referentIn c names site qualifier ident = some (.declared p x)) :
    c p.importPath = .ok p ∧ p.types.contains x := by
  obtain ⟨hx, rfl | ⟨_, path, -, hp⟩⟩ := package_of_referentIn h
  · exact ⟨hsite, hx⟩
  · exact ⟨hc path p hp ▸ hp, hx⟩

/-- The declaration of a name without type parameters is one that can be followed. -/
lemma plainDecl?_of_type? {p : Package} {x : String} {d : DeclaredType} (hd : p.type? x = some d)
    (hplain : d.spec.typeParams = none) : plainDecl? p x = some (⟨p, d.file⟩, d.spec.type) := by
  simp [plainDecl?, hd, hplain]

/-- A declared type without type parameters is in a file of its package. -/
lemma eq_of_plainDecl? {p : Package} {x : String} {site : Site} {type : TypeExpr}
    (h : plainDecl? p x = some (site, type)) :
    ∃ d, p.type? x = some d ∧ site = ⟨p, d.file⟩ ∧ type = d.spec.type := by
  rw [plainDecl?] at h
  split at h
  · next d hd =>
    split at h
    · cases h
      exact ⟨d, hd, rfl, rfl⟩
    · cases h
  · cases h

/-- The struct behind a type is found by lookups. -/
lemma looks_structLiteral? (names : KnownNames) (place : SourcePlace) (n : Nat) (site : Site)
    (type : TypeExpr) :
    Looks (structLiteral? names place n site type) fun c => literalIn c names n site type := by
  induction n generalizing site type with
  | zero => exact .pure none
  | succ n ih =>
    cases type with
    | named span qualifier name args =>
      cases args with
      | cons arg args => 
        cases qualifier with
        | none => exact .pure none
        | some q => exact .pure none
      | nil =>
        cases qualifier with
        | none =>
          simp only [structLiteral?, literalIn]
          cases plainDecl? site.package name.name with
          | none => exact .pure none
          | some d => exact ih ..
        | some q =>
          refine .bind (looks_qualifierPath ..) fun path => ?_
          by_cases hw : (names.lookup? path name.name).isSome
          · simp only [hw, if_true]
            exact .pure none
          · simp only [hw]
            refine .bind (looks_packageAt ..) fun target => ?_
            cases plainDecl? target name.name with
            | none => exact .pure none
            | some d => exact ih ..
    | struct span lBrace fields rBrace => exact .pure _
    | paren span inner => exact ih ..
    | _ => exact .pure none

/-! ## What lookups load -/

/-- A package that was asked for is held afterwards. -/
lemma packageAt_holds (path use : String) (place : SourcePlace) (k : Known) :
    Ends (packageAt path use place) k (fun p k' => k'.packages.Holds p) fun _ _ => True := by
  refine .bind (.of_ok (outcome_askPackage path) ?_)
  cases h : (k.packages.load path).1 with
  | ok p => exact .pure (LoadedPackages.holds_of_catalog h).2
  | error e =>
    cases e with
    | locate e => exact .throw trivial
    | load e =>
      cases e with
      | noSources importPath dir => exact .throw trivial
      | _ => exact .throw trivial

/-- The package to which a name leads is held. -/
lemma referentOf_holds (names : KnownNames) {site : Site} {k : Known}
    (hsite : k.packages.Holds site.package) (qualifier : Option Ident) (ident : Ident)
    (place : SourcePlace) :
    Ends (referentOf names site qualifier ident place) k
      (fun r k' => ∀ p x, r = .declared p x → k'.packages.Holds p) fun _ _ => True := by
  cases qualifier with
  | none =>
    refine (Ends.of_outcome _ k).imp (fun {r k'} h => ?_) fun _ => trivial
    rintro p x rfl
    simp only [referentOf, outcome_liftExcept, plainReferent, Prod.mk.injEq] at h
    obtain ⟨h, rfl⟩ := h
    repeat' split at h
    all_goals cases h
    exact hsite
  | some q =>
    refine .bind ((Ends.of_outcome _ k).imp (fun {path k₁} _ => ?_) fun _ => trivial)
    cases names.lookup? path ident.name with
    | some w => exact .pure (by nofun)
    | none =>
      refine .bind ((packageAt_holds path ident.name place k₁).imp (fun {target k₂} h => ?_) id)
      by_cases hx : target.types.contains ident.name
      · simp only [hx, if_true]
        refine .pure fun p x hr => ?_
        cases hr
        exact h
      · simp only [hx]
        exact .throw trivial

/-- The package of the literal to which a search leads is held. -/
lemma structLiteral?_holds (names : KnownNames) (place : SourcePlace) (n : Nat) {site : Site}
    {k : Known} (hsite : k.packages.Holds site.package) (type : TypeExpr) :
    Ends (structLiteral? names place n site type) k
      (fun found k' => ∀ source, found = some source → k'.packages.Holds source.site.package)
      fun _ _ => True := by
  induction n generalizing site type k with
  | zero => exact .pure (by nofun)
  | succ n ih =>
    have hdecl : ∀ {p : Package} {x : String} {site' type'}, plainDecl? p x = some (site', type') →
        site'.package = p := by
      intro p x site' type' h
      obtain ⟨d, -, rfl, -⟩ := eq_of_plainDecl? h
      rfl
    cases type with
    | named span qualifier ident args =>
      cases args with
      | cons arg args =>
        cases qualifier with
        | none => exact .pure (by nofun)
        | some q => exact .pure (by nofun)
      | nil =>
        cases qualifier with
        | none =>
          simp only [structLiteral?]
          cases h : plainDecl? site.package ident.name with
          | none => exact .pure (by nofun)
          | some d => exact ih (hdecl h ▸ hsite) _
        | some q =>
          refine .bind ((Ends.of_outcome _ k).imp (fun {path k₁} _ => ?_) fun _ => trivial)
          by_cases hw : (names.lookup? path ident.name).isSome
          · simp only [hw, if_true]
            exact .pure (by nofun)
          · simp only [hw]
            refine .bind ((packageAt_holds path ident.name place k₁).imp
              (fun {target k₂} htarget => ?_) id)
            cases h : plainDecl? target ident.name with
            | none => exact .pure (by nofun)
            | some d => exact ih (hdecl h ▸ htarget) _
    | struct span lBrace fields rBrace =>
      refine .pure fun source h => ?_
      cases h
      exact hsite
    | paren span inner => exact ih hsite inner
    | _ => exact .pure (by nofun)

end GoService.Resolution
