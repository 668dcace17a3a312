import GoService.Proofs.Resolution.Growth
import GoService.Proofs.Resolution.Meaning

/-!
# Faithful tables

A table is faithful to a catalog if every key in it is that of a struct which the catalog declares,
and every finished struct is the one that its declaration means. Resolutions that succeed keep
tables faithful and answer what is meant, whatever structs the table holds and whichever of them are
in progress: copying the fields of a finished struct and reading a declaration again come to the
same.
-/

namespace GoService.Resolution

open Data Package Source

variable {c : Catalog} {names : KnownNames} {n : Nat} {k k' : Known}

/-- Fields are what a struct literal means: its fields flattened, written over one another by name.
-/
def FieldsMean (c : Catalog) (names : KnownNames) (source : StructLiteral)
    (fields : List StructField) : Prop :=
  ∃ gs, Flattens c names source.site source.fields gs ∧ fields = gs.foldl putField []

/-- A struct literal means one list of fields only. -/
lemma FieldsMean.unique {source : StructLiteral} {fields fields' : List StructField}
    (h : FieldsMean c names source fields) (h' : FieldsMean c names source fields') :
    fields = fields' := by
  obtain ⟨gs, hgs, rfl⟩ := h
  obtain ⟨gs', hgs', rfl⟩ := h'
  rw [hgs.unique hgs']

/-- A struct is what the declaration of a name means. -/
def StructMeans (c : Catalog) (names : KnownNames) (p : Package) (x : String) (s : Struct) : Prop :=
  ∃ d source fields, Declares c names p x d (some source) ∧ d.spec.typeParams = none ∧
    FieldsMean c names source fields ∧ s = declaredStruct p x d fields

/-- The key is that of a declared struct, and the struct at it is the one that is meant, if it is
finished. -/
structure EntryFaithful (c : Catalog) (names : KnownNames) (key : String) (state : StructState) :
    Prop where
  declared : ∃ p x d source, key = keyIn p x ∧ Declares c names p x d (some source) ∧
    d.spec.typeParams = none
  meant : ∀ s, state = .resolved s → ∃ p x, key = keyIn p x ∧ StructMeans c names p x s

/-- Every entry of a table is what its declaration means. -/
def Faithful (c : Catalog) (names : KnownNames) (t : StructTable) : Prop :=
  ∀ e ∈ t.states.entries, EntryFaithful c names e.1 e.2

/-- What is meant by a key is one struct at most. -/
lemma StructMeans.unique {p p' : Package} {x x' : String} {s s' : Struct}
    (h : StructMeans c names p x s) (h' : StructMeans c names p' x' s')
    (hkey : keyIn p x = keyIn p' x') : s = s' := by
  obtain ⟨d, source, fields, hd, -, hf, rfl⟩ := h
  obtain ⟨d', source', fields', hd', -, hf', rfl⟩ := h'
  obtain ⟨rfl, rfl⟩ := hd.eq_of_key hd' hkey
  obtain ⟨rfl, hsource⟩ := hd.unique hd'
  cases hsource
  rw [hf.unique hf']

namespace Faithful

variable {t : StructTable} {key : String}

/-- The table without entries is faithful. -/
lemma empty (c : Catalog) (names : KnownNames) : Faithful c names .empty :=
  fun _ h => absurd h List.not_mem_nil

/-- A key of a faithful table is that of a declared struct. -/
lemma declared (h : Faithful c names t) (hkey : key ∈ t.keys) :
    ∃ p x d source, key = keyIn p x ∧ Declares c names p x d (some source) ∧
      d.spec.typeParams = none := by
  obtain ⟨e, he, rfl⟩ := List.mem_map.1 hkey
  exact (h e he).declared

/-- A finished struct of a faithful table is what its declaration means. -/
lemma meant (h : Faithful c names t) {s : Struct} (hs : (key, .resolved s) ∈ t.states.entries) :
    ∃ p x, key = keyIn p x ∧ StructMeans c names p x s :=
  (h _ hs).meant s rfl

/-- Entering a declared struct keeps a table faithful. -/
lemma enter (h : Faithful c names t) {p : Package} {x : String} {d : DeclaredType}
    {source : StructLiteral} (hd : Declares c names p x d (some source))
    (hplain : d.spec.typeParams = none) : Faithful c names (t.enter (keyIn p x)) := by
  intro e he
  rcases Dict.mem_entries_insert he with rfl | he
  · exact ⟨⟨p, x, d, source, rfl, hd, hplain⟩, nofun⟩
  · exact h e he

/-- Completing a struct as its declaration means keeps a table faithful. -/
lemma complete (h : Faithful c names t) {p : Package} {x : String} {s : Struct}
    (hs : StructMeans c names p x s) : Faithful c names (t.complete (keyIn p x) s) := by
  intro e he
  rw [StructTable.complete] at he
  split at he
  · rcases Dict.mem_entries_insert he with rfl | he
    · obtain ⟨d, source, fields, hd, hplain, -⟩ := id hs
      refine ⟨⟨p, x, d, source, rfl, hd, hplain⟩, ?_⟩
      intro s' hs'
      cases hs'
      exact ⟨p, x, rfl, hs⟩
    · exact h e he
  · exact h e he

end Faithful

/-! ## Resolutions answer what is meant -/

/-- What a goal is about is in a catalog. -/
def Goal.In (c : Catalog) : Goal → Prop
  | .type site _ | .fields site .. | .field site .. => site.In c
  | .decl p x _ => c p.importPath = .ok p ∧ p.types.contains x
  | .literal _ source => source.site.In c
  | .embedded .. => True

/-- An answer is what a goal means. -/
def Goal.Means (c : Catalog) (names : KnownNames) : Goal → Answer → Prop
  | .type site written, .type t => Resolution.Means c names site written t
  | .decl p x _, .type t =>
    (∃ d source, Declares c names p x d (some source) ∧ d.spec.typeParams = none ∧
      t = .struct (keyIn p x)) ∨
    ∃ d, Declares c names p x d none ∧ d.spec.typeParams = none ∧
      Resolution.Means c names ⟨p, d.file⟩ d.spec.type t
  | .literal _ source, .fields fs => FieldsMean c names source fs
  | .fields site written out, .fields fs =>
    ∃ gs, Flattens c names site written gs ∧ fs = gs.foldl putField out
  | .field site f out, .fields fs =>
    ∃ gs, Flattens c names site [f] gs ∧ fs = gs.foldl putField out
  | .embedded key _, .fields fs =>
    ∃ p x d source, key = keyIn p x ∧ Declares c names p x d (some source) ∧
      FieldsMean c names source fs
  | _, _ => False

/-- A search for a literal goes from types of one property to types with the same property, if names
that are followed lead to packages of the catalog. -/
lemma literal_of_literalIn {P : Site → TypeExpr → Prop} {m : Nat} {site : Site} {type : TypeExpr}
    {source : StructLiteral} (htype : P site type)
    (hparen : ∀ {site span inner}, P site (.paren span inner) → P site inner)
    (hlocal : ∀ {site span ident d}, P site (.named span none ident []) →
      site.package.type? ident.name = some d → P ⟨site.package, d.file⟩ d.spec.type)
    (hqualified : ∀ {site span q ident path p d}, P site (.named span (some q) ident []) →
      qualifierIn c site q.name = some path → c path = .ok p → p.type? ident.name = some d →
      P ⟨p, d.file⟩ d.spec.type)
    (h : literalIn c names m site type = some (some source)) :
    ∃ span lBrace rBrace, P source.site (.struct span lBrace source.fields rBrace) := by
  induction m generalizing site type with
  | zero => cases h
  | succ m ih =>
    cases type with
    | struct span lBrace fields rBrace =>
      cases h
      exact ⟨span, lBrace, rBrace, htype⟩
    | paren span inner => exact ih (hparen htype) h
    | named span qualifier ident args =>
      cases args with
      | cons arg args => cases qualifier <;> cases h
      | nil =>
        cases qualifier with
        | none =>
          -- a local name is followed in its own package
          simp only [literalIn] at h
          split at h
          · next site' type' hd =>
            obtain ⟨d, hdecl, rfl, rfl⟩ := eq_of_plainDecl? hd
            exact ih (hlocal htype hdecl) h
          · cases h
        | some q =>
          -- a qualified name is followed in the package that is imported
          obtain ⟨path, hpath, h⟩ := Option.bind_eq_some_iff.1 h
          split at h
          · cases h
          · obtain ⟨p, hp, h⟩ := Option.bind_eq_some_iff.1 h
            split at h
            · next site' type' hd =>
              obtain ⟨d, hdecl, rfl, rfl⟩ := eq_of_plainDecl? hd
              cases hok : c path with
              | error e => simp [hok, Except.toOption] at hp
              | ok p' =>
                rw [hok] at hp
                cases hp
                exact ih (hqualified htype hpath hok hdecl) h
            · cases h
    | _ => cases h

/-- So a search goes from files of one property to files with the same property. -/
lemma site_of_literalIn {P : Site → Prop} {m : Nat} {site : Site} {type : TypeExpr}
    {source : StructLiteral} (hsite : P site)
    (hlocal : ∀ {site : Site} {x d}, P site → site.package.type? x = some d →
      P ⟨site.package, d.file⟩)
    (hqualified : ∀ {site : Site} {q path p x d}, P site → qualifierIn c site q = some path →
      c path = .ok p → p.type? x = some d → P ⟨p, d.file⟩)
    (h : literalIn c names m site type = some (some source)) : P source.site := by
  obtain ⟨-, -, -, hliteral⟩ := literal_of_literalIn (P := fun site _ => P site) hsite id hlocal
    hqualified h
  exact hliteral

/-- The struct of a declaration is written in a package of the catalog. -/
lemma Declares.source_in (hc : c.Keyed) {p : Package} {x : String} {d : DeclaredType}
    {source : StructLiteral} (h : Declares c names p x d (some source)) : source.site.In c := by
  have hsite : Site.In ⟨p, d.file⟩ c := h.held
  refine site_of_literalIn (P := fun site => site.In c) hsite (fun hsite _ => hsite) ?_ h.search
  intro site q path p x d _ _ hp _
  rw [← hc path p hp] at hp
  exact hp

/-- What is opened is a declaration with its struct, if it has one. -/
lemma Opens.declares {p : Package} {x : String} {place : SourcePlace} {d : DeclaredType}
    {source : Option StructLiteral} (h : Opens names k p x place d source k')
    (hp : k.packages.catalog p.importPath = .ok p) :
    Declares k.packages.catalog names p x d source :=
  ⟨hp, h.declared, ((looks_structLiteral? ..).of_ok h.search).2⟩

/-- A declaration whose search ends is opened. -/
lemma Declares.opens {p : Package} {x : String} {d : DeclaredType} {source : Option StructLiteral}
    (h : Declares k.packages.catalog names p x d source) (hplain : d.spec.typeParams = none)
    (hfresh : keyIn p x ∉ k.structs.keys) (place : SourcePlace) :
    ∃ k₁, Opens names k p x place d source k₁ := by
  have hlooks := looks_structLiteral? names place nameHopLimit ⟨p, d.file⟩ d.spec.type
  have hsearch := h.search
  obtain ⟨found, k₁, ho⟩ | ⟨e, k₁, ho⟩ := outcome_cases
    (structLiteral? names place nameHopLimit ⟨p, d.file⟩ d.spec.type) k
  · cases hsearch.symm.trans (hlooks.of_ok ho).2
    exact ⟨k₁, mt StructTable.contains_iff.1 hfresh, h.declared, hplain, ho⟩
  · cases hsearch.symm.trans (hlooks.of_error ho).2

/-- A declaration that is found by its key is that of a name in a package that is held. -/
lemma declared_of_knownDecl? {s : LoadedPackages} {key : String} {site : Site} {type : TypeExpr}
    (h : knownDecl? s key = some (site, type)) :
    ∃ p x d, key = keyIn p x ∧ s.Holds p ∧ p.type? x = some d ∧ site = ⟨p, d.file⟩ ∧
      type = d.spec.type := by
  obtain ⟨⟨path, x⟩, hsplit, h⟩ := Option.bind_eq_some_iff.1 h
  obtain ⟨p, hp, h⟩ := Option.bind_eq_some_iff.1 h
  obtain ⟨d, hdecl, h⟩ := Option.bind_eq_some_iff.1 h
  cases h
  obtain ⟨rfl, hheld⟩ := LoadedPackages.holds_of_get? hp
  exact ⟨p, x, d, declKey_of_splitKey? hsplit, hheld, hdecl, rfl, rfl⟩

/-- A declaration in a package that is held is found by its key. -/
lemma knownDecl?_of_holds {s : LoadedPackages} {p : Package} {x : String} {d : DeclaredType}
    (hp : s.Holds p) (hd : p.type? x = some d) :
    knownDecl? s (keyIn p x) = some (⟨p, d.file⟩, d.spec.type) := by
  have hsplit : splitKey? (keyIn p x) = some (p.importPath, x) :=
    splitKey?_declKey (dot_notMem_of_type? hd)
  have hget : s.get? p.importPath = some p := hp
  simp [knownDecl?, hsplit, hget, hd]

/-- What is opened again is a declaration with its struct, if it has one. -/
lemma Reopens.declares {key : String} {place : SourcePlace} {source : Option StructLiteral}
    (h : Reopens names k key place source k') :
    ∃ p x d, key = keyIn p x ∧ k.packages.Holds p ∧
      Declares k.packages.catalog names p x d source := by
  obtain ⟨site, type, hd, hsearch⟩ := h.search
  obtain ⟨p, x, d, hkey, hheld, hdecl, rfl, rfl⟩ := declared_of_knownDecl? hd
  exact ⟨p, x, d, hkey, hheld, hheld.catalog, hdecl, ((looks_structLiteral? ..).of_ok hsearch).2⟩

/-- The package of the literal behind a declaration that is opened is held. -/
lemma Opens.holds {p : Package} {x : String} {place : SourcePlace} {d : DeclaredType}
    {source : StructLiteral} (h : Opens names k p x place d (some source) k')
    (hp : k.packages.Holds p) : k'.packages.Holds source.site.package :=
  (structLiteral?_holds names place nameHopLimit hp d.spec.type).ok h.search source rfl

/-- The package in which the struct is written is held once it is opened again. -/
lemma Reopens.holds {key : String} {place : SourcePlace} {source : StructLiteral}
    (h : Reopens names k key place (some source) k') : k'.packages.Holds source.site.package := by
  obtain ⟨site, type, hd, hsearch⟩ := h.search
  obtain ⟨p, x, d, -, hp, -, rfl, -⟩ := declared_of_knownDecl? hd
  exact (structLiteral?_holds names place nameHopLimit hp type).ok hsearch source rfl

/-- In a state whose table is faithful, a resolution that succeeds answers what is meant and leaves
a faithful table. -/
theorem Resolves.means {g : Goal} {a : Answer} (h : Resolves names n k g a k')
    (hc : k.packages.catalog = c) (hk : Faithful c names k.structs) (hg : g.In c) :
    Faithful c names k'.structs ∧ g.Means c names a := by
  have hkeyed : c.Keyed := by
    rw [← hc]
    exact k.packages.keyed_catalog
  induction h with
  | paren _ ih =>
    obtain ⟨hk', ht⟩ := ih hc hk hg
    exact ⟨hk', .paren ht⟩
  | pointer _ ih =>
    obtain ⟨hk', ht⟩ := ih hc hk hg
    exact ⟨hk', .pointer ht⟩
  | slice _ ih =>
    obtain ⟨hk', ht⟩ := ih hc hk hg
    exact ⟨hk', .slice ht⟩
  | array _ ih =>
    obtain ⟨hk', ht⟩ := ih hc hk hg
    exact ⟨hk', .array ht⟩
  | map hkey _ ihkey ihval =>
    obtain ⟨hk₁, hb⟩ := ihkey hc hk hg
    obtain ⟨hk', ht⟩ := ihval (hkey.grows.packages.catalog.trans hc) hk₁ hg
    exact ⟨hk', .map hb ht⟩
  | any => exact ⟨hk, .any⟩
  | known hname =>
    obtain ⟨hl, hr⟩ := (looks_referentOf ..).of_ok hname
    rw [hc] at hr
    rw [← hl.structs] at hk
    exact ⟨hk, .known hr⟩
  | declared hname _ ih =>
    obtain ⟨hl, hr⟩ := (looks_referentOf ..).of_ok hname
    rw [hc] at hr
    rw [← hl.structs] at hk
    have hp := declared_of_referentIn hkeyed hg hr
    obtain ⟨hk', hmeans⟩ := ih (hl.packages.catalog.trans hc) hk hp
    refine ⟨hk', ?_⟩
    rcases hmeans with ⟨d, source, hd, hplain, ht⟩ | ⟨d, hd, hplain, ht⟩
    · cases ht
      exact .struct hr hd hplain
    · exact .expand hr hd hplain ht
  | entered hkey =>
    -- the key may be that of another declaration, as far as the table can tell
    obtain ⟨p', x', d', source, heq, hd', hplain⟩ := hk.declared (StructTable.contains_iff.1 hkey)
    obtain ⟨d, hd⟩ := Option.isSome_iff_exists.1 hg.2
    obtain ⟨rfl, rfl⟩ := keyIn_injective hg.1 hd hd'.held hd'.declared heq
    exact ⟨hk, .inl ⟨d', source, hd', hplain, rfl⟩⟩
  | struct ho h ih =>
    have hd := ho.declares (hc ▸ hg.1)
    rw [hc] at hd
    rw [← ho.loads.structs] at hk
    obtain ⟨hk₂, hfs⟩ :=
      ih (ho.loads.packages.catalog.trans hc) (hk.enter hd ho.plain) (hd.source_in hkeyed)
    refine ⟨hk₂.complete ⟨_, _, _, hd, ho.plain, hfs, rfl⟩, .inl ⟨_, _, hd, ho.plain, rfl⟩⟩
  | expand ho _ _ ih =>
    have hd := ho.declares (hc ▸ hg.1)
    rw [hc] at hd
    rw [← ho.loads.structs] at hk
    obtain ⟨hk', ht⟩ := ih (ho.loads.packages.catalog.trans hc) hk hg.1
    exact ⟨hk', .inr ⟨_, hd, ho.plain, ht⟩⟩
  | literal _ ih => exact ih hc hk hg
  | nil => exact ⟨hk, [], .nil, rfl⟩
  | cons hf _ ihf ihfs =>
    obtain ⟨hk₁, gs, hgs, rfl⟩ := ihf hc hk hg
    obtain ⟨hk', gs', hgs', rfl⟩ := ihfs (hf.grows.packages.catalog.trans hc) hk₁ hg
    exact ⟨hk', gs ++ gs', hgs.cons hgs', (List.foldl_append ..).symm⟩
  | skipped hskip => exact ⟨hk, [], .skipped hskip .nil, rfl⟩
  | named hskip hemb _ ih =>
    obtain ⟨hk', ht⟩ := ih hc hk hg
    refine ⟨hk', _, .named hskip hemb ht .nil, ?_⟩
    rw [List.append_nil]
  | tagged hskip hemb htag _ ih =>
    obtain ⟨hk', ht⟩ := ih hc hk hg
    exact ⟨hk', _, .tagged hskip hemb htag ht .nil, rfl⟩
  | inlined hskip hemb htag h _ ih ihkey =>
    obtain ⟨hk₁, ht⟩ := ih hc hk hg
    obtain ⟨hk', p, x, d, source, rfl, hd, gs, hgs, rfl⟩ :=
      ihkey (h.grows.packages.catalog.trans hc) hk₁ trivial
    refine ⟨hk', _, .inlined hskip hemb htag ht hd hgs .nil, ?_⟩
    rw [List.append_nil]
  | wrapped hskip hemb htag hwritten _ ih =>
    obtain ⟨hk', ht⟩ := ih hc hk hg
    exact ⟨hk', _, .wrapped hskip hemb htag hwritten ht .nil, rfl⟩
  | finished _ hs =>
    -- the fields are copied, and the table has the struct that is meant
    obtain ⟨p, x, hkey, d, source, fields, hd, -, hf, rfl⟩ :=
      hk.meant (StructTable.mem_of_get? hs)
    exact ⟨hk, p, x, d, source, hkey, hd, hf⟩
  | unfinished ho _ ih =>
    obtain ⟨p, x, d, hkey, -, hd⟩ := ho.declares
    rw [hc] at hd
    rw [← ho.loads.structs] at hk
    obtain ⟨hk', hfs⟩ := ih (ho.loads.packages.catalog.trans hc) hk (hd.source_in hkeyed)
    exact ⟨hk', p, x, d, _, hkey, hd, hfs⟩

end GoService.Resolution
