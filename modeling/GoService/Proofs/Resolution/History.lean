import GoService.Proofs.Resolution.Faithful

/-!
# Histories

The states to which histories of resolutions lead, and the states on the way. A history asks for
packages, resolves types and declared names of packages that are held, with success or without, and
rewinds the table to marks that were taken earlier. A moment is a state in which a history can be
found: after a step, or while a resolution is under way.

Whatever the history, a struct that is finished is the one that its declaration means
(`structs_as_meant`).
-/

namespace GoService.Resolution

open Data Package Source

/-- The second state comes from the first by a history of resolutions. -/
inductive Follows (names : KnownNames) : Known → Known → Prop
  | refl (k : Known) : Follows names k k
  | load (h : Follows names k₀ k) (path : String) :
      Follows names k₀ (k.withPackages (k.packages.load path).2)
  | resolve (h : Follows names k₀ k) (hp : k.packages.Holds site.package) (type : TypeExpr) :
      Follows names k₀ (outcome (resolve names site type) k).2
  | resolveName (h : Follows names k₀ k) (hp : k.packages.Holds p) (x : String) :
      Follows names k₀ (outcome (resolveName names p x) k).2
  | rewind (h : Follows names k₀ k) (h' : Follows names k k') :
      Follows names k₀ (k'.withStructs (k'.structs.rewind k.structs.mark))

/-- The states to which histories lead that start from packages only. -/
def Reached (names : KnownNames) (store : LoadedPackages) (k : Known) : Prop :=
  Follows names (.start store) k

/-- The states in which a history of resolutions can be found, also while one is under way: the
fields of a struct are about to be worked out, a declaration to be expanded or a struct to be
embedded, or something that was asked for in such a state has been answered. -/
inductive Moment (names : KnownNames) (store : LoadedPackages) : Known → Prop
  | reached (h : Reached names store k) : Moment names store k
  | enter (h : Moment names store k) (hp : store.catalog p.importPath = .ok p)
      (ho : Opens names k p x place d (some source) k₁) :
      Moment names store (k₁.enterStruct (keyIn p x))
  | expand (h : Moment names store k) (hp : store.catalog p.importPath = .ok p)
      (ho : Opens names k p x place d none k₁) : Moment names store (k₁.expand (keyIn p x))
  | embed (h : Moment names store k) (ho : Reopens names k key place source k₁) :
      Moment names store (k₁.embed key)
  | answer (h : Moment names store k) (hg : g.In store.catalog)
      (hr : Resolves names n k g a k') : Moment names store k'

variable {names : KnownNames} {store : LoadedPackages} {k k' : Known}

/-- Whatever ends only as derivations for a type say makes the table grow or leaves it. -/
lemma Derives.grows {x : Resolve DataType} {g : Goal} {n : Nat}
    (hx : Derives names n x g .type) (k : Known) : k.Grows (outcome x k).2 := by
  obtain ⟨t, k', ho⟩ | ⟨e, k', ho⟩ := outcome_cases x k
  · rw [ho]
    exact ((hx k).ok ho).grows
  · rw [ho]
    exact ((hx k).error ho).restores.1

/-- A history only adds: it drops nothing that was there at its start. -/
lemma Follows.grows (h : Follows names k k') : k.Grows k' := by
  induction h with
  | refl k => exact .refl k
  | load _ path ih => exact ih.trans (.of_loads (.load ..))
  | resolve _ _ type ih =>
    rw [outcome_resolve]
    exact ih.trans ((typeOf_derives (stepsWithin_derive names _) _ type).grows _)
  | resolveName _ _ x ih =>
    rw [outcome_resolveName]
    exact ih.trans (((stepsWithin_derive names _).decl _ x _).grows _)
  | rewind _ _ ih ih' => exact ih.trans (.of_loads ih'.rewind)

/-- Between resolutions everything in the table is finished. -/
lemma Reached.finished (h : Reached names store k) {key : String} (hkey : key ∈ k.structs.keys) :
    ∃ s, k.structs.get? key = some s :=
  h.grows.structs.finished hkey List.not_mem_nil

/-- A resolution keeps the table faithful, whether it succeeds or fails. -/
lemma Derives.faithful {c : Catalog} {x : Resolve DataType} {g : Goal} {n : Nat}
    (hx : Derives names n x g .type) (hg : g.AsksType) (hin : g.In c)
    (hc : k.packages.catalog = c) (hk : Faithful c names k.structs) :
    Faithful c names (outcome x k).2.structs := by
  obtain ⟨t, k', ho⟩ | ⟨e, k', ho⟩ := outcome_cases x k
  · rw [ho]
    exact (((hx k).ok ho).means hc hk hin).1
  · rw [ho, (((hx k).error ho).restores.2 hg).structs]
    exact hk

/-- A name that is not declared leaves the table as it is. -/
lemma structs_resolveName_of_undeclared {p : Package} {x : String} (hx : p.type? x = none) :
    (outcome (resolveName names p x) k).2.structs = k.structs := by
  have hends := resolveName_ends names p x k
  obtain ⟨t, k', ho⟩ | ⟨e, k', ho⟩ := outcome_cases (resolveName names p x) k
  · rw [ho]
    have hr := hends.ok ho
    generalize stepBound k.packages.weight = n at hr
    cases hr with
    | entered => rfl
    | struct h => cases hx.symm.trans h.declared
    | expand h => cases hx.symm.trans h.declared
  · rw [ho]
    exact ((hends.error ho).restores.2 trivial).structs

/-- A history keeps the table faithful. -/
lemma Follows.faithful {c : Catalog} (h : Follows names k k') (hc : k.packages.catalog = c)
    (hk : Faithful c names k.structs) : Faithful c names k'.structs := by
  induction h with
  | refl k => exact hk
  | load _ path ih => exact ih hc hk
  | resolve h hp type ih =>
    have hcat := h.grows.packages.catalog.trans hc
    rw [outcome_resolve]
    have hin : Goal.In c (.type _ type) := hcat ▸ hp.catalog
    exact (typeOf_derives (stepsWithin_derive names _) _ type).faithful trivial hin hcat (ih hc hk)
  | @resolveName _ _ p h hp x ih =>
    have hcat := h.grows.packages.catalog.trans hc
    cases hx : p.type? x with
    | none =>
      rw [structs_resolveName_of_undeclared hx]
      exact ih hc hk
    | some d =>
      have hin : Goal.In c (.decl p x (declPlace p x)) :=
        ⟨hcat ▸ hp.catalog, Option.isSome_iff_exists.2 ⟨d, hx⟩⟩
      rw [outcome_resolveName]
      exact ((stepsWithin_derive names _).decl p x _).faithful trivial hin hcat (ih hc hk)
  | rewind _ h' ih _ =>
    rw [h'.grows.rewind.structs]
    exact ih hc hk

/-- At every moment the catalog is the one of the start, and the table is faithful. -/
lemma Moment.faithful (h : Moment names store k) :
    k.packages.catalog = store.catalog ∧ Faithful store.catalog names k.structs := by
  induction h with
  | reached h => exact ⟨h.grows.packages.catalog, h.faithful rfl (.empty _ _)⟩
  | enter _ hp ho ih =>
    obtain ⟨hc, hk⟩ := ih
    have hd := ho.declares (hc ▸ hp)
    rw [hc] at hd
    rw [← ho.loads.structs] at hk
    exact ⟨ho.loads.packages.catalog.trans hc, hk.enter hd ho.plain⟩
  | expand _ _ ho ih =>
    rw [← ho.loads.structs] at ih
    exact ⟨ho.loads.packages.catalog.trans ih.1, ih.2⟩
  | embed _ ho ih =>
    rw [← ho.loads.structs] at ih
    exact ⟨ho.loads.packages.catalog.trans ih.1, ih.2⟩
  | answer _ hg hr ih =>
    exact ⟨hr.grows.packages.catalog.trans ih.1, (hr.means ih.1 ih.2 hg).1⟩

/-- At every moment an embedded struct contributes the fields that its declaration means, whether
they are copied from the table or its declaration is read again. -/
lemma Moment.embedded_means (h : Moment names store k) {n : Nat} {key : String}
    {place : SourcePlace} {fs : List StructField}
    (ho : outcome (embeddedFields names (stepsWithin names n) key place) k = (.ok fs, k')) :
    ∃ p x d source, key = keyIn p x ∧ Declares store.catalog names p x d (some source) ∧
      FieldsMean store.catalog names source fs := by
  have hr := (embeddedFields_derives (stepsWithin_derive names n) key place k).ok ho
  exact (hr.means h.faithful.1 h.faithful.2 trivial).2

/-- Whatever structs a table holds and however it came about, embedding gives the same fields.
* A finished struct is the one that its declaration means, and it alone.
* What an embedded struct contributes is the same at any two moments of any two histories, be it
  copied from the table or read again.
* Two histories that finish a struct under the same key finish the same struct. -/
theorem structs_as_meant (names : KnownNames) (store : LoadedPackages) :
    (∀ k, Moment names store k → ∀ key s, k.structs.get? key = some s →
      ∃ p x, key = keyIn p x ∧ ∀ s', StructMeans store.catalog names p x s' ↔ s' = s) ∧
    (∀ k k₂, Moment names store k → Moment names store k₂ →
      ∀ n n₂ key place place₂ fs fs₂ k' k₂',
        outcome (embeddedFields names (stepsWithin names n) key place) k = (.ok fs, k') →
        outcome (embeddedFields names (stepsWithin names n₂) key place₂) k₂ = (.ok fs₂, k₂') →
        fs = fs₂) ∧
    ∀ k k₂, Moment names store k → Moment names store k₂ →
      ∀ key s s₂, k.structs.get? key = some s → k₂.structs.get? key = some s₂ → s = s₂ := by
  have hmeant : ∀ {k}, Moment names store k → ∀ {key s}, k.structs.get? key = some s →
      ∃ p x, key = keyIn p x ∧ StructMeans store.catalog names p x s :=
    fun h _ _ hs => h.faithful.2.meant (StructTable.mem_of_get? hs)
  refine ⟨?_, ?_, ?_⟩
  · intro k h key s hs
    obtain ⟨p, x, hkey, hm⟩ := hmeant h hs
    refine ⟨p, x, hkey, fun s' => ⟨fun hm' => hm'.unique hm rfl, ?_⟩⟩
    rintro rfl
    exact hm
  · intro k k₂ h h₂ n n₂ key place place₂ fs fs₂ k' k₂' ho ho₂
    obtain ⟨p, x, d, source, hkey, hd, hf⟩ := h.embedded_means ho
    obtain ⟨p₂, x₂, d₂, source₂, hkey₂, hd₂, hf₂⟩ := h₂.embedded_means ho₂
    obtain ⟨rfl, rfl⟩ := hd.eq_of_key hd₂ (hkey.symm.trans hkey₂)
    obtain ⟨-, hsource⟩ := hd.unique hd₂
    cases hsource
    exact hf.unique hf₂
  · intro k k₂ h h₂ key s s₂ hs hs₂
    obtain ⟨p, x, hkey, hm⟩ := hmeant h hs
    obtain ⟨p₂, x₂, hkey₂, hm₂⟩ := hmeant h₂ hs₂
    exact hm.unique hm₂ (hkey.symm.trans hkey₂)

namespace Embedded

/-- A package in which a struct embeds another one that is declared below it. -/
def sourceText : String :=
  "package p\n\ntype Outer struct \x7b\n\tInner\n\tName string\n\x7d\n\n" ++
    "type Inner struct \x7b\n\tID string\n\x7d\n"

/-- The file of the package. -/
def files : Project.FileTree :=
  .dir [("p.go", .file sourceText.toUTF8)]

/-- The package can be loaded. -/
lemma load_succeeds : (load files "m" ⟨"/"⟩ "m" [⟨"/p.go"⟩]).toOption.isSome = true := by
  decide +kernel

/-- The package as it is loaded. -/
def package : Package :=
  (load files "m" ⟨"/"⟩ "m" [⟨"/p.go"⟩]).toOption.get load_succeeds

/-- The packages at hand: the one with the structs. -/
def held : LoadedPackages :=
  (LoadedPackages.ofSource (.ofFiles files
    (.ofProject files ⟨"/"⟩ ⟨"m", none, none, [], []⟩ .default))).insert package

/-- The state before any resolution. -/
def start : Known :=
  .start held

/-- The package is held at the start. -/
lemma holds_start : start.packages.Holds package :=
  LoadedPackages.holds_insert _ package

/-- The state after the outer struct has been resolved. -/
def outer : Known :=
  (outcome (resolveName ⟨""⟩ package "Outer") start).2

/-- The state after the outer struct is reached. -/
lemma reached_outer : Reached ⟨""⟩ held outer :=
  .resolveName (.refl start) holds_start "Outer"

/-- The state after the inner struct. -/
def inner : Known :=
  (outcome (resolveName ⟨""⟩ package "Inner") start).2

/-- The state after the inner struct is reached. -/
lemma reached_inner : Reached ⟨""⟩ held inner :=
  .resolveName (.refl start) holds_start "Inner"

/-- The state after the outer struct has been resolved after the inner one. -/
def outerLater : Known :=
  (outcome (resolveName ⟨""⟩ package "Outer") inner).2

/-- The state after the inner and then the outer struct is reached. -/
lemma reached_outerLater : Reached ⟨""⟩ held outerLater :=
  .resolveName reached_inner (reached_inner.grows.packages.holds holds_start) "Outer"

/-- What the inner struct contributes where it is embedded. -/
def contributed (k : Known) : Except ResolutionError (List StructField) × Known :=
  outcome (embeddedFields ⟨""⟩ (stepsWithin ⟨""⟩ 2) (keyIn package "Inner") ⟨⟨"/p.go"⟩, ⟨4, 2⟩⟩) k

/-- Whether the inner struct is read where it is embedded or copied from the table, it contributes
the same, and the outer struct is the one that its declaration means. -/
theorem outer_as_meant :
    (∃ fs, (contributed start).1 = .ok fs ∧ (contributed inner).1 = .ok fs ∧
      fs.map StructField.name = ["ID"]) ∧
    ∃ s p x, keyIn package "Outer" = keyIn p x ∧
      outer.structs.get? (keyIn package "Outer") = some s ∧
      outerLater.structs.get? (keyIn package "Outer") = some s ∧
      s.fields.map StructField.name = ["ID", "Name"] ∧
      ∀ s', StructMeans held.catalog ⟨""⟩ p x s' ↔ s' = s := by
  have hstruct (k : Known) (h : ((k.structs.get? (keyIn package "Outer")).map
      fun s => s.fields.map StructField.name) = some ["ID", "Name"]) :
      ∃ s, k.structs.get? (keyIn package "Outer") = some s ∧
        s.fields.map StructField.name = ["ID", "Name"] :=
    Option.map_eq_some_iff.1 h
  have hfields (k : Known)
      (h : ((contributed k).1.toOption.map fun fs => fs.map StructField.name) = some ["ID"]) :
      ∃ fs, contributed k = (.ok fs, (contributed k).2) ∧ fs.map StructField.name = ["ID"] := by
    cases hfs : (contributed k).1 with
    | error e =>
      rw [hfs] at h
      cases h
    | ok fs =>
      rw [hfs] at h
      exact ⟨fs, Prod.ext hfs rfl, Option.some.inj h⟩
  obtain ⟨hmeant, hcontributed, hsame⟩ := structs_as_meant ⟨""⟩ held
  constructor
  · obtain ⟨fs, hfs, hnames⟩ := hfields start (by decide +kernel)
    obtain ⟨fs₂, hfs₂, -⟩ := hfields inner (by decide +kernel)
    obtain rfl := hcontributed start inner (.reached (.refl start)) (.reached reached_inner)
      _ _ _ _ _ _ _ _ _ hfs hfs₂
    exact ⟨fs, congrArg Prod.fst hfs, congrArg Prod.fst hfs₂, hnames⟩
  · obtain ⟨s, hs, hnames⟩ := hstruct outer (by decide +kernel)
    obtain ⟨s₂, hs₂, -⟩ := hstruct outerLater (by decide +kernel)
    obtain ⟨p, x, hkey, hmeans⟩ := hmeant outer (.reached reached_outer) _ s hs
    obtain rfl := hsame outer outerLater (.reached reached_outer) (.reached reached_outerLater)
      _ s s₂ hs hs₂
    exact ⟨s, p, x, hkey, hs, hs₂, hnames, hmeans⟩

end Embedded

end GoService.Resolution
