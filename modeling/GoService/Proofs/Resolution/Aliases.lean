import GoService.Proofs.Resolution.History
import GoService.Proofs.Resolution.Places
import GoService.Proofs.Resolution.Replay

/-!
# Names over structs

A declaration can stand for a struct that is written somewhere else: `LeadsTo` follows parentheses
and names, from file to file and from package to package, to the literal. Such a declaration is
entered into the table under its own key, with its own documentation, and with the fields that the
literal means in the file in which it is written (`struct_of_leadsTo`).
-/

namespace GoService.Resolution

open Data Package Source

/-! ## Ways to a literal -/

/-- From a written type a way leads through parentheses and names of declarations without type
parameters to a struct literal. Names that are selected from a package are not well-known. The
number counts the types on the way, with the literal. -/
inductive LeadsTo (c : Catalog) (names : KnownNames) :
    Nat → Site → TypeExpr → StructLiteral → Prop
  | literal : LeadsTo c names 1 site (.struct span lBrace fields rBrace) ⟨site, fields⟩
  | paren (h : LeadsTo c names n site nested source) :
      LeadsTo c names (n + 1) site (.paren span nested) source
  | plain (hd : site.package.type? ident.name = some d) (hplain : d.spec.typeParams = none)
      (h : LeadsTo c names n ⟨site.package, d.file⟩ d.spec.type source) :
      LeadsTo c names (n + 1) site (.named span none ident []) source
  | selected (hq : qualifierIn c site q.name = some path)
      (hunknown : names.lookup? path ident.name = none) (hp : c path = .ok p)
      (hd : p.type? ident.name = some d) (hplain : d.spec.typeParams = none)
      (h : LeadsTo c names n ⟨p, d.file⟩ d.spec.type source) :
      LeadsTo c names (n + 1) site (.named span (some q) ident []) source

variable {c : Catalog} {names : KnownNames} {store : LoadedPackages} {n : Nat} {k k' : Known}

/-- A search with steps enough for the way finds the literal. -/
lemma LeadsTo.literalIn {site : Site} {type : TypeExpr} {source : StructLiteral}
    (h : LeadsTo c names n site type source) {m : Nat} (hm : n ≤ m) :
    literalIn c names m site type = some (some source) := by
  -- the steps that are left over stay the same on the way
  obtain ⟨left, rfl⟩ := Nat.exists_eq_add_of_le' hm
  clear hm
  induction h with
  | literal => rfl
  | paren _ ih => exact ih
  | plain hd hplain _ ih =>
    simp only [Resolution.literalIn, plainDecl?_of_type? hd hplain]
    exact ih
  | selected hq hunknown hp hd hplain _ ih =>
    simp only [Resolution.literalIn, hq, hunknown, hp, Except.toOption, Option.isSome_none,
      Option.bind_eq_bind, Option.bind_some, plainDecl?_of_type? hd hplain]
    exact ih

/-! ## The struct at the key -/

/-- The fields of the literal resolve while the struct at the key is in progress. -/
def FieldsResolve (names : KnownNames) (k : Known) (key : String) (source : StructLiteral) : Prop :=
  ∃ n place fs k', outcome (fieldsWithin names n place source) (k.enterStruct key) = (.ok fs, k')

section

variable {p : Package} {x : String} {d : DeclaredType} {source : StructLiteral}

/-- A declared struct that is in the table of a history is the one that is meant. -/
lemma Reached.exists_struct (hk : Reached names store k)
    (h : Declares store.catalog names p x d (some source)) (hkey : keyIn p x ∈ k.structs.keys) :
    ∃ fields, k.structs.get? (keyIn p x) = some (declaredStruct p x d fields) ∧
      FieldsMean store.catalog names source fields := by
  obtain ⟨s, hs⟩ := hk.finished hkey
  have hfaithful : Faithful store.catalog names k.structs := hk.faithful rfl (.empty _ _)
  obtain ⟨p', x', heq, d', source', fields, hd', -, hfields, rfl⟩ :=
    hfaithful.meant (StructTable.mem_of_get? hs)
  obtain ⟨rfl, rfl⟩ := h.eq_of_key hd' heq
  obtain ⟨rfl, hsource⟩ := h.unique hd'
  cases hsource
  exact ⟨fields, hs, hfields⟩

/-- Fields that resolve before the search for their literal resolve after it too, at any place. -/
lemma FieldsResolve.resolves {place : SourcePlace} {k₁ : Known}
    (h : FieldsResolve names k (keyIn p x) source) (hb : k.Backed) (hp : k.packages.Holds p)
    (ho : Opens names k p x place d (some source) k₁) :
    ∃ n fs k₂, Resolves names n (k₁.enterStruct (keyIn p x)) (.literal place source)
      (.fields fs) k₂ := by
  obtain ⟨n, place', fs, k₂, hfields⟩ := h
  have hfields' : outcome (fieldsWithin names n place source) (k.enterStruct (keyIn p x)) =
      (.ok fs, k₂) :=
    ((stepsWithin_placeless names n).fields place' place source).outcome_eq_ok hfields
  have hl := ho.loads
  have hb₁ : (k₁.enterStruct (keyIn p x)).Backed :=
    (hb.grows (.of_loads hl)).enterStruct (hl.packages.holds hp) ho.declared ho.notMem_keys
  have hr := ((stepsWithin_derive names n).fields place source _).ok hfields'
  have halike : k.Alike k₁ := (Known.Alike.refl k).loads (.refl k) hl
  obtain ⟨k₂', hr', -⟩ := hr.replay (halike.enterStruct _) hb₁ (ho.holds hp)
  exact ⟨n, fs, k₂', hr'⟩

/-- What a declared name resolves to with some bound it resolves to. -/
lemma outcome_resolveName_of_resolves {t : DataType} (hp : k.packages.Holds p)
    (h : Resolves names n k (.decl p x (declPlace p x)) (.type t) k') :
    outcome (resolveName names p x) k = (.ok t, k') :=
  (resolveName_endsWithin names k hp x).outcome_eq_ok
    (fun _ hm => (stepsWithin_approximate names hm).decl p x _) h.computes

/-- A declaration without type parameters from which a way within the limit leads to a struct
literal resolves to the struct at its own key if the fields of the literal resolve. This struct
has the name and the documentation of the declaration and the fields that the literal means where
it is written, whatever files and packages the way goes through. -/
theorem struct_of_leadsTo (hk : Reached names store k) (hp : k.packages.Holds p)
    (hd : p.type? x = some d) (hplain : d.spec.typeParams = none)
    (hleads : LeadsTo store.catalog names n ⟨p, d.file⟩ d.spec.type source)
    (hn : n ≤ nameHopLimit)
    (hfields : keyIn p x ∉ k.structs.keys → FieldsResolve names k (keyIn p x) source) :
    ∃ k' s, outcome (resolveName names p x) k = (.ok (.struct (keyIn p x)), k') ∧
      k'.structs.get? (keyIn p x) = some s ∧
      s.package = p.importPath ∧ s.name = x ∧ s.exported = isPublic x ∧
      s.doc = docContent d.spec.doc ∧ s.annotations = Annotations.ofText (docContent d.spec.doc) ∧
      FieldsMean store.catalog names source s.fields := by
  have hcatalog : k.packages.catalog = store.catalog := hk.grows.packages.catalog
  have hdeclares : Declares store.catalog names p x d (some source) :=
    ⟨hcatalog ▸ hp.catalog, hd, hleads.literalIn hn⟩
  -- the key is in the table already, or the struct is entered and its fields are worked out
  have hresolves : ∃ n k', Resolves names n k (.decl p x (declPlace p x))
      (.type (.struct (keyIn p x))) k' := by
    by_cases hkey : keyIn p x ∈ k.structs.keys
    · exact ⟨1, k, .entered (StructTable.contains_iff.2 hkey)⟩
    · obtain ⟨k₁, ho⟩ := (hcatalog ▸ hdeclares).opens hplain hkey (declPlace p x)
      have hb : k.Backed := .of_finished fun _ h => hk.finished h
      obtain ⟨m, fs, k₂, hr⟩ := (hfields hkey).resolves hb hp ho
      exact ⟨m + 1, _, .struct ho hr⟩
  obtain ⟨m, k', hr⟩ := hresolves
  have hok := outcome_resolveName_of_resolves hp hr
  have hk' : Reached names store k' := by
    have hnext := Follows.resolveName hk hp x
    rw [hok] at hnext
    exact hnext
  have hkey : keyIn p x ∈ k'.structs.keys := hr.structKeys_subset rfl (List.mem_singleton.2 rfl)
  obtain ⟨fields, hs, hmeans⟩ := hk'.exists_struct hdeclares hkey
  exact ⟨k', _, hok, hs, rfl, rfl, rfl, rfl, rfl, hmeans⟩

end

/-! ## A literal in another package -/

namespace Elsewhere

/-- The name of the declaration over another one. -/
def ownName : Ident := ⟨⟨"Own", by decide⟩, default⟩

/-- The name of a declaration between the two. -/
def middleName : Ident := ⟨⟨"Middle", by decide⟩, default⟩

/-- The name of the declaration with the struct. -/
def literalName : Ident := ⟨⟨"Literal", by decide⟩, default⟩

/-- The name of a generic declaration. -/
def genericName : Ident := ⟨⟨"Generic", by decide⟩, default⟩

/-- A name that both packages declare, each as another type. -/
def kindName : Ident := ⟨⟨"Kind", by decide⟩, default⟩

/-- A type that is a name, with a qualifier or without. -/
def typeNamed (qualifier : Option Ident) (name : Ident) : TypeExpr :=
  .named default qualifier name []

/-- The field `Part Kind`. -/
def partField : Field where
  span := default
  names := [⟨⟨"Part", by decide⟩, default⟩]
  ellipsis := none
  type := typeNamed none kindName
  tag := none
  embedded := false
  doc := none
  comment := none

/-- The documentation of `Own`. -/
def ownDoc : CommentGroup :=
  ⟨⟨.line, default, "// @own", 0⟩, [], false, 0⟩

/-- The declaration `type Own (written.Middle)`. -/
def ownSpec : TypeSpec :=
  ⟨some ownDoc, ownName, none, none,
    .paren default (typeNamed (some ⟨⟨"written", by decide⟩, default⟩) middleName)⟩

/-- The declaration `type Generic[Param any] struct { Part Kind }`. -/
def genericSpec : TypeSpec :=
  ⟨none, genericName, some ⟨default, default, [⟨default, [⟨⟨"Param", by decide⟩, default⟩],
    [⟨none, typeNamed none ⟨⟨"any", by decide⟩, default⟩⟩]⟩], default⟩, none,
    .struct default default [partField] default⟩

/-- The declaration `type Middle Literal`. -/
def middleSpec : TypeSpec :=
  ⟨none, middleName, none, none, typeNamed none literalName⟩

/-- The declaration `type Literal struct { Part Kind }`. -/
def literalSpec : TypeSpec :=
  ⟨none, literalName, none, none, .struct default default [partField] default⟩

/-- The declaration of `Kind` as a builtin type. -/
def kindSpec (builtin : Ident) : TypeSpec :=
  ⟨none, kindName, none, none, typeNamed none builtin⟩

/-- A file with a name, imports and type declarations. -/
def fileWith (path : String) (packageName : Ident) (imports : List Import)
    (specs : List TypeSpec) : SourceUnit where
  path := ⟨path⟩
  parsed := ⟨"", ⟨[0]⟩, ⟨default, packageName, specs.map fun s =>
    .gen ⟨default, none, .types, default, none, [.typeSpec s], none⟩, [], none⟩, []⟩
  imports := ⟨imports⟩

/-- The file that declares a name over one of the other package. -/
def ownFile : SourceUnit :=
  fileWith "own/own.go" ⟨⟨"own", by decide⟩, default⟩ [⟨"m/written", "written", .none, 3⟩]
    [ownSpec, genericSpec, kindSpec ⟨⟨"string", by decide⟩, default⟩]

/-- The file between, in which the name stands for the struct. -/
def middleFile : SourceUnit :=
  fileWith "written/middle.go" ⟨⟨"written", by decide⟩, default⟩ []
    [middleSpec, kindSpec ⟨⟨"int64", by decide⟩, default⟩]

/-- The file in which the struct is written. -/
def literalFile : SourceUnit :=
  fileWith "written/literal.go" ⟨⟨"written", by decide⟩, default⟩ [] [literalSpec]

/-- The package of the name. -/
def package : Package :=
  ofFiles "m/own" "own" ⟨"own"⟩ "m" [ownFile]

/-- The package in which the struct is written. -/
def other : Package :=
  ofFiles "m/written" "written" ⟨"written"⟩ "m" [middleFile, literalFile]

/-- Both packages. -/
def source : PackageSource :=
  .ofPackages [package, other]

/-- The state with the first package loaded. -/
def start : Known :=
  (Known.start (.ofSource source)).withPackages (LoadedPackages.load (.ofSource source) "m/own").2

/-- A place in the first file. -/
def place : SourcePlace :=
  ⟨ownFile.path, ⟨1, 1⟩⟩

/-- The struct with the site at which it is written. -/
def literal : StructLiteral :=
  ⟨⟨other, literalFile⟩, [partField]⟩

/-- The literal in the declaration of `Generic`. -/
def ownLiteral : StructLiteral :=
  ⟨⟨package, ownFile⟩, [partField]⟩

/-- The way from `Own` to the literal visits the parentheses, the two names and the literal. -/
lemma own_leadsTo :
    LeadsTo source.load ⟨"rt"⟩ 4 ⟨package, ownFile⟩ ownSpec.type literal :=
  .paren (.selected (p := other) (d := ⟨0, middleFile, middleSpec⟩) rfl rfl rfl rfl rfl
    (.plain (d := ⟨1, literalFile, literalSpec⟩) rfl rfl .literal))

/-- The state is reached by loading the package. -/
lemma reached_start : Reached ⟨"rt"⟩ (.ofSource source) start :=
  .load (.refl _) "m/own"

/-- What can be had is what the source loads. -/
lemma catalog_source : (LoadedPackages.ofSource source).catalog = source.load :=
  LoadedPackages.catalog_ofSource source

/-- The struct is that of `Own`, and its field has the type that `Kind` stands for beside the
literal. -/
theorem own_struct :
    ∃ k' s, outcome (resolveName ⟨"rt"⟩ package "Own") start = (.ok (.struct "m/own.Own"), k') ∧
      k'.structs.get? "m/own.Own" = some s ∧ s.package = "m/own" ∧ s.name = "Own" ∧ s.exported ∧
      s.doc = docContent (some ownDoc) ∧
      s.annotations = Annotations.ofText (docContent (some ownDoc)) ∧
      FieldsMean source.load ⟨"rt"⟩ literal s.fields := by
  have hstruct := struct_of_leadsTo (p := package) (x := "Own") (d := ⟨0, ownFile, ownSpec⟩)
    reached_start rfl rfl rfl (catalog_source ▸ own_leadsTo) (by decide)
    fun _ => ⟨3, place, _, _, rfl⟩
  rw [catalog_source] at hstruct
  obtain ⟨k', s, hok, hs, hpackage, hname, hexported, hdoc, hannotations, hfields⟩ := hstruct
  refine ⟨k', s, hok, hs, hpackage, hname, hexported.trans ?_, hdoc, hannotations, hfields⟩
  decide +kernel

example : ((outcome (resolveName ⟨"rt"⟩ package "Own") start).2.structs.get? "m/own.Own").map
    (·.fields.map fun f => (f.name, f.type)) = some [("Part", .builtin .int64)] := rfl

/-- Type parameters are not supported, so a way to a literal whose fields resolve is not enough. -/
theorem generic_rejected :
    Reached ⟨"rt"⟩ (.ofSource source) start ∧ start.packages.Holds package ∧
    package.type? "Generic" = some ⟨0, ownFile, genericSpec⟩ ∧
    LeadsTo source.load ⟨"rt"⟩ 1 ⟨package, ownFile⟩ genericSpec.type ownLiteral ∧
    FieldsResolve ⟨"rt"⟩ start "m/own.Generic" ownLiteral ∧
    (outcome (resolveName ⟨"rt"⟩ package "Generic") start).1 =
      .error (.unsupported place (.generic "m/own.Generic")) :=
  ⟨reached_start, rfl, rfl, .literal, ⟨2, place, _, _, rfl⟩, rfl⟩

end Elsewhere

end GoService.Resolution
