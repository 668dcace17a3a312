import GoService.Proofs.Resolution.Following
import GoService.Proofs.Resolution.History
import GoService.Proofs.Resolution.Walk

/-!
# Recursion

Which recursive declarations resolve. A struct may be reached from itself, since references to it
end at its key as soon as it is entered. Any other declaration must not be met again while it is
being expanded, and entering a struct on the way does not change that. So what decides is whether a
declaration that is no struct leads back to itself past structs that the table does not hold yet
(`resolves_iff_none_recurs`), and a list type whose elements have a field of that type resolves only
after the type of its elements has been resolved.
-/

namespace GoService.Resolution

open Data Package Source Relation

variable {names : KnownNames} {k k₁ : Known}

namespace Known

variable (names : KnownNames) (k : Known)

/-- The declaration at the second key is reached from the one at the first, without going on from
the structs in the table. -/
def Reaches : String → String → Prop :=
  ReflTransGen (Leads k.packages.catalog names (· ∈ k.structs.keys))

/-- The declaration at a key leads back to itself past structs that are not in the table. -/
def Recurs (key : String) : Prop :=
  TransGen (Leads k.packages.catalog names (· ∈ k.structs.keys)) key key

/-- A name of a package can be resolved once the package is loaded. -/
def CanResolve (p : Package) (x : String) : Prop :=
  ∃ t, (outcome (resolveName names p x) (k.withPackages (k.packages.load p.importPath).2)).1 = .ok t

variable {names} {k}

/-- Loading packages does not change what is reached. -/
lemma reaches_of_loads (h : Loads k k₁) : k₁.Reaches names = k.Reaches names := by
  unfold Reaches
  rw [h.packages.catalog, h.structs]

/-- Loading packages does not change what recurs. -/
lemma recurs_of_loads (h : Loads k k₁) : k₁.Recurs names = k.Recurs names := by
  unfold Recurs
  rw [h.packages.catalog, h.structs]

end Known

section

variable {store : LoadedPackages} {p : Package} {x : String}

/-- If nothing recurs that is reached from a declared type, the type can be resolved. -/
lemma Reached.resolves (hk : Reached names store k) (hp : k.packages.Holds p)
    (hx : p.types.contains x)
    (hs : ∀ key, k.Reaches names (keyIn p x) key → key ∉ k.structs.keys →
      SupportedAt k.packages.catalog names key)
    (he : ∀ key, k.Reaches names (keyIn p x) key →
      ¬ TransGen (Embeds k.packages.catalog names) key key)
    (hr : ∀ key, k.Reaches names (keyIn p x) key → IsPlain k.packages.catalog names key →
      ¬ k.Recurs names key) :
    ∃ t, (outcome (resolveName names p x) k).1 = .ok t := by
  have hfaithful : Faithful k.packages.catalog names k.structs := by
    rw [hk.grows.packages.catalog]
    exact hk.faithful rfl (.empty _ _)
  have hscope : InScope k.packages (keyIn p x) := ⟨p, x, rfl, hp.scoped, hx⟩
  -- a walk from the name: whatever it reaches is supported, and nothing leads back
  let w : Walk names := {
    catalog := k.packages.catalog
    known := k.structs.keys
    root := keyIn p x
    keys := k.packages.knownKeys
    structs := by
      intro key hkey
      obtain ⟨p', x', d, source, heq, hd, -⟩ := hfaithful.declared hkey
      exact ⟨p', x', d, source, heq, hd⟩
    within := fun key hreach => (hscope.reaches hreach).mem_knownKeys
    supported := hs
    embedsOthers := he
    leadsOn := hr }
  have hprepared : w.Prepared k := by
    refine ⟨rfl, hfaithful, fun key hkey => hk.finished hkey, fun key hkey hnone => ?_⟩
    obtain ⟨s, hs⟩ := hk.finished hkey
    cases hnone.symm.trans hs
  have hbound : w.declSteps k ≤ stepBound k.packages.weight := by
    rw [← k.packages.length_knownKeys]
    exact w.declSteps_le_stepBound k
  have htoward : w.Toward k (keyIn p x) := by
    refine ⟨.refl, ?_⟩
    rw [hk.grows.trail]
    exact fun m hm => absurd hm List.not_mem_nil
  -- a failure would have to arise on the walk, where none does
  obtain ⟨t, k', ho⟩ | ⟨e, k', ho⟩ := outcome_cases (resolveName names p x) k
  · exact ⟨t, by rw [ho]⟩
  · have hf := (resolveName_ends names p x k).error ho
    exact absurd ⟨hbound, hp, hx, htoward⟩ (hf.not_ready hprepared)

/-- A declaration that recurs cannot be resolved. -/
lemma Reached.not_canResolve (hk : Reached names store k) {d : DeclaredType}
    (hd : Declares k.packages.catalog names p x d none) (hr : k.Recurs names (keyIn p x)) :
    ¬ k.CanResolve names p x := by
  rintro ⟨t, ht⟩
  have hk₁ := Follows.load hk p.importPath
  obtain ⟨a, k', ho⟩ | ⟨e, k', ho⟩ := outcome_cases (resolveName names p x)
    (k.withPackages (k.packages.load p.importPath).2)
  · have hres := (resolveName_ends names p x _).ok ho
    have hcat := LoadedPackages.catalog_load k.packages p.importPath
    refine hres.not_leads_back hcat ?_ hd hr
    rw [hk.grows.packages.catalog]
    exact hk.faithful rfl (.empty _ _)
  · rw [ho] at ht
    cases ht

/-- In a state between resolutions, let everything that is reached from a key be written in
supported forms, and let no struct that is reached embed itself.
* Every declared type that is reached can be resolved exactly if no declaration that is reached and
  is no struct leads back to itself past structs that are not in the table.
* A declaration that does cannot be resolved itself. -/
theorem resolves_iff_none_recurs (hk : Reached names store k) (root : String)
    (hs : ∀ key, k.Reaches names root key → key ∉ k.structs.keys →
      SupportedAt k.packages.catalog names key)
    (he : ∀ key, k.Reaches names root key → ¬ TransGen (Embeds k.packages.catalog names) key key) :
    ((∀ q y, k.packages.catalog q.importPath = .ok q → q.types.contains y →
        k.Reaches names root (keyIn q y) → k.CanResolve names q y) ↔
      ∀ key, k.Reaches names root key → IsPlain k.packages.catalog names key →
        ¬ k.Recurs names key) ∧
    ∀ q y d, Declares k.packages.catalog names q y d none → k.Recurs names (keyIn q y) →
      ¬ k.CanResolve names q y := by
  refine ⟨⟨?_, ?_⟩, fun q y d hd hrec => hk.not_canResolve hd hrec⟩
  · rintro hall key hreach ⟨q, y, d, rfl, hd⟩ hrec
    have hy : q.types.contains y := Option.isSome_iff_exists.2 ⟨d, hd.declared⟩
    exact hk.not_canResolve hd hrec (hall q y hd.held hy hreach)
  · intro hnone q y hq hy hreach
    have hl := Loads.load k q.importPath
    have hheld := (LoadedPackages.holds_of_catalog hq).2
    refine Reached.resolves (.load hk q.importPath) hheld hy ?_ ?_ ?_
    · rw [Known.reaches_of_loads hl, hl.packages.catalog, hl.structs]
      exact fun key hkey => hs key (hreach.trans hkey)
    · rw [Known.reaches_of_loads hl, hl.packages.catalog]
      exact fun key hkey => he key (hreach.trans hkey)
    · rw [Known.reaches_of_loads hl, Known.recurs_of_loads hl, hl.packages.catalog]
      exact fun key hkey => hnone key (hreach.trans hkey)

end

/-! ## A list type whose elements have a field of that type -/

namespace ListType

/-- The name of the type of lists. -/
def listName : Ident := ⟨⟨"L", by decide⟩, default⟩

/-- The name of the struct. -/
def elemName : Ident := ⟨⟨"S", by decide⟩, default⟩

/-- The field of the struct, a list. -/
def nextField : Field where
  span := default
  names := [⟨⟨"Next", by decide⟩, default⟩]
  ellipsis := none
  type := .named default none listName []
  tag := none
  embedded := false
  doc := none
  comment := none

/-- The declaration `type L []S`. -/
def listSpec : TypeSpec :=
  ⟨none, listName, none, none, .slice default (.named default none elemName [])⟩

/-- The declaration of the struct. -/
def elemSpec : TypeSpec :=
  ⟨none, elemName, none, none, .struct default default [nextField] default⟩

/-- The file with both declarations. -/
def file : SourceUnit where
  path := ⟨"p/p.go"⟩
  parsed := ⟨"", ⟨[0]⟩, ⟨default, ⟨⟨"p", by decide⟩, default⟩, [listSpec, elemSpec].map fun s =>
    .gen ⟨default, none, .types, default, none, [.typeSpec s], none⟩, [], none⟩, []⟩
  imports := ⟨[]⟩

/-- The package with both declarations. -/
def package : Package :=
  ofFiles "m/p" "p" ⟨"p"⟩ "m" [file]

/-- The source of this package only. -/
def source : PackageSource where
  load path := if path = "m/p" then .ok package else .error (.load (.noSources path ⟨path⟩))
  paths := []
  names := ["L", "S"]
  importPath_of_load h := by
    split at h
    · next hpath =>
      cases h
      exact hpath.symm
    · cases h
  names_of_load h := by
    split at h
    · cases h
      decide
    · cases h
  paths_of_load h := by
    split at h
    · cases h
      decide
    · cases h

/-- The state with the package loaded. -/
def start : Known :=
  (Known.start (.ofSource source)).withPackages (LoadedPackages.load (.ofSource source) "m/p").2

/-- The state after the type of the elements has been resolved. -/
def later : Known :=
  (outcome (resolveName ⟨""⟩ package "S") start).2

/-- The state is reached by loading the package. -/
lemma reached_start : Reached ⟨""⟩ (.ofSource source) start :=
  .load (.refl _) "m/p"

/-- The state after the struct is reached. -/
lemma reached_later : Reached ⟨""⟩ (.ofSource source) later :=
  .resolveName (p := package) reached_start rfl "S"

/-- The source has only one package. -/
lemma eq_package {path : String} {p : Package} (h : source.load path = .ok p) : p = package := by
  change (if path = "m/p" then Except.ok package else _) = _ at h
  split at h
  · cases h
    rfl
  · cases h

/-- The type of lists is declared and no struct. -/
lemma declares_list : Declares source.load ⟨""⟩ package "L" ⟨0, file, listSpec⟩ none :=
  ⟨rfl, rfl, rfl⟩

/-- The struct is declared. -/
lemma declares_elem : Declares source.load ⟨""⟩ package "S" ⟨0, file, elemSpec⟩
    (some ⟨⟨package, file⟩, [nextField]⟩) :=
  ⟨rfl, rfl, rfl⟩

/-- The type of lists refers only to the struct. -/
lemma eq_of_refers_list {key : String}
    (h : Refers source.load ⟨""⟩ (keyIn package "L") key) : key = keyIn package "S" := by
  cases mentions_of_refers declares_list h with
  | slice hm =>
    cases hm with
    | named hname =>
      cases hname
      rfl

/-- The struct refers only to the type of lists. -/
lemma eq_of_refers_elem {key : String}
    (h : Refers source.load ⟨""⟩ (keyIn package "S") key) : key = keyIn package "L" := by
  obtain ⟨f, hf, -, hm⟩ := fieldMentions_of_refers declares_elem h
  cases List.mem_singleton.1 hf
  cases hm with
  | named hname =>
    cases hname
    rfl

/-- The type of lists refers to the struct. -/
lemma refers_list : Refers source.load ⟨""⟩ (keyIn package "L") (keyIn package "S") :=
  .type declares_list (.slice (.named rfl))

/-- The struct refers to the type of lists. -/
lemma refers_elem : Refers source.load ⟨""⟩ (keyIn package "S") (keyIn package "L") :=
  .field declares_elem (List.mem_singleton.2 rfl) ⟨by decide, .named rfl⟩

/-- The type of lists is written in supported forms. -/
lemma supported_list : SupportedAt source.load ⟨""⟩ (keyIn package "L") :=
  .type declares_list rfl (.slice (.named rfl))

/-- The fields of the struct are written in supported forms. -/
lemma supported_elem : SupportedAt source.load ⟨""⟩ (keyIn package "S") := by
  refine .struct declares_elem rfl fun f hf _ => ?_
  cases List.mem_singleton.1 hf
  exact .named rfl

/-- Whatever is reached from the list type is supported. -/
lemma supported_of_reaches {r : String → String → Prop}
    (hr : ∀ {key key'}, r key key' → Refers source.load ⟨""⟩ key key') {key : String}
    (h : ReflTransGen r (keyIn package "L") key) : SupportedAt source.load ⟨""⟩ key := by
  have hboth : key = keyIn package "L" ∨ key = keyIn package "S" := by
    induction h with
    | refl => exact .inl rfl
    | tail _ hstep ih =>
      rcases ih with rfl | rfl
      · exact .inr (eq_of_refers_list (hr hstep))
      · exact .inl (eq_of_refers_elem (hr hstep))
  rcases hboth with rfl | rfl
  · exact supported_list
  · exact supported_elem

/-- Nothing embeds itself. -/
lemma not_embeds_itself {key : String} : ¬ TransGen (Embeds source.load ⟨""⟩) key key := by
  intro hback
  obtain ⟨key', ⟨hd, hf, -, hemb, -, -⟩, -⟩ := TransGen.head'_iff.1 hback
  have hp := eq_package hd.held
  subst hp
  rcases List.mem_cons.1 (Dict.mem_of_get? hd.declared) with heq | hmem
  · cases heq
    cases hd.search
  · cases List.mem_singleton.1 hmem
    cases hd.search
    cases List.mem_singleton.1 hf
    cases hemb

/-- The type of lists is all that is declared without a struct. -/
lemma eq_of_isPlain {key : String} (h : IsPlain source.load ⟨""⟩ key) :
    key = keyIn package "L" := by
  obtain ⟨p, x, d, rfl, hd⟩ := h
  have hp := eq_package hd.held
  subst hp
  rcases List.mem_cons.1 (Dict.mem_of_get? hd.declared) with heq | hmem
  · cases heq
    rfl
  · cases List.mem_singleton.1 hmem
    cases hd.search

/-- The list type leads back to itself only past the type of its elements. -/
lemma not_leads_back {stop : String → Prop} (hstop : stop (keyIn package "S")) :
    ¬ TransGen (Leads source.load ⟨""⟩ stop) (keyIn package "L") (keyIn package "L") := by
  intro hback
  obtain ⟨key, hfirst, hrest⟩ := TransGen.head'_iff.1 hback
  obtain rfl := eq_of_refers_list hfirst.2
  rcases ReflTransGen.cases_head hrest with heq | ⟨key, hnext, -⟩
  · exact absurd heq (by decide)
  · exact hnext.1 hstop

/-- The list type can be resolved once the type of its elements has been, and not before. -/
theorem list_resolves_later :
    later.CanResolve ⟨""⟩ package "L" ∧ ¬ start.CanResolve ⟨""⟩ package "L" := by
  have hcat : ∀ {k}, Reached ⟨""⟩ (.ofSource source) k → k.packages.catalog = source.load :=
    fun h => h.grows.packages.catalog.trans (LoadedPackages.catalog_ofSource source)
  have hs : ∀ {k}, Reached ⟨""⟩ (.ofSource source) k → ∀ key,
      k.Reaches ⟨""⟩ (keyIn package "L") key → key ∉ k.structs.keys →
        SupportedAt k.packages.catalog ⟨""⟩ key := by
    intro k hk key hkey _
    unfold Known.Reaches at hkey
    rw [hcat hk] at hkey ⊢
    exact supported_of_reaches (fun h => h.2) hkey
  have he : ∀ {k}, Reached ⟨""⟩ (.ofSource source) k → ∀ key,
      k.Reaches ⟨""⟩ (keyIn package "L") key →
        ¬ TransGen (Embeds k.packages.catalog ⟨""⟩) key key := by
    intro k hk key _
    rw [hcat hk]
    exact not_embeds_itself
  have hlater := resolves_iff_none_recurs reached_later (keyIn package "L") (hs reached_later)
    (he reached_later)
  have hstart := resolves_iff_none_recurs reached_start (keyIn package "L") (hs reached_start)
    (he reached_start)
  -- later the struct has an entry, so nothing leads back to the list; at the start it does
  constructor
  · refine hlater.1.2 ?_ package "L" ?_ rfl .refl
    · intro key _ hplain
      unfold Known.Recurs
      rw [hcat reached_later] at hplain ⊢
      rw [eq_of_isPlain hplain]
      have hkeys : later.structs.keys = [keyIn package "S"] := rfl
      rw [hkeys]
      exact not_leads_back (List.mem_singleton.2 rfl)
    · rw [hcat reached_later]
      rfl
  · refine hstart.2 package "L" ⟨0, file, listSpec⟩ ?_ ?_
    · rw [hcat reached_start]
      exact declares_list
    · unfold Known.Recurs
      rw [hcat reached_start]
      exact .head ⟨List.not_mem_nil, refers_list⟩ (.single ⟨List.not_mem_nil, refers_elem⟩)

/-- It is not enough that a struct is passed on the way back: everything that is reached from the
list type is supported, no struct embeds itself, and no other declaration leads back to itself
unless it passes a struct. Still the list type is rejected as recursive where nothing is in the
table, and accepted where the type of its elements is. -/
theorem list_type_rejected :
    (∀ key, ReflTransGen (Refers source.load ⟨""⟩) (keyIn package "L") key →
      SupportedAt source.load ⟨""⟩ key) ∧
    (∀ key, ¬ TransGen (Embeds source.load ⟨""⟩) key key) ∧
    (∀ key, IsPlain source.load ⟨""⟩ key →
      ¬ TransGen (Leads source.load ⟨""⟩ (IsStruct source.load ⟨""⟩)) key key) ∧
    Reached ⟨""⟩ (.ofSource source) start ∧
    (outcome (resolveName ⟨""⟩ package "L") start).1 =
      .error (.unsupported ⟨file.path, ⟨1, 1⟩⟩ (.recursive (keyIn package "L"))) ∧
    Reached ⟨""⟩ (.ofSource source) later ∧
    (outcome (resolveName ⟨""⟩ package "L") later).1 =
      .ok (.array (.struct (keyIn package "S"))) := by
  refine ⟨fun key => supported_of_reaches id, fun key => not_embeds_itself, ?_, reached_start, rfl,
    reached_later, rfl⟩
  intro key hplain
  rw [eq_of_isPlain hplain]
  exact not_leads_back ⟨_, _, _, _, rfl, declares_elem⟩

end ListType

end GoService.Resolution
