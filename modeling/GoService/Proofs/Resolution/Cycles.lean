import GoService.Proofs.Resolution.Descent
import GoService.Proofs.Resolution.Following
import GoService.Proofs.Resolution.History
import GoService.Proofs.Resolution.Termination

/-!
# Embedding cycles

A resolution ends in the error that a struct embeds itself exactly where one does
(`cyclicEmbedding_sound_complete`).

* What is being embedded leads by embeddings to the struct whose fields are worked out
  (`Goal.Tracked`), whether the struct was entered afresh or its declaration is read again. So a
  struct that is met again embeds itself, and a declaration that is read again has a struct literal.
* A resolution that succeeds where nothing is in the table has worked out the fields of every struct
  that is reached, and the fields of a struct that embeds itself mean nothing (`Flattens.acc`).
-/

namespace GoService.Resolution

open Data Package Source Relation

/-- An embedded struct is to be read again, and its declaration is not to be had or has no struct
literal behind it. -/
inductive FallsBack (names : KnownNames) : Task → Prop
  | unknown (hout : key ∉ k.trail.embedding) (hs : k.structs.get? key = none)
      (hd : knownDecl? k.packages key = none) : FallsBack names ⟨n, k, .embedded key place⟩
  | bodiless (ho : Reopens names k key place none k') :
      FallsBack names ⟨n, k, .embedded key place⟩

variable {c : Catalog} {names : KnownNames} {root key key' : String} {k k₁ k' : Known}

/-! ## What is being embedded -/

section Tracking

variable (c names root)

/-- The fields are some of those of a struct that is reached, and what is being embedded leads to it
by embeddings. -/
structure InFieldsOf (k : Known) (site : Site) (fields : List Field) (key : String) : Prop where
  declares : ∃ p x d source, key = keyIn p x ∧ Declares c names p x d (some source) ∧
    source.site = site ∧ fields ⊆ source.fields
  reached : ReflTransGen (Refers c names) root key
  embedding : ∀ j ∈ k.trail.embedding, ReflTransGen (Embeds c names) j key

/-- What a goal asks for is reached from the root, in packages that are held; what is being embedded
leads to the struct at hand. -/
def Goal.Tracked (k : Known) : Goal → Prop
  | .type site written => k.packages.Holds site.package ∧
    ∀ key, Mentions c names site written key → ReflTransGen (Refers c names) root key
  | .decl p x _ => k.packages.Holds p ∧ ReflTransGen (Refers c names) root (keyIn p x)
  | .literal _ source => k.packages.Holds source.site.package ∧
    ∃ key, InFieldsOf c names root k source.site source.fields key
  | .fields site written _ => k.packages.Holds site.package ∧
    ∃ key, InFieldsOf c names root k site written key
  | .field site f _ => k.packages.Holds site.package ∧
    ∃ key, InFieldsOf c names root k site [f] key
  | .embedded key _ => key ∈ k.structs.keys ∧ ReflTransGen (Refers c names) root key ∧
    ∀ j ∈ k.trail.embedding, TransGen (Embeds c names) j key

/-- A task on the way of a resolution: the table is faithful to the catalog, the packages of the
structs in progress are held, and the goal is tracked from the root. -/
structure Task.Tracked (t : Task) : Prop where
  catalog : t.known.packages.catalog = c
  faithful : Faithful c names t.known.structs
  backed : t.known.Backed
  goal : t.goal.Tracked c names root t.known

end Tracking

/-- What embeds another struct is a struct. -/
lemma Embeds.isStruct (h : Embeds c names key key') : IsStruct c names key := by
  cases h with
  | field hd => exact ⟨_, _, _, _, rfl, hd⟩

/-- What embeds a struct refers to it. -/
lemma Embeds.refers (h : Embeds c names key key') : TransGen (Refers c names) key key' :=
  TransGen.mono (fun _ _ hlead => hlead.2) _ _ (h.leads (fun _ => False.elim) id)

namespace InFieldsOf

variable {site : Site} {f : Field} {fs : List Field}

/-- A key that is reached by a field is within that field. -/
lemma head (h : InFieldsOf c names root k site (f :: fs) key) :
    InFieldsOf c names root k site [f] key := by
  obtain ⟨p, x, d, source, hkey, hd, hsite, hsub⟩ := h.declares
  refine ⟨⟨p, x, d, source, hkey, hd, hsite, ?_⟩, h.reached, h.embedding⟩
  exact List.cons_subset.2 ⟨hsub (List.mem_cons_self ..), List.nil_subset _⟩

/-- A key that is reached by the other fields is within those. -/
lemma tail (h : InFieldsOf c names root k site (f :: fs) key) :
    InFieldsOf c names root k site fs key := by
  obtain ⟨p, x, d, source, hkey, hd, hsite, hsub⟩ := h.declares
  exact ⟨⟨p, x, d, source, hkey, hd, hsite, List.subset_of_cons_subset hsub⟩, h.reached,
    h.embedding⟩

/-- Only the trail matters to what is reached by fields. -/
lemma of_trail (h : InFieldsOf c names root k site fs key) (ht : k'.trail = k.trail) :
    InFieldsOf c names root k' site fs key := by
  refine ⟨h.declares, h.reached, ?_⟩
  rw [ht]
  exact h.embedding

/-- What a field of the struct mentions is reached. -/
lemma mentioned (h : InFieldsOf c names root k site [f] key) (hskip : ¬ (fieldTags f).isJsonSkipped)
    (hm : Mentions c names site f.type key') : ReflTransGen (Refers c names) root key' := by
  obtain ⟨p, x, d, source, rfl, hd, rfl, hsub⟩ := h.declares
  exact h.reached.tail (.field hd (hsub (List.mem_singleton.2 rfl)) ⟨hskip, hm⟩)

/-- What a field of the struct embeds, the struct embeds. -/
lemma embeds (h : InFieldsOf c names root k site [f] key) (hskip : ¬ (fieldTags f).isJsonSkipped)
    (hemb : f.embedded) (htag : ¬ (fieldTags f).jsonName?.isSome)
    (hm : Means c names site (behindPointer false f.type).1 (.struct key')) :
    Embeds c names key key' := by
  obtain ⟨p, x, d, source, rfl, hd, rfl, hsub⟩ := h.declares
  exact .field hd (hsub (List.mem_singleton.2 rfl)) hskip hemb htag hm

end InFieldsOf

/-- Each step of a descent follows a reference, and an embedding where it comes to a struct that is
embedded. -/
lemma Asks.tracked {t t' : Task} (h : Asks names t t') (ht : t.Tracked c names root) :
    t'.Tracked c names root := by
  have hc := ht.catalog
  have hf := ht.faithful
  have hb := ht.backed
  have hg := ht.goal
  have hheld : ∀ {p : Package}, t.known.packages.Holds p → c p.importPath = .ok p := by
    intro p hp
    rw [← hc]
    exact hp.catalog
  cases h with
  | paren => exact ⟨hc, hf, hb, hg.1, fun key hm => hg.2 key (.paren hm)⟩
  | pointer => exact ⟨hc, hf, hb, hg.1, fun key hm => hg.2 key (.pointer hm)⟩
  | slice => exact ⟨hc, hf, hb, hg.1, fun key hm => hg.2 key (.slice hm)⟩
  | array => exact ⟨hc, hf, hb, hg.1, fun key hm => hg.2 key (.array hm)⟩
  | mapKey => exact ⟨hc, hf, hb, hg.1, fun key hm => hg.2 key (.mapKey hm)⟩
  | mapValue hkey =>
    have hgrows := hkey.grows
    exact ⟨hgrows.packages.catalog.trans hc, (hkey.means hc hf (hheld hg.1)).1, hb.grows hgrows,
      hgrows.packages.holds hg.1, fun key hm => hg.2 key (.mapValue hm)⟩
  | @declared site qualifier ident span k k₁ p x n hname =>
    obtain ⟨hl, hr⟩ := (looks_referentOf ..).of_ok hname
    have hc₀ : k.packages.catalog = c := hc
    rw [hc₀] at hr
    have hp := (referentOf_holds names hg.1 qualifier ident _).ok hname p x rfl
    exact ⟨hl.packages.catalog.trans hc, hl.structs ▸ hf, hb.grows (.of_loads hl), hp,
      hg.2 _ (.named hr)⟩
  | @struct k p x place d source k₁ n ho =>
    have hl := ho.loads
    have hc₀ : k.packages.catalog = c := hc
    have hd := ho.declares hg.1.catalog
    rw [hc₀] at hd
    have hf₁ : Faithful c names k₁.structs := hl.structs ▸ hf
    have hp₁ : k₁.packages.Holds p := hl.packages.holds hg.1
    have hb₁ := (hb.grows (.of_loads hl)).enterStruct hp₁ ho.declared ho.notMem_keys
    refine ⟨hl.packages.catalog.trans hc, hf₁.enter hd ho.plain, hb₁, ho.holds hg.1, keyIn p x, ?_⟩
    refine ⟨⟨p, x, d, source, rfl, hd, rfl, List.Subset.refl _⟩, hg.2, fun j hj => ?_⟩
    -- what is embedded starts anew with the struct
    rw [List.mem_singleton.1 hj]
  | @expand k p x place d k₁ n ho hout =>
    have hl := ho.loads
    have hc₀ : k.packages.catalog = c := hc
    have hd := ho.declares hg.1.catalog
    rw [hc₀] at hd
    have hb₁ : k₁.Backed := hb.grows (.of_loads hl)
    exact ⟨hl.packages.catalog.trans hc, hl.structs ▸ hf, hb₁, hl.packages.holds hg.1,
      fun key hm => hg.2.tail (.type hd hm)⟩
  | literal => exact ⟨hc, hf, hb, hg⟩
  | head => exact ⟨hc, hf, hb, hg.1, hg.2.imp fun _ h => h.head⟩
  | tail hfield =>
    have hgrows := hfield.grows
    exact ⟨hgrows.packages.catalog.trans hc, (hfield.means hc hf (hheld hg.1)).1, hb.grows hgrows,
      hgrows.packages.holds hg.1, hg.2.imp fun _ h => h.tail.of_trail hgrows.trail⟩
  | named hskip hemb =>
    obtain ⟨hp, key, h⟩ := hg
    exact ⟨hc, hf, hb, hp, fun key' hm => h.mentioned hskip hm⟩
  | tagged hskip hemb htag =>
    obtain ⟨hp, key, h⟩ := hg
    exact ⟨hc, hf, hb, hp, fun key' hm => h.mentioned hskip hm⟩
  | embeddedType hskip hemb htag =>
    obtain ⟨hp, key, h⟩ := hg
    exact ⟨hc, hf, hb, hp, fun key' hm => h.mentioned hskip (mentions_behindPointer.1 hm)⟩
  | inlined hskip hemb htag h =>
    obtain ⟨hp, outer, hin⟩ := hg
    have hgrows := h.grows
    obtain ⟨hf₁, hm⟩ := h.means hc hf (hheld hp)
    have hembeds := hin.embeds hskip hemb htag hm
    have hkey := h.structKeys_subset rfl (List.mem_singleton.2 rfl)
    refine ⟨hgrows.packages.catalog.trans hc, hf₁, hb.grows hgrows, hkey,
      hin.reached.trans hembeds.refers.to_reflTransGen, ?_⟩
    rw [hgrows.trail]
    exact fun j hj => .tail' (hin.embedding j hj) hembeds
  | @unfinished k key place source k₁ n ho =>
    have hl := ho.loads
    have hc₀ : k.packages.catalog = c := hc
    obtain ⟨p, x, d, rfl, -, hd⟩ := ho.declares
    rw [hc₀] at hd
    obtain ⟨hkey, hreached, hembeds⟩ := hg
    have hb₁ : k₁.Backed := hb.grows (.of_loads hl)
    refine ⟨hl.packages.catalog.trans hc, hl.structs ▸ hf, hb₁, ho.holds,
      keyIn p x, ⟨p, x, d, source, rfl, hd, rfl, List.Subset.refl _⟩, hreached, fun j hj => ?_⟩
    rcases List.mem_cons.1 hj with rfl | hj
    · exact .refl
    · rw [hl.trail] at hj
      exact (hembeds j hj).to_reflTransGen

/-- What is embedded is in the table, so it was read before. -/
lemma Task.Tracked.not_fallsBack {t : Task} (ht : t.Tracked c names root) :
    ¬ FallsBack names t := by
  have hc := ht.catalog
  have hf := ht.faithful
  have hg := ht.goal
  intro h
  cases h with
  | unknown hout hs hd =>
    obtain ⟨p, x, d, rfl, hp, hx⟩ := ht.backed _ hg.1 hs
    cases hd.symm.trans (knownDecl?_of_holds hp hx)
  | @bodiless k key place k' n ho =>
    have hc₀ : k.packages.catalog = c := hc
    obtain ⟨p, x, d, rfl, -, hd⟩ := ho.declares
    obtain ⟨p', x', d', source, hkey, hd', -⟩ := hf.declared hg.1
    rw [hc₀] at hd
    obtain ⟨rfl, rfl⟩ := hd.eq_of_key hd' hkey
    cases (hd.unique hd').2

/-- A struct is said to embed itself only where what is being embedded comes back to it. -/
lemma ArisesBelow.embedding {t : Task} {place : SourcePlace}
    (h : ArisesBelow names t (.cyclicEmbedding place key)) (ht : t.Tracked c names root) :
    ∃ t', Descends names t t' ∧ t'.Tracked c names root ∧ t'.goal = .embedded key place ∧
      key ∈ t'.known.trail.embedding := by
  obtain ⟨t', hway, hf⟩ := h
  have ht' := hway.keeps (fun hask ht => hask.tracked ht) ht
  refine ⟨t', hway, ht', ?_⟩
  cases hf with
  | cyclic hin => exact ⟨rfl, hin⟩
  | unknown hout hs hd => exact absurd (.unknown hout hs hd) ht'.not_fallsBack
  | bodiless ho => exact absurd (.bodiless ho) ht'.not_fallsBack
  | rejected h => cases h
  | nameless hname => exact ((failsLooking_referentOf ..).isOfLookup hname).elim
  | search _ _ _ hsearch => exact ((failsLooking_structLiteral? ..).isOfLookup hsearch).elim
  | research _ _ _ hsearch => exact ((failsLooking_structLiteral? ..).isOfLookup hsearch).elim

/-! ## What is embedded in a struct that means something -/

/-- A struct that embeds another one has a field for it. -/
lemma Embeds.at_key {p : Package} {x : String} {d : DeclaredType} {source : StructLiteral}
    (h : Embeds c names (keyIn p x) key) (hd : Declares c names p x d (some source)) :
    ∃ f ∈ source.fields, ¬ (fieldTags f).isJsonSkipped ∧ f.embedded ∧
      ¬ (fieldTags f).jsonName?.isSome ∧
      Means c names source.site (behindPointer false f.type).1 (.struct key) := by
  generalize hkey : keyIn p x = key₀ at h
  cases h with
  | field hd' hf hskip hemb htag h =>
    obtain ⟨rfl, rfl⟩ := hd.eq_of_key hd' hkey
    cases (hd.unique hd').2
    exact ⟨_, hf, hskip, hemb, htag, h⟩

/-- Below what the fields of a struct that means something embed, embeddings end. -/
lemma Flattens.acc {site : Site} {fs : List Field} {gs : List StructField} {f : Field}
    (h : Flattens c names site fs gs) (hf : f ∈ fs) (hskip : ¬ (fieldTags f).isJsonSkipped)
    (hemb : f.embedded) (htag : ¬ (fieldTags f).jsonName?.isSome)
    (hm : Means c names site (behindPointer false f.type).1 (.struct key)) :
    Acc (Function.swap (Embeds c names)) key := by
  induction h generalizing f key with
  | nil => cases hf
  | skipped hskip' _ ih =>
    rcases List.mem_cons.1 hf with rfl | hf
    · exact absurd hskip' hskip
    · exact ih hf hskip hemb htag hm
  | named _ hemb' _ _ ih =>
    rcases List.mem_cons.1 hf with rfl | hf
    · exact absurd hemb hemb'
    · exact ih hf hskip hemb htag hm
  | tagged _ _ htag' _ _ ih =>
    rcases List.mem_cons.1 hf with rfl | hf
    · exact absurd htag' htag
    · exact ih hf hskip hemb htag hm
  | inlined _ _ _ h hd _ _ ihinner ih =>
    rcases List.mem_cons.1 hf with rfl | hf
    · cases hm.unique h
      refine ⟨_, fun key' hembeds => ?_⟩
      obtain ⟨f', hf', hskip', hemb', htag', hm'⟩ := Embeds.at_key hembeds hd
      exact ihinner hf' hskip' hemb' htag' hm'
    · exact ih hf hskip hemb htag hm
  | wrapped _ _ _ ht h _ ih =>
    rcases List.mem_cons.1 hf with rfl | hf
    · exact absurd (h.unique hm) (ht _)
    · exact ih hf hskip hemb htag hm

/-- A struct whose fields mean something does not embed itself. -/
lemma Flattens.not_embeds_itself {p : Package} {x : String} {d : DeclaredType}
    {source : StructLiteral} {gs : List StructField} (hd : Declares c names p x d (some source))
    (h : Flattens c names source.site source.fields gs) :
    ¬ TransGen (Embeds c names) (keyIn p x) (keyIn p x) := by
  have hacc : Acc (Function.swap (Embeds c names)) (keyIn p x) := by
    refine ⟨_, fun key hembeds => ?_⟩
    obtain ⟨f, hf, hskip, hemb, htag, hm⟩ := Embeds.at_key hembeds hd
    exact h.acc hf hskip hemb htag hm
  have hnot : ∀ {key}, Acc (TransGen (Function.swap (Embeds c names))) key →
      ¬ TransGen (Function.swap (Embeds c names)) key key := by
    intro key h
    induction h with
    | intro key _ ih => exact fun hback => ih key hback hback
  rw [← transGen_swap]
  exact hnot hacc.transGen

/-! ## What has a meaning -/

section

variable (c names)

/-- The declaration at a key means something: it has no type parameters, and the type for which it
stands or the fields of the struct literal behind it mean something. -/
inductive Meaningful : String → Prop
  | type (hd : Declares c names p x d none) (hplain : d.spec.typeParams = none)
      (h : Means c names ⟨p, d.file⟩ d.spec.type t) : Meaningful (keyIn p x)
  | struct (hd : Declares c names p x d (some source)) (hplain : d.spec.typeParams = none)
      (h : Flattens c names source.site source.fields gs) : Meaningful (keyIn p x)

/-- The declaration at a key is that of a struct or means something. -/
def Meant (key : String) : Prop :=
  ∃ p x d source, key = keyIn p x ∧ Declares c names p x d source ∧ d.spec.typeParams = none ∧
    (source = none → ∃ t, Means c names ⟨p, d.file⟩ d.spec.type t)

end

/-- What is named in a type that means something is meant. -/
lemma Means.mentioned {site : Site} {type : TypeExpr} {t : DataType}
    (h : Means c names site type t) (hm : Mentions c names site type key) : Meant c names key := by
  induction h with
  | paren _ ih =>
    cases hm with
    | paren hm => exact ih hm
  | pointer _ ih =>
    cases hm with
    | pointer hm => exact ih hm
  | slice _ ih =>
    cases hm with
    | slice hm => exact ih hm
  | array _ ih =>
    cases hm with
    | array hm => exact ih hm
  | map _ _ ihkey ihval =>
    cases hm with
    | mapKey hm => exact ihkey hm
    | mapValue hm => exact ihval hm
  | any => cases hm
  | known hname =>
    cases hm with
    | named hname' => cases hname.symm.trans hname'
  | struct hname hd hplain =>
    cases hm with
    | named hname' =>
      cases hname.symm.trans hname'
      exact ⟨_, _, _, _, rfl, hd, hplain, nofun⟩
  | expand hname hd hplain h _ =>
    cases hm with
    | named hname' =>
      cases hname.symm.trans hname'
      exact ⟨_, _, _, _, rfl, hd, hplain, fun _ => ⟨_, h⟩⟩

/-- A type that means something is written in supported forms. -/
lemma Means.supported {site : Site} {type : TypeExpr} {t : DataType}
    (h : Means c names site type t) : Supported c names site type := by
  induction h with
  | paren _ ih => exact .paren ih
  | pointer _ ih => exact .pointer ih
  | slice _ ih => exact .slice ih
  | array _ ih => exact .array ih
  | map hkey _ ihkey ihval => exact .map ihkey hkey ihval
  | any => exact .any
  | known hname => exact .named hname
  | struct hname => exact .named hname
  | expand hname => exact .named hname

/-- A type is supported if it is without its pointer. -/
lemma supported_of_behindPointer {site : Site} {pointer : Bool} {type : TypeExpr}
    (h : Supported c names site (behindPointer pointer type).1) : Supported c names site type := by
  induction type using TypeExpr.partsInduction generalizing pointer with
  | paren span inner ih => exact .paren (ih h)
  | pointer span star elem ih =>
    rw [behindPointer] at h
    split at h
    · exact h
    · exact .pointer (ih h)
  | _ => exact h

/-- Each field that JSON does not skip means something by itself, perhaps behind a pointer. -/
lemma Flattens.field {site : Site} {fs : List Field} {gs : List StructField} {f : Field}
    (h : Flattens c names site fs gs) (hf : f ∈ fs) (hskip : ¬ (fieldTags f).isJsonSkipped) :
    (∃ t, Means c names site f.type t) ∨
      ∃ t, Means c names site (behindPointer false f.type).1 t := by
  induction h with
  | nil => cases hf
  | skipped hskip' _ ih =>
    rcases List.mem_cons.1 hf with rfl | hf
    · exact absurd hskip' hskip
    · exact ih hf
  | named _ _ h _ ih =>
    rcases List.mem_cons.1 hf with rfl | hf
    · exact .inl ⟨_, h⟩
    · exact ih hf
  | tagged _ _ _ h _ ih =>
    rcases List.mem_cons.1 hf with rfl | hf
    · exact .inl ⟨_, h⟩
    · exact ih hf
  | inlined _ _ _ h _ _ _ _ ih =>
    rcases List.mem_cons.1 hf with rfl | hf
    · exact .inr ⟨_, h⟩
    · exact ih hf
  | wrapped _ _ _ _ h _ ih =>
    rcases List.mem_cons.1 hf with rfl | hf
    · exact .inr ⟨_, h⟩
    · exact ih hf

namespace Meaningful

/-- What is referred to by a declaration that means something is meant. -/
lemma refers (h : Meaningful c names key) (hr : Refers c names key key') : Meant c names key' := by
  cases h with
  | type hd _ h => exact h.mentioned (mentions_of_refers hd hr)
  | struct hd _ h =>
    obtain ⟨f, hf, hskip, hm⟩ := fieldMentions_of_refers hd hr
    obtain ⟨t, ht⟩ | ⟨t, ht⟩ := h.field hf hskip
    · exact ht.mentioned hm
    · exact ht.mentioned (mentions_behindPointer.2 hm)

/-- What is written of a meaningful declaration is supported. -/
lemma supportedAt (h : Meaningful c names key) : SupportedAt c names key := by
  cases h with
  | type hd hplain h => exact .type hd hplain h.supported
  | struct hd hplain h =>
    refine .struct hd hplain fun f hf hskip => ?_
    obtain ⟨t, ht⟩ | ⟨t, ht⟩ := h.field hf hskip
    · exact ht.supported
    · exact supported_of_behindPointer ht.supported

/-- A struct that means something does not embed itself. -/
lemma not_embeds_itself (h : Meaningful c names key) : ¬ TransGen (Embeds c names) key key := by
  cases h with
  | type hd =>
    have hplain : IsPlain c names (keyIn _ _) := ⟨_, _, _, rfl, hd⟩
    intro hback
    obtain ⟨key, hembeds, -⟩ := TransGen.head'_iff.1 hback
    exact hplain.not_isStruct hembeds.isStruct
  | struct hd _ h => exact h.not_embeds_itself hd

end Meaningful

/-- What is meant and was followed means something, if the structs in the table are finished. -/
lemma Followed.meaningful {t : StructTable} {expanding : List String}
    (h : Followed c names t.keys expanding key) (hmeant : Meant c names key)
    (ht : Faithful c names t) (hfinished : ∀ key ∈ t.keys, ∃ s, t.get? key = some s) :
    Meaningful c names key := by
  obtain ⟨p, x, d, source, rfl, hd, hplain, hbody⟩ := hmeant
  cases source with
  | none =>
    obtain ⟨t, hm⟩ := hbody rfl
    exact .type hd hplain hm
  | some source =>
    generalize hkey : keyIn p x = key at h
    cases h with
    | entered hmem =>
      obtain ⟨s, hs⟩ := hfinished key hmem
      obtain ⟨p', x', hkey', d', source', fields, hd', -, ⟨gs, hgs, -⟩, -⟩ :=
        ht.meant (StructTable.mem_of_get? hs)
      obtain ⟨rfl, rfl⟩ := hd.eq_of_key hd' (hkey.trans hkey')
      cases (hd.unique hd').2
      exact hkey ▸ .struct hd hplain hgs
    | expanded hd' =>
      obtain ⟨rfl, rfl⟩ := hd.eq_of_key hd' hkey
      cases (hd.unique hd').2

/-- Where nothing is in the table, everything that is reached from a declaration which can be
resolved means something. -/
lemma Resolves.meaningful {n : Nat} {p : Package} {x : String} {place : SourcePlace} {t : DataType}
    (h : Resolves names n k (.decl p x place) (.type t) k') (hempty : k.structs = .empty)
    (hp : k.packages.Holds p) (hx : p.types.contains x)
    (hreach : ReflTransGen (Refers k.packages.catalog names) (keyIn p x) key) :
    Meaningful k.packages.catalog names key := by
  have hfaithful : Faithful k.packages.catalog names k.structs := by
    rw [hempty]
    exact .empty _ _
  have hfresh : ∀ key, key ∉ k.structs.keys := by
    rw [hempty]
    exact fun key => List.not_mem_nil
  obtain ⟨hk', hmeans⟩ := h.means rfl hfaithful ⟨hp.catalog, hx⟩
  obtain ⟨hfollowed, hgained⟩ := h.follows rfl hfaithful ⟨hp.catalog, hx⟩
  have hfinished : ∀ key ∈ k'.structs.keys, ∃ s, k'.structs.get? key = some s :=
    fun key hkey => h.grows.structs.finished hkey (hfresh key)
  suffices hboth : Followed k.packages.catalog names k'.structs.keys k.trail.expanding key ∧
      Meaningful k.packages.catalog names key from hboth.2
  induction hreach with
  | refl =>
    have hroot := hfollowed _ rfl
    refine ⟨hroot, hroot.meaningful ?_ hk' hfinished⟩
    rcases hmeans with ⟨d, source, hd, hplain, -⟩ | ⟨d, hd, hplain, hm⟩
    · exact ⟨p, x, d, some source, rfl, hd, hplain, nofun⟩
    · exact ⟨p, x, d, none, rfl, hd, hplain, fun _ => ⟨_, hm⟩⟩
  | tail _ hr ih =>
    have hnext := hgained.step ih.1 ⟨hfresh _, hr⟩
    exact ⟨hnext, hnext.meaningful (ih.2.refers hr) hk' hfinished⟩

/-! ## Embedding cycles and errors -/

/-- The error that a struct embeds itself means that one does, and if one does there is an error.
* If a declared type is rejected because a struct embeds itself, then that struct is reached from
  it, embeds itself in one or more steps, and was met again while it was being embedded.
* No resolution of a declared type comes to an embedded struct whose declaration is to be read
  again and is not to be had or has no struct literal.
* Where nothing is in the table, a declared type is rejected if it reaches a struct that embeds
  itself.
* Where nothing is in the table, everything that is reached from a declared type which can be
  resolved is written in supported forms, so nothing is reached by any other form. -/
theorem cyclicEmbedding_sound_complete (names : KnownNames) (store : LoadedPackages) :
    (∀ k p x place key, Reached names store k → k.packages.Holds p →
      (outcome (resolveName names p x) k).1 = .error (.cyclicEmbedding place key) →
      ReflTransGen (Refers store.catalog names) (keyIn p x) key ∧
      TransGen (Embeds store.catalog names) key key ∧
      ∃ t, Descends names ⟨stepBound k.packages.weight, k, .decl p x (declPlace p x)⟩ t ∧
        t.goal = .embedded key place ∧ key ∈ t.known.trail.embedding) ∧
    (∀ k p x t, Reached names store k → k.packages.Holds p →
      Descends names ⟨stepBound k.packages.weight, k, .decl p x (declPlace p x)⟩ t →
      ¬ FallsBack names t) ∧
    (∀ k p x key, k.structs = .empty → k.packages.Holds p → p.types.contains x →
      ReflTransGen (Refers k.packages.catalog names) (keyIn p x) key →
      TransGen (Embeds k.packages.catalog names) key key →
      ∃ e, (outcome (resolveName names p x) k).1 = .error e) ∧
    ∀ k p x key t, k.structs = .empty → k.packages.Holds p → p.types.contains x →
      (outcome (resolveName names p x) k).1 = .ok t →
      ReflTransGen (Refers k.packages.catalog names) (keyIn p x) key →
      SupportedAt k.packages.catalog names key := by
  -- every history leaves a state in which what is being resolved can be tracked
  have htracked : ∀ {k p x}, Reached names store k → k.packages.Holds p →
      Task.Tracked store.catalog names (keyIn p x)
        ⟨stepBound k.packages.weight, k, .decl p x (declPlace p x)⟩ := by
    intro k p x hk hp
    exact ⟨hk.grows.packages.catalog, hk.faithful rfl (.empty _ _),
      .of_finished fun key => hk.finished, hp, .refl⟩
  have hresolves : ∀ {k p x t}, (outcome (resolveName names p x) k).1 = .ok t → ∃ k',
      Resolves names (stepBound k.packages.weight) k (.decl p x (declPlace p x)) (.type t) k' := by
    intro k p x t ht
    exact ⟨_, (resolveName_ends names p x k).ok (Prod.ext ht rfl)⟩
  refine ⟨?_, ?_, ?_, ?_⟩
  · intro k p x place key hk hp he
    have hfails := (resolveName_ends names p x k).error (Prod.ext he rfl)
    obtain ⟨t, hway, ht, hgoal, hin⟩ := hfails.descends.embedding (htracked hk hp)
    have hg := ht.goal
    rw [hgoal] at hg
    exact ⟨hg.2.1, hg.2.2 key hin, t, hway, hgoal, hin⟩
  · intro k p x t hk hp hway
    exact (hway.keeps (fun hask ht => hask.tracked ht) (htracked hk hp)).not_fallsBack
  · intro k p x key hempty hp hx hreach hback
    obtain ⟨t, k', ho⟩ | ⟨e, k', ho⟩ := outcome_cases (resolveName names p x) k
    · obtain ⟨k', hr⟩ := hresolves (congrArg Prod.fst ho)
      exact absurd hback (hr.meaningful hempty hp hx hreach).not_embeds_itself
    · exact ⟨e, congrArg Prod.fst ho⟩
  · intro k p x key t hempty hp hx ho hreach
    obtain ⟨k', hr⟩ := hresolves ho
    exact (hr.meaningful hempty hp hx hreach).supportedAt

namespace Knot

/-- A struct that embeds itself is rejected for that, and one that has a pointer to itself in a
field with a name is not. -/
theorem knot_embeds_itself :
    Reached ⟨""⟩ (.ofSource source) start ∧ start.structs = .empty ∧
    start.packages.Holds package ∧
    (outcome (resolveName ⟨""⟩ package "E") start).1 =
      .error (.cyclicEmbedding ⟨file.path, ⟨1, 1⟩⟩ (keyIn package "E")) ∧
    TransGen (Embeds start.packages.catalog ⟨""⟩) (keyIn package "E") (keyIn package "E") ∧
    ¬ FallsBack ⟨""⟩
      ⟨stepBound start.packages.weight, start, .decl package "E" ⟨file.path, ⟨1, 1⟩⟩⟩ ∧
    (∃ e, (outcome (resolveName ⟨""⟩ package "E") start).1 = .error e) ∧
    (outcome (resolveName ⟨""⟩ package "N") start).1 = .ok (.struct (keyIn package "N")) ∧
    SupportedAt start.packages.catalog ⟨""⟩ (keyIn package "N") := by
  have hk : Reached ⟨""⟩ (.ofSource source) start := .load (.refl _) "m/k"
  have hp : start.packages.Holds package := rfl
  have hrejected : (outcome (resolveName ⟨""⟩ package "E") start).1 =
      .error (.cyclicEmbedding ⟨file.path, ⟨1, 1⟩⟩ (keyIn package "E")) := rfl
  have hresolved : (outcome (resolveName ⟨""⟩ package "N") start).1 =
      .ok (.struct (keyIn package "N")) := rfl
  obtain ⟨hsound, hfallback, hcomplete, hsupported⟩ :=
    cyclicEmbedding_sound_complete ⟨""⟩ (.ofSource source)
  obtain ⟨-, hback, -⟩ := hsound start package "E" _ _ hk hp hrejected
  have hc : start.packages.catalog = (LoadedPackages.ofSource source).catalog :=
    hk.grows.packages.catalog
  rw [← hc] at hback
  exact ⟨hk, rfl, hp, hrejected, hback, hfallback start package "E" _ hk hp .refl,
    hcomplete start package "E" _ rfl hp rfl .refl hback, hresolved,
    hsupported start package "N" _ _ rfl hp rfl hresolved .refl⟩

end Knot

end GoService.Resolution
