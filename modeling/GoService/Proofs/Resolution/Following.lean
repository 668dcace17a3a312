import GoService.Proofs.Resolution.Faithful
import GoService.Proofs.Resolution.References

/-!
# What a resolution has followed

A resolution that succeeds has read everything to which its goal refers, up to the structs in the
table, without coming back to a declaration that is being expanded. `Followed` says this of a key,
and `Resolves.follows` of every resolution. So a declaration that is no struct and leads back to
itself past structs that are not in the table has no answer (`Resolves.not_leads_back`).
-/

namespace GoService.Resolution

open Data Package Source Relation

section

variable (c : Catalog) (names : KnownNames)

/-- A goal refers to the declaration at a key. -/
def Goal.RefersTo : Goal → String → Prop
  | .type site written, key => Mentions c names site written key
  | .decl p x _, key => key = keyIn p x
  | .literal _ source, key => ∃ f ∈ source.fields, FieldMentions c names source.site f key
  | .fields site written _, key => ∃ f ∈ written, FieldMentions c names site f key
  | .field site f _, key => FieldMentions c names site f key
  | .embedded .., _ => False

/-- The declaration at a key was followed without meeting those that are being expanded: it is in
the table, or it is no struct and everything to which it refers was followed without meeting it
either. -/
inductive Followed (table : List String) : List String → String → Prop
  | entered (h : key ∈ table) : Followed table expanding key
  | expanded (hd : Declares c names p x d none) (hout : keyIn p x ∉ expanding)
      (h : ∀ key, Mentions c names ⟨p, d.file⟩ d.spec.type key →
        Followed table (keyIn p x :: expanding) key) : Followed table expanding (keyIn p x)

/-- Whatever the structs that are new in the table refer to was followed. -/
def Gained (k k' : Known) : Prop :=
  ∀ key ∈ k'.structs.keys, key ∉ k.structs.keys → ∀ key', Refers c names key key' →
    Followed c names k'.structs.keys k.trail.expanding key'

end

variable {c : Catalog} {names : KnownNames} {n : Nat} {k k₁ k' : Known}

/-- What was followed is so in a greater table, and with less being expanded. -/
lemma Followed.mono {table table' expanding expanding' : List String} {key : String}
    (h : Followed c names table expanding key) (ht : table ⊆ table') (he : expanding' ⊆ expanding) :
    Followed c names table' expanding' key := by
  induction h generalizing expanding' with
  | entered hkey => exact .entered (ht hkey)
  | expanded hd hout _ ih =>
    exact .expanded hd (fun hmem => hout (he hmem)) fun key hm =>
      ih key hm (List.cons_subset_cons _ he)

/-- What is being expanded was followed only if it is in the table. -/
lemma Followed.mem_table {table expanding : List String} {key : String}
    (h : Followed c names table expanding key) (hin : key ∈ expanding) : key ∈ table := by
  cases h with
  | entered hkey => exact hkey
  | expanded _ hout _ => exact absurd hin hout

/-- Nothing is gained where the table stays as it is. -/
lemma Gained.of_structs (h : k'.structs = k.structs) : Gained c names k k' := by
  intro key hkey hfresh
  rw [h] at hkey
  exact absurd hkey hfresh

/-- What is gained in two steps was followed at the end. -/
lemma Gained.trans (h₁ : Gained c names k k₁) (h₂ : Gained c names k₁ k') (hk₁ : k.Grows k₁)
    (hk' : k₁.Grows k') : Gained c names k k' := by
  intro key hkey hfresh key' hr
  by_cases hmid : key ∈ k₁.structs.keys
  · exact (h₁ key hmid hfresh key' hr).mono hk'.structs.keys (List.Subset.refl _)
  · rw [← hk₁.trail]
    exact h₂ key hkey hmid key' hr

/-- Loading packages gains nothing. -/
lemma Gained.of_loads (hl : Loads k k₁) (h : Gained c names k₁ k') : Gained c names k k' := by
  intro key hkey hfresh key' hr
  rw [← hl.trail]
  rw [← hl.structs] at hfresh
  exact h key hkey hfresh key' hr

/-- Coming back from a declaration leaves what was gained. -/
lemma Gained.leaveExpansion {key : String} (h : Gained c names (k.expand key) k') :
    Gained c names k k'.leaveExpansion := by
  intro key₁ hkey hfresh key' hr
  exact (h key₁ hkey hfresh key' hr).mono (List.Subset.refl _) (List.subset_cons_self ..)

/-- A struct that is completed is gained if what its fields mention was followed. -/
lemma Gained.completeStruct {p : Package} {x : String} {d : DeclaredType} {source : StructLiteral}
    {s : Struct} (hd : Declares c names p x d (some source)) (hfresh : keyIn p x ∉ k.structs.keys)
    (h : Gained c names (k.enterStruct (keyIn p x)) k')
    (hfields : ∀ key, (∃ f ∈ source.fields, FieldMentions c names source.site f key) →
      Followed c names k'.structs.keys k.trail.expanding key) :
    Gained c names k (k'.completeStruct k (keyIn p x) s) := by
  intro key hkey hnew key' hr
  change key ∈ (k'.structs.complete (keyIn p x) s).keys at hkey
  show Followed c names (k'.structs.complete (keyIn p x) s).keys k.trail.expanding key'
  rw [StructTable.keys_complete] at hkey ⊢
  by_cases heq : key = keyIn p x
  · subst heq
    exact hfields key' (fieldMentions_of_refers hd hr)
  · refine h key hkey ?_ key' hr
    show key ∉ (k.structs.enter (keyIn p x)).keys
    rw [StructTable.keys_enter hfresh]
    intro hmem
    rcases List.mem_append.1 hmem with hold | hone
    · exact hnew hold
    · exact heq (List.mem_singleton.1 hone)

/-- From a declaration that was followed everything was followed to which it refers, if the table
did not hold it before. -/
lemma Gained.step {key key' : String} (h : Gained c names k k')
    (hkey : Followed c names k'.structs.keys k.trail.expanding key)
    (hstep : Leads c names (· ∈ k.structs.keys) key key') :
    Followed c names k'.structs.keys k.trail.expanding key' := by
  cases hkey with
  | entered hmem => exact h _ hmem hstep.1 _ hstep.2
  | expanded hd _ hnext =>
    have hm := mentions_of_refers hd hstep.2
    exact (hnext _ hm).mono (List.Subset.refl _) (List.subset_cons_self ..)

/-- Where everything was followed to which a declaration refers, everything was to which it leads
past the keys that the table held before. -/
lemma Gained.follows {key key' : String} (h : Gained c names k k')
    (hkey : ∀ key', Refers c names key key' →
      Followed c names k'.structs.keys k.trail.expanding key')
    (hway : TransGen (Leads c names (· ∈ k.structs.keys)) key key') :
    Followed c names k'.structs.keys k.trail.expanding key' := by
  induction hway with
  | single hstep => exact hkey _ hstep.2
  | tail _ hstep ih => exact h.step ih hstep

/-- A resolution that succeeds has followed everything to which its goal refers, and everything to
which the structs refer that it has entered. -/
theorem Resolves.follows {g : Goal} {a : Answer} (h : Resolves names n k g a k')
    (hc : k.packages.catalog = c) (hk : Faithful c names k.structs) (hg : g.In c) :
    (∀ key, g.RefersTo c names key →
      Followed c names k'.structs.keys k.trail.expanding key) ∧ Gained c names k k' := by
  have hkeyed : c.Keyed := by
    rw [← hc]
    exact k.packages.keyed_catalog
  induction h with
  | paren _ ih =>
    obtain ⟨hf, hgained⟩ := ih hc hk hg
    refine ⟨fun key hm => ?_, hgained⟩
    cases hm with
    | paren hm => exact hf key hm
  | pointer _ ih =>
    obtain ⟨hf, hgained⟩ := ih hc hk hg
    refine ⟨fun key hm => ?_, hgained⟩
    cases hm with
    | pointer hm => exact hf key hm
  | slice _ ih =>
    obtain ⟨hf, hgained⟩ := ih hc hk hg
    refine ⟨fun key hm => ?_, hgained⟩
    cases hm with
    | slice hm => exact hf key hm
  | array _ ih =>
    obtain ⟨hf, hgained⟩ := ih hc hk hg
    refine ⟨fun key hm => ?_, hgained⟩
    cases hm with
    | array hm => exact hf key hm
  | map hkey hval ihkey ihval =>
    have hc₁ := hkey.grows.packages.catalog.trans hc
    obtain ⟨hf, hgained⟩ := ihkey hc hk hg
    obtain ⟨hf₁, hgained₁⟩ := ihval hc₁ (hkey.means hc hk hg).1 hg
    refine ⟨fun key hm => ?_, hgained.trans hgained₁ hkey.grows hval.grows⟩
    cases hm with
    | mapKey hm => exact (hf key hm).mono hval.grows.structs.keys (List.Subset.refl _)
    | mapValue hm =>
      rw [← hkey.grows.trail]
      exact hf₁ key hm
  | any => exact ⟨nofun, .of_structs rfl⟩
  | known hname =>
    obtain ⟨hl, hr⟩ := (looks_referentOf ..).of_ok hname
    rw [hc] at hr
    refine ⟨fun key hm => ?_, .of_structs hl.structs⟩
    cases hm with
    | named hr' => cases hr.symm.trans hr'
  | declared hname _ ih =>
    obtain ⟨hl, hr⟩ := (looks_referentOf ..).of_ok hname
    rw [hc] at hr
    rw [← hl.structs] at hk
    obtain ⟨hf, hgained⟩ :=
      ih (hl.packages.catalog.trans hc) hk (declared_of_referentIn hkeyed hg hr)
    refine ⟨fun key hm => ?_, hgained.of_loads hl⟩
    cases hm with
    | named hr' =>
      cases hr.symm.trans hr'
      rw [← hl.trail]
      exact hf _ rfl
  | entered hkey =>
    refine ⟨?_, .of_structs rfl⟩
    rintro key rfl
    exact .entered (StructTable.contains_iff.1 hkey)
  | struct ho h ih =>
    -- the trail is not emptied for the fields: they too are followed without what is being expanded
    have hl := ho.loads
    have hd := ho.declares (hc ▸ hg.1)
    rw [hc] at hd
    rw [← hl.structs] at hk
    obtain ⟨hf, hgained⟩ :=
      ih (hl.packages.catalog.trans hc) (hk.enter hd ho.plain) (hd.source_in hkeyed)
    have hkey := (Resolves.struct ho h).structKeys_subset rfl (List.mem_singleton.2 rfl)
    refine ⟨?_, (hgained.completeStruct hd ho.notMem_keys hf).of_loads hl⟩
    rintro key rfl
    exact .entered hkey
  | expand ho hout _ ih =>
    have hl := ho.loads
    have hd := ho.declares (hc ▸ hg.1)
    rw [hc] at hd
    rw [← hl.structs] at hk
    obtain ⟨hf, hgained⟩ := ih (hl.packages.catalog.trans hc) hk hg.1
    refine ⟨?_, hgained.leaveExpansion.of_loads hl⟩
    rintro key rfl
    rw [← hl.trail]
    exact .expanded hd hout hf
  | literal _ ih => exact ih hc hk hg
  | nil =>
    refine ⟨?_, .of_structs rfl⟩
    rintro key ⟨f, hf, -⟩
    cases hf
  | cons hfield hfields ihf ihfs =>
    have hc₁ := hfield.grows.packages.catalog.trans hc
    obtain ⟨hf, hgained⟩ := ihf hc hk hg
    obtain ⟨hfs, hgained₁⟩ := ihfs hc₁ (hfield.means hc hk hg).1 hg
    refine ⟨?_, hgained.trans hgained₁ hfield.grows hfields.grows⟩
    rintro key ⟨f, hmem, hm⟩
    rcases List.mem_cons.1 hmem with rfl | hmem
    · exact (hf key hm).mono hfields.grows.structs.keys (List.Subset.refl _)
    · rw [← hfield.grows.trail]
      exact hfs key ⟨f, hmem, hm⟩
  | skipped hskip => exact ⟨fun key hm => absurd hskip hm.1, .of_structs rfl⟩
  | named _ _ _ ih =>
    obtain ⟨hf, hgained⟩ := ih hc hk hg
    exact ⟨fun key hm => hf key hm.2, hgained⟩
  | tagged _ _ _ _ ih =>
    obtain ⟨hf, hgained⟩ := ih hc hk hg
    exact ⟨fun key hm => hf key hm.2, hgained⟩
  | inlined _ _ _ h hkey ih ihkey =>
    have hc₁ := h.grows.packages.catalog.trans hc
    obtain ⟨hf, hgained⟩ := ih hc hk hg
    obtain ⟨-, hgained₁⟩ := ihkey hc₁ (h.means hc hk hg).1 trivial
    refine ⟨fun key hm => ?_, hgained.trans hgained₁ h.grows hkey.grows⟩
    exact (hf key (mentions_behindPointer.2 hm.2)).mono hkey.grows.structs.keys (List.Subset.refl _)
  | wrapped _ _ _ _ _ ih =>
    obtain ⟨hf, hgained⟩ := ih hc hk hg
    exact ⟨fun key hm => hf key (mentions_behindPointer.2 hm.2), hgained⟩
  | finished _ _ => exact ⟨fun key hm => hm.elim, .of_structs rfl⟩
  | unfinished ho _ ih =>
    -- the key itself is in the table already; only what reading it again has entered counts
    have hl := ho.loads
    obtain ⟨p, x, d, -, -, hd⟩ := ho.declares
    rw [hc] at hd
    rw [← hl.structs] at hk
    obtain ⟨-, hgained⟩ := ih (hl.packages.catalog.trans hc) hk (hd.source_in hkeyed)
    have hleft : Gained c names _ (Known.leaveEmbedding _) := hgained
    exact ⟨fun key hm => hm.elim, hleft.of_loads hl⟩

/-- A declaration that leads back to itself past structs that are not in the table has no answer. -/
lemma Resolves.not_leads_back {p : Package} {x : String} {d : DeclaredType} {place : SourcePlace}
    {a : Answer} (h : Resolves names n k (.decl p x place) a k') (hc : k.packages.catalog = c)
    (hk : Faithful c names k.structs) (hd : Declares c names p x d none) :
    ¬ TransGen (Leads c names (· ∈ k.structs.keys)) (keyIn p x) (keyIn p x) := by
  have hplain : IsPlain c names (keyIn p x) := ⟨p, x, d, rfl, hd⟩
  have hnot : ∀ {t : StructTable}, Faithful c names t → keyIn p x ∉ t.keys := by
    intro t ht hmem
    obtain ⟨p', x', d', source, heq, hd', -⟩ := ht.declared hmem
    exact hplain.not_isStruct ⟨p', x', d', source, heq, hd'⟩
  intro hrec
  cases h with
  | entered hkey => exact hnot hk (StructTable.contains_iff.1 hkey)
  | struct ho _ =>
    have hd' := ho.declares (hc ▸ hd.held)
    rw [hc] at hd'
    cases (hd.unique hd').2
  | expand ho hout h =>
    have hd' := ho.declares (hc ▸ hd.held)
    rw [hc] at hd'
    obtain ⟨rfl, -⟩ := hd.unique hd'
    have hl := ho.loads
    have hc₁ := hl.packages.catalog.trans hc
    rw [← hl.structs] at hk hrec
    obtain ⟨hf, hgained⟩ := h.follows hc₁ hk hd.held
    have hmeans := (h.means hc₁ hk hd.held).1
    have hback := hgained.follows (fun key hr => hf key (mentions_of_refers hd hr)) hrec
    exact hnot hmeans (hback.mem_table (List.mem_cons_self ..))

end GoService.Resolution
