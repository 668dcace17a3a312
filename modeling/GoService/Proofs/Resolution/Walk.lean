import GoService.Proofs.Resolution.Depth
import GoService.Proofs.Resolution.Descent
import GoService.Proofs.Resolution.Scope

/-!
# Walks

A walk follows references from a root, and stops at the structs that are finished when it begins.
Everything on it is written in supported forms, no struct on it embeds itself, and no other
declaration on it leads back to itself. On a walk no resolution fails (`Fails.not_ready`):

* what is being expanded leads to the declaration at hand, so none of it is met again;
* what is being embedded embeds the struct at hand, so none of it is embedded again;
* each key is expanded once, and each time a key is entered the others can be embedded once more,
  which bounds the depth (`Walk.declSteps`, `Walk.fieldSteps`).
-/

namespace GoService.Resolution

open Data Package Source Relation

/-- A root from which everything that is reached can be resolved once the `known` structs are
finished. The keys that are reached are among `keys`. -/
structure Walk (names : KnownNames) where
  catalog : Catalog
  known : List String
  root : String
  keys : List String
  structs : ∀ key ∈ known, IsStruct catalog names key
  within : ∀ key, ReflTransGen (Leads catalog names (· ∈ known)) root key → key ∈ keys
  supported : ∀ key, ReflTransGen (Leads catalog names (· ∈ known)) root key → key ∉ known →
    SupportedAt catalog names key
  embedsOthers : ∀ key, ReflTransGen (Leads catalog names (· ∈ known)) root key →
    ¬ TransGen (Embeds catalog names) key key
  leadsOn : ∀ key, ReflTransGen (Leads catalog names (· ∈ known)) root key →
    IsPlain catalog names key → ¬ TransGen (Leads catalog names (· ∈ known)) key key

namespace Walk

variable {names : KnownNames} (w : Walk names)

/-- One reference of the walk. -/
def Step : String → String → Prop :=
  Leads w.catalog names (· ∈ w.known)

/-- The declaration at a key is being read: the walk reaches it, and what is being expanded leads to
it. -/
structure At (k : Known) (key : String) : Prop where
  reached : ReflTransGen w.Step w.root key
  fresh : key ∉ w.known
  expanding : ∀ m ∈ k.trail.expanding, IsPlain w.catalog names m ∧ ReflTransGen w.Step m key

/-- The declaration at a key is about to be read: the walk reaches it, and what is being expanded
leads further to it. -/
structure Toward (k : Known) (key : String) : Prop where
  reached : ReflTransGen w.Step w.root key
  expanding : ∀ m ∈ k.trail.expanding, IsPlain w.catalog names m ∧ TransGen w.Step m key

/-- The fields of the struct at a key are being worked out, and what is being embedded embeds it. -/
structure InStruct (k : Known) (key : String) (source : StructLiteral) : Prop where
  declares : ∃ p x d, key = keyIn p x ∧ Declares w.catalog names p x d (some source)
  held : k.packages.Holds source.site.package
  here : w.At k key
  embedding : ∀ j ∈ k.trail.embedding, ReflTransGen (Embeds w.catalog names) j key

/-- A state on the walk: the table is faithful, the known structs are finished, and the packages of
those in progress are held. -/
structure Prepared (k : Known) : Prop where
  catalog : k.packages.catalog = w.catalog
  faithful : Faithful w.catalog names k.structs
  finished : ∀ key ∈ w.known, ∃ s, k.structs.get? key = some s
  held : ∀ key ∈ k.structs.keys, k.structs.get? key = none →
    ∃ p x d, key = keyIn p x ∧ k.packages.Holds p ∧ p.type? x = some d

/-! ## The trail -/

section Trail

variable {w} {k k' : Known} {key key' : String}

/-- What the declaration that is being read refers to is about to be read. -/
lemma At.toward (h : w.At k key) (hr : Refers w.catalog names key key') : w.Toward k key' := by
  have hstep : w.Step key key' := ⟨h.fresh, hr⟩
  exact ⟨h.reached.tail hstep,
    fun m hm => ⟨(h.expanding m hm).1, .tail' (h.expanding m hm).2 hstep⟩⟩

/-- What the struct that is being read embeds is about to be read. -/
lemma At.toward_embeds (h : w.At k key) (he : Embeds w.catalog names key key') :
    w.Toward k key' := by
  have hleads : TransGen w.Step key key' := he.leads w.structs h.fresh
  exact ⟨h.reached.trans hleads.to_reflTransGen,
    fun m hm => ⟨(h.expanding m hm).1, .trans_right (h.expanding m hm).2 hleads⟩⟩

/-- What is about to be read and not yet known is read. -/
lemma Toward.read (h : w.Toward k key) (hfresh : key ∉ w.known) : w.At k key :=
  ⟨h.reached, hfresh, fun m hm => ⟨(h.expanding m hm).1, (h.expanding m hm).2.to_reflTransGen⟩⟩

/-- A declaration that is no struct is read by expanding its key. -/
lemma Toward.expand (h : w.Toward k key) (hfresh : key ∉ w.known)
    (hplain : IsPlain w.catalog names key) : w.At (k.expand key) key := by
  refine ⟨h.reached, hfresh, fun m hm => ?_⟩
  rcases List.mem_cons.1 hm with rfl | hm
  · exact ⟨hplain, .refl⟩
  · exact (h.read hfresh).expanding m hm

/-- A declaration that is about to be read is not being expanded. -/
lemma Toward.notMem_expanding (h : w.Toward k key) : key ∉ k.trail.expanding := by
  intro hmem
  obtain ⟨hplain, hleads⟩ := h.expanding key hmem
  exact w.leadsOn key h.reached hplain hleads

/-- A struct is read by entering its key. -/
lemma Toward.enterStruct (h : w.Toward k key) (hfresh : key ∉ w.known) :
    w.At (k.enterStruct key) key :=
  ⟨h.reached, hfresh, (h.read hfresh).expanding⟩

/-- A struct is read again by embedding its key. -/
lemma Toward.embed (h : w.Toward k key) (hfresh : key ∉ w.known) : w.At (k.embed key) key :=
  ⟨h.reached, hfresh, (h.read hfresh).expanding⟩

/-- A declaration stays the one that is read while the state grows. -/
lemma At.grows (h : w.At k key) (hk : k.Grows k') : w.At k' key :=
  ⟨h.reached, h.fresh, hk.trail ▸ h.expanding⟩

/-- A declaration stays about to be read while the state grows. -/
lemma Toward.grows (h : w.Toward k key) (hk : k.Grows k') : w.Toward k' key :=
  ⟨h.reached, hk.trail ▸ h.expanding⟩

/-- A struct stays the one that is worked out while the state grows. -/
lemma InStruct.grows {source : StructLiteral} (h : w.InStruct k key source) (hk : k.Grows k') :
    w.InStruct k' key source :=
  ⟨h.declares, hk.packages.holds h.held, h.here.grows hk, hk.trail ▸ h.embedding⟩

end Trail

/-! ## The table -/

namespace Prepared

variable {w} {k k' : Known} (h : w.Prepared k)
include h

/-- A package that is held is in the catalog of the walk. -/
lemma in_catalog {p : Package} (hp : k.packages.Holds p) : w.catalog p.importPath = .ok p :=
  h.catalog ▸ hp.catalog

/-- A key without a finished struct is none of the known ones. -/
lemma notMem_known {key : String} (hkey : k.structs.get? key = none) : key ∉ w.known := by
  intro hmem
  obtain ⟨s, hs⟩ := h.finished key hmem
  cases hkey.symm.trans hs

/-- A key that is not in the table is none of the known ones. -/
lemma notMem_known_of_fresh {key : String} (hkey : ¬ k.structs.contains key) : key ∉ w.known := by
  intro hmem
  obtain ⟨s, hs⟩ := h.finished key hmem
  exact hkey (StructTable.contains_iff.2 (List.mem_map_of_mem (StructTable.mem_of_get? hs)))

/-- A table that grows stays as the walk needs it. -/
lemma grows (hk : k.Grows k') (hf : Faithful w.catalog names k'.structs) : w.Prepared k' := by
  refine ⟨hk.packages.catalog.trans h.catalog, hf, ?_, Known.Backed.grows h.held hk⟩
  intro key hknown
  obtain ⟨s, hs⟩ := h.finished key hknown
  have hkey : key ∈ k.structs.keys := List.mem_map_of_mem (StructTable.mem_of_get? hs)
  exact ⟨s, (hk.structs.get?_eq hkey).trans hs⟩

/-- The trail does not matter to a prepared state. -/
lemma withTrail (t : Trail) : w.Prepared { k with trail := t } :=
  ⟨h.catalog, h.faithful, h.finished, h.held⟩

/-- Loading packages keeps a state prepared. -/
lemma loads (hl : Loads k k') : w.Prepared k' := by
  refine h.grows (.of_loads hl) ?_
  rw [hl.structs]
  exact h.faithful

/-- A resolution that succeeds leaves a state on the walk and answers what is meant. -/
lemma resolves {n : Nat} {g : Goal} {a : Answer} (hr : Resolves names n k g a k')
    (hg : g.In w.catalog) : w.Prepared k' ∧ g.Means w.catalog names a := by
  obtain ⟨hf, hm⟩ := hr.means h.catalog h.faithful hg
  exact ⟨h.grows hr.grows hf, hm⟩

/-- Entering a declared struct keeps a state prepared. -/
lemma enterStruct {p : Package} {x : String} {d : DeclaredType} {source : StructLiteral}
    (hd : Declares w.catalog names p x d (some source)) (hplain : d.spec.typeParams = none)
    (hp : k.packages.Holds p) (hfresh : keyIn p x ∉ k.structs.keys) :
    w.Prepared (k.enterStruct (keyIn p x)) := by
  refine ⟨h.catalog, h.faithful.enter hd hplain, ?_,
    Known.Backed.enterStruct h.held hp hd.declared hfresh⟩
  intro key hknown
  obtain ⟨s, hs⟩ := h.finished key hknown
  refine ⟨s, (StructTable.get?_enter ..).trans ?_⟩
  rw [if_neg]
  · exact hs
  · rintro rfl
    exact hfresh (List.mem_map_of_mem (StructTable.mem_of_get? hs))

end Prepared

/-! ## The depth -/

/-- How many steps a declared name can need: each key is expanded at most once, and with each key
that is entered all of them can be embedded. -/
def declSteps (k : Known) : Nat :=
  1 + w.keys.countP (· ∉ k.trail.expanding) +
    w.keys.countP (· ∉ k.structs.keys) * (w.keys.length + 1)

/-- How many steps the fields of a struct can need: each key is embedded at most once. -/
def fieldSteps (k : Known) : Nat :=
  w.keys.countP (· ∉ k.trail.embedding) + w.declSteps k

section Depth

variable {w} {k k' : Known} {key : String}

/-- Some steps are left for every declaration. -/
lemma declSteps_pos (w : Walk names) (k : Known) : 0 < w.declSteps k :=
  k.declSteps_pos w.keys

/-- Fewer steps are left for declarations when the state has grown. -/
lemma declSteps_le (w : Walk names) (h : k.Grows k') : w.declSteps k' ≤ w.declSteps k :=
  h.declSteps_le w.keys

/-- Fewer steps are left for fields when the state has grown. -/
lemma fieldSteps_le (w : Walk names) (h : k.Grows k') : w.fieldSteps k' ≤ w.fieldSteps k :=
  h.fieldSteps_le w.keys

/-- A declared name needs no more steps than there are for so many keys. -/
lemma declSteps_le_stepBound (w : Walk names) (k : Known) :
    w.declSteps k ≤ stepBound w.keys.length :=
  k.declSteps_le_stepBound w.keys

/-- Expanding a key for the first time leaves fewer steps. -/
lemma declSteps_expand (hkey : key ∈ w.keys) (hout : key ∉ k.trail.expanding) :
    w.declSteps (k.expand key) < w.declSteps k :=
  Known.declSteps_expand hkey hout

/-- Embedding a key for the first time leaves fewer steps. -/
lemma fieldSteps_embed (hkey : key ∈ w.keys) (hout : key ∉ k.trail.embedding) :
    w.fieldSteps (k.embed key) < w.fieldSteps k :=
  Known.fieldSteps_embed hkey hout

/-- Entering a struct for the first time leaves fewer steps. -/
lemma fieldSteps_enterStruct (hkey : key ∈ w.keys) (hfresh : key ∉ k.structs.keys) :
    w.fieldSteps (k.enterStruct key) + 1 < w.declSteps k :=
  Known.fieldSteps_enterStruct hkey hfresh

end Depth

/-! ## Goals of a walk -/

/-- A type of a declaration that is being read. -/
structure Reads (k : Known) (site : Site) (type : TypeExpr) : Prop where
  held : k.packages.Holds site.package
  supported : Supported w.catalog names site type
  here : ∃ key, w.At k key ∧
    ∀ key', Mentions w.catalog names site type key' → Refers w.catalog names key key'

/-- A goal of the walk for which the depth suffices. -/
def Ready (k : Known) (n : Nat) : Goal → Prop
  | .type site type => w.declSteps k ≤ n ∧ w.Reads k site type
  | .decl p x _ =>
    w.declSteps k ≤ n ∧ k.packages.Holds p ∧ p.types.contains x ∧ w.Toward k (keyIn p x)
  | .literal _ source => w.fieldSteps k < n ∧ ∃ key, w.InStruct k key source
  | .fields site fs _ =>
    w.fieldSteps k ≤ n ∧
      ∃ key source, w.InStruct k key source ∧ site = source.site ∧ fs ⊆ source.fields
  | .field site f _ =>
    w.fieldSteps k ≤ n ∧
      ∃ key source, w.InStruct k key source ∧ site = source.site ∧ f ∈ source.fields
  | .embedded key _ =>
    w.fieldSteps k ≤ n ∧ key ∈ k.structs.keys ∧ w.Toward k key ∧
      ∀ j ∈ k.trail.embedding, TransGen (Embeds w.catalog names) j key

section Goals

variable {w} {k k' : Known} {site : Site} {type inner : TypeExpr}

/-- A part of a type that is read is read, if it is supported. -/
lemma Reads.part (h : w.Reads k site type) (hs : Supported w.catalog names site inner)
    (hm : ∀ {key}, Mentions w.catalog names site inner key →
      Mentions w.catalog names site type key) : w.Reads k site inner := by
  obtain ⟨key, hat, hrefers⟩ := h.here
  exact ⟨h.held, hs, key, hat, fun key' h => hrefers key' (hm h)⟩

/-- A type stays one that is read while the state grows. -/
lemma Reads.grows (h : w.Reads k site type) (hk : k.Grows k') : w.Reads k' site type := by
  obtain ⟨key, hat, hrefers⟩ := h.here
  exact ⟨hk.packages.holds h.held, h.supported, key, hat.grows hk, hrefers⟩

/-- The types of the fields of a struct are read while it is worked out. -/
lemma InStruct.reads {key : String} {source : StructLiteral} (h : w.InStruct k key source)
    {f : Field} (hf : f ∈ source.fields) (hskip : ¬ (fieldTags f).isJsonSkipped) :
    w.Reads k source.site f.type := by
  obtain ⟨p, x, d, rfl, hd⟩ := h.declares
  have hs := w.supported _ h.here.reached h.here.fresh
  exact ⟨h.held, hs.field hd hf hskip, _, h.here, fun key' hm => .field hd hf ⟨hskip, hm⟩⟩

/-- A struct embeds what its fields without a tagged name embed. -/
lemma InStruct.embeds {key key' : String} {source : StructLiteral} (h : w.InStruct k key source)
    {f : Field} (hf : f ∈ source.fields) (hskip : ¬ (fieldTags f).isJsonSkipped)
    (hemb : f.embedded) (htag : ¬ (fieldTags f).jsonName?.isSome)
    (hm : Means w.catalog names source.site (behindPointer false f.type).1 (.struct key')) :
    Embeds w.catalog names key key' := by
  obtain ⟨p, x, d, rfl, hd⟩ := h.declares
  exact .field hd hf hskip hemb htag hm

end Goals

end Walk

/-! ## No resolution on a walk fails -/

/-- A task of the walk, in a state on the walk. -/
structure Task.OnWalk {names : KnownNames} (w : Walk names) (t : Task) : Prop where
  prepared : w.Prepared t.known
  ready : w.Ready t.known t.depth t.goal

section

variable {names : KnownNames} {w : Walk names}

/-- On a walk a resolution goes on with tasks of the walk. -/
lemma Asks.onWalk {t t' : Task} (h : Asks names t t') (ht : t.OnWalk w) : t'.OnWalk w := by
  obtain ⟨hk, hready⟩ := ht
  cases h with
  | paren =>
    obtain ⟨hn, hr⟩ := hready
    cases hr.supported with
    | paren hs => exact ⟨hk, hn, hr.part hs .paren⟩
  | pointer =>
    obtain ⟨hn, hr⟩ := hready
    cases hr.supported with
    | pointer hs => exact ⟨hk, hn, hr.part hs .pointer⟩
  | slice =>
    obtain ⟨hn, hr⟩ := hready
    cases hr.supported with
    | slice hs => exact ⟨hk, hn, hr.part hs .slice⟩
  | array =>
    obtain ⟨hn, hr⟩ := hready
    cases hr.supported with
    | array hs => exact ⟨hk, hn, hr.part hs .array⟩
  | mapKey =>
    obtain ⟨hn, hr⟩ := hready
    cases hr.supported with
    | map hs _ _ => exact ⟨hk, hn, hr.part hs .mapKey⟩
  | mapValue hkey =>
    obtain ⟨hn, hr⟩ := hready
    cases hr.supported with
    | map _ _ hs =>
      -- the key has been resolved by then, so the state may have grown
      have hgrows := hkey.grows
      have hk₁ := (hk.resolves hkey (hk.in_catalog hr.held)).1
      have hr₁ := (hr.part hs .mapValue).grows hgrows
      exact ⟨hk₁, (w.declSteps_le hgrows).trans hn, hr₁⟩
  | declared hname =>
    obtain ⟨hn, hr⟩ := hready
    obtain ⟨hl, hsome⟩ := (looks_referentOf ..).of_ok hname
    rw [hk.catalog] at hsome
    obtain ⟨key, hat, hrefers⟩ := hr.here
    have hp := (referentOf_holds names hr.held ..).ok hname _ _ rfl
    have hx := (package_of_referentIn hsome).1
    have hgrows := Known.Grows.of_loads hl
    have htoward := (hat.toward (hrefers _ (.named hsome))).grows hgrows
    exact ⟨hk.loads hl, (w.declSteps_le hgrows).trans hn, hp, hx, htoward⟩
  | @struct k p x place d source k₁ n ho =>
    obtain ⟨hn, hp, -, htoward⟩ := hready
    have hl := ho.loads
    have hd := ho.declares (hk.catalog ▸ hk.in_catalog hp)
    rw [hk.catalog] at hd
    have hfresh := hk.notMem_known_of_fresh ho.fresh
    have hk₁ := (hk.loads hl).enterStruct hd ho.plain (hl.packages.holds hp) ho.notMem_keys
    have hn₁ := w.declSteps_le (.of_loads hl)
    -- with the new entry one key fewer is left to be entered
    have hlt := Walk.fieldSteps_enterStruct (w.within _ htoward.reached) ho.notMem_keys
    have hhere := (htoward.grows (.of_loads hl)).enterStruct hfresh
    have hn₀ : w.declSteps k ≤ n + 1 := hn
    have hn₂ : w.fieldSteps (k₁.enterStruct (keyIn p x)) < n := by omega
    refine ⟨hk₁, hn₂, _, ⟨_, _, _, rfl, hd⟩, ho.holds hp, hhere, ?_⟩
    intro j hj
    rw [List.mem_singleton.1 hj]
  | @expand k p x place d k₁ n ho hout =>
    obtain ⟨hn, hp, -, htoward⟩ := hready
    have hl := ho.loads
    have hd := ho.declares (hk.catalog ▸ hk.in_catalog hp)
    rw [hk.catalog] at hd
    have hfresh := hk.notMem_known_of_fresh ho.fresh
    have hn₁ := w.declSteps_le (.of_loads hl)
    -- the key was not being expanded, and is from now on
    have hlt := Walk.declSteps_expand (w.within _ htoward.reached) hout
    have hs := (w.supported _ htoward.reached hfresh).body hd
    have hhere := (htoward.grows (.of_loads hl)).expand hfresh ⟨_, _, _, rfl, hd⟩
    have hn₀ : w.declSteps k ≤ n + 1 := hn
    have hn₂ : w.declSteps (k₁.expand (keyIn p x)) ≤ n := by omega
    refine ⟨(hk.loads hl).withTrail _, hn₂, hl.packages.holds hp, hs, _, hhere, ?_⟩
    exact fun key' hm => .type hd hm
  | literal =>
    obtain ⟨hn, key, hin⟩ := hready
    exact ⟨hk, Nat.le_of_lt_succ hn, key, _, hin, rfl, List.Subset.refl _⟩
  | head =>
    obtain ⟨hn, key, source, hin, hsite, hfs⟩ := hready
    exact ⟨hk, hn, key, source, hin, hsite, hfs (List.mem_cons_self ..)⟩
  | tail hf =>
    obtain ⟨hn, key, source, hin, rfl, hfs⟩ := hready
    have hgrows := hf.grows
    have hk₁ := (hk.resolves hf (hk.in_catalog hin.held)).1
    refine ⟨hk₁, (w.fieldSteps_le hgrows).trans hn, key, source, hin.grows hgrows, rfl, ?_⟩
    exact fun f hf => hfs (List.mem_cons_of_mem _ hf)
  | named hskip _ =>
    obtain ⟨hn, key, source, hin, rfl, hf⟩ := hready
    exact ⟨hk, Nat.le_trans (Nat.le_add_left ..) hn, hin.reads hf hskip⟩
  | tagged hskip _ _ =>
    obtain ⟨hn, key, source, hin, rfl, hf⟩ := hready
    exact ⟨hk, Nat.le_trans (Nat.le_add_left ..) hn, hin.reads hf hskip⟩
  | embeddedType hskip _ _ =>
    obtain ⟨hn, key, source, hin, rfl, hf⟩ := hready
    have hr := hin.reads hf hskip
    have hpart := hr.part (hr.supported.behindPointer false) mentions_behindPointer.1
    exact ⟨hk, Nat.le_trans (Nat.le_add_left ..) hn, hpart⟩
  | inlined hskip hemb htag h =>
    obtain ⟨hn, key, source, hin, rfl, hf⟩ := hready
    have hgrows := h.grows
    obtain ⟨hk₁, hm⟩ := hk.resolves h (hk.in_catalog hin.held)
    have hembeds := hin.embeds hf hskip hemb htag hm
    have hkeys := h.structKeys_subset rfl (List.mem_singleton.2 rfl)
    have hin₁ := hin.grows hgrows
    refine ⟨hk₁, (w.fieldSteps_le hgrows).trans hn, hkeys, hin₁.here.toward_embeds hembeds, ?_⟩
    exact fun j hj => .tail' (hin₁.embedding j hj) hembeds
  | @unfinished k key place source k₁ n ho =>
    obtain ⟨hn, hkeys, htoward, hembedding⟩ := hready
    have hl := ho.loads
    obtain ⟨p, x, d, rfl, hp, hd⟩ := ho.declares
    rw [hk.catalog] at hd
    have hfresh := hk.notMem_known ho.unfinished
    have hn₁ := w.fieldSteps_le (.of_loads hl)
    have hout := ho.outside
    rw [← hl.trail] at hout hembedding
    -- the struct was not being embedded, and is from now on
    have hlt := Walk.fieldSteps_embed (w.within _ htoward.reached) hout
    have hhere := (htoward.grows (.of_loads hl)).embed hfresh
    have hn₀ : w.fieldSteps k ≤ n := hn
    have hn₂ : w.fieldSteps (k₁.embed (keyIn p x)) < n := by omega
    refine ⟨(hk.loads hl).withTrail _, hn₂, _, ⟨_, _, _, rfl, hd⟩, ho.holds, hhere, ?_⟩
    intro j hj
    rcases List.mem_cons.1 hj with rfl | hj
    · exact .refl
    · exact (hembedding j hj).to_reflTransGen

/-- No error arises in a task of a walk. -/
lemma Faults.not_onWalk {t : Task} {e : ResolutionError} (h : Faults names t e) : ¬ t.OnWalk w := by
  intro ht
  obtain ⟨hk, hready⟩ := ht
  cases h with
  | mapKeyKind h ht =>
    -- the key was answered with what it means, and it means a builtin type
    obtain ⟨hn, hr⟩ := hready
    cases hr.supported with
    | map _ hb _ => exact ht _ ((hk.resolves h (hk.in_catalog hr.held)).2.unique hb)
  | rejected h =>
    obtain ⟨hn, hr⟩ := hready
    have hs := hr.supported
    cases h with
    | interface hne =>
      cases hs
      exact hne rfl
    | instantiation hne =>
      cases hs
      exact hne rfl
    | _ => cases hs
  | nameless hname =>
    obtain ⟨hn, hr⟩ := hready
    have hnone := ((looks_referentOf ..).of_error hname).2
    rw [hk.catalog] at hnone
    cases hr.supported with
    | named hs => cases hnone.symm.trans hs
  | declDepth =>
    obtain ⟨hn, -⟩ := hready
    have hpos := w.declSteps_pos
    exact absurd hn (Nat.not_le.2 (hpos _))
  | undeclared _ hd =>
    obtain ⟨-, -, hx, -⟩ := hready
    obtain ⟨d, hd'⟩ := Option.isSome_iff_exists.1 hx
    cases hd.symm.trans hd'
  | generic hfresh hd hparams =>
    -- the key is not in the table, so the walk goes on from it and the declaration is supported
    obtain ⟨-, hp, -, htoward⟩ := hready
    have hs := w.supported _ htoward.reached (hk.notMem_known_of_fresh hfresh)
    rw [(hs.at_key (hk.in_catalog hp) hd).1] at hparams
    cases hparams
  | search hfresh hd _ hsearch =>
    obtain ⟨-, hp, -, htoward⟩ := hready
    have hs := w.supported _ htoward.reached (hk.notMem_known_of_fresh hfresh)
    obtain ⟨source, hdecl⟩ := hs.declares (hk.in_catalog hp) hd
    have hnone := ((looks_structLiteral? ..).of_error hsearch).2
    rw [hk.catalog] at hnone
    cases hnone.symm.trans hdecl.search
  | recursive ho hin =>
    -- what is being expanded leads here, and nothing on the walk leads back to itself
    obtain ⟨-, -, -, htoward⟩ := hready
    rw [ho.loads.trail] at hin
    exact htoward.notMem_expanding hin
  | literalDepth =>
    obtain ⟨hn, -⟩ := hready
    exact absurd hn (Nat.not_lt_zero _)
  | cyclic hin =>
    -- what is being embedded embeds this struct, and no struct on the walk embeds itself
    obtain ⟨-, -, htoward, hembedding⟩ := hready
    exact w.embedsOthers _ htoward.reached (hembedding _ hin)
  | unknown _ hs hd =>
    -- a struct that is entered but not finished is in progress, and its package is held
    obtain ⟨-, hkeys, -, -⟩ := hready
    obtain ⟨p, x, d, rfl, hp, hdecl⟩ := hk.held _ hkeys hs
    cases hd.symm.trans (knownDecl?_of_holds hp hdecl)
  | research _ _ hd hsearch =>
    obtain ⟨-, hkeys, -, -⟩ := hready
    obtain ⟨p, x, d, rfl, hp, hdecl, rfl, rfl⟩ := declared_of_knownDecl? hd
    obtain ⟨p', x', d', source, heq, hd', -⟩ := hk.faithful.declared hkeys
    obtain ⟨rfl, rfl⟩ := keyIn_injective (hk.in_catalog hp) hdecl hd'.held hd'.declared heq
    cases hdecl.symm.trans hd'.declared
    have hnone := ((looks_structLiteral? ..).of_error hsearch).2
    rw [hk.catalog] at hnone
    cases hnone.symm.trans hd'.search
  | bodiless ho =>
    obtain ⟨-, hkeys, -, -⟩ := hready
    obtain ⟨p, x, d, hkey, -, hd⟩ := ho.declares
    rw [hk.catalog] at hd
    have hplain : IsPlain w.catalog names _ := ⟨p, x, d, hkey, hd⟩
    obtain ⟨p', x', d', source, hkey', hd', -⟩ := hk.faithful.declared hkeys
    exact hplain.not_isStruct ⟨p', x', d', source, hkey', hd'⟩

/-- A goal for which the walk is ready does not fail. -/
theorem Fails.not_ready {n : Nat} {k k' : Known} {g : Goal} {e : ResolutionError}
    (h : Fails names n k g e k') (hk : w.Prepared k) : ¬ w.Ready k n g := by
  intro hready
  obtain ⟨t, hdescends, hfaults⟩ := h.descends
  exact hfaults.not_onWalk (hdescends.keeps Asks.onWalk ⟨hk, hready⟩)

end

end GoService.Resolution
