import GoService.Proofs.Resolution.Adequacy
import GoService.Proofs.Resolution.Faithful
import GoService.Proofs.Resolution.Termination

/-!
# Replays

A resolution that succeeds does so wherever the same is known. Two states are alike if they have the
same table, the same trail and the same catalog; which packages have been loaded so far may differ,
and with them the bound on the depth. What resolves in one of them resolves in the other to the same
type, and leaves states that are alike (`resolve_replay`).

Which packages are loaded shows only where an unfinished struct is read again, so the packages of
structs in progress have to be held.
-/

namespace GoService.Resolution

open Data Package Source

/-- The same is known, though perhaps not the same packages are loaded. -/
structure Known.Alike (k k₂ : Known) : Prop where
  structs : k₂.structs = k.structs
  trail : k₂.trail = k.trail
  catalog : k₂.packages.catalog = k.packages.catalog

namespace Known.Alike

variable {k k₁ k₂ k' : Known}

/-- A state is like itself. -/
lemma refl (k : Known) : k.Alike k :=
  ⟨rfl, rfl, rfl⟩

/-- Loading packages does not change what is known. -/
lemma loads (h : k.Alike k₂) (hl : Loads k k') (hl₂ : Loads k₂ k₁) : k'.Alike k₁ := by
  refine ⟨?_, ?_, ?_⟩
  · rw [hl.structs, hl₂.structs, h.structs]
  · rw [hl.trail, hl₂.trail, h.trail]
  · rw [hl.packages.catalog, hl₂.packages.catalog, h.catalog]

/-- Expanding a key keeps states alike. -/
lemma expand (h : k.Alike k₂) (key : String) : (k.expand key).Alike (k₂.expand key) := by
  refine ⟨h.structs, ?_, h.catalog⟩
  show { k₂.trail with expanding := key :: k₂.trail.expanding } = _
  rw [h.trail]
  rfl

/-- Coming back from a declaration keeps states alike. -/
lemma leaveExpansion (h : k.Alike k₂) : k.leaveExpansion.Alike k₂.leaveExpansion := by
  refine ⟨h.structs, ?_, h.catalog⟩
  show { k₂.trail with expanding := k₂.trail.expanding.tail } = _
  rw [h.trail]
  rfl

/-- Embedding a key keeps states alike. -/
lemma embed (h : k.Alike k₂) (key : String) : (k.embed key).Alike (k₂.embed key) := by
  refine ⟨h.structs, ?_, h.catalog⟩
  show { k₂.trail with embedding := key :: k₂.trail.embedding } = _
  rw [h.trail]
  rfl

/-- Coming back from an embedded struct keeps states alike. -/
lemma leaveEmbedding (h : k.Alike k₂) : k.leaveEmbedding.Alike k₂.leaveEmbedding := by
  refine ⟨h.structs, ?_, h.catalog⟩
  show { k₂.trail with embedding := k₂.trail.embedding.tail } = _
  rw [h.trail]
  rfl

/-- Entering a struct keeps states alike. -/
lemma enterStruct (h : k.Alike k₂) (key : String) :
    (k.enterStruct key).Alike (k₂.enterStruct key) := by
  refine ⟨?_, ?_, h.catalog⟩
  · show k₂.structs.enter key = _
    rw [h.structs]
    rfl
  · show { k₂.trail with embedding := [key] } = _
    rw [h.trail]
    rfl

/-- Completing a struct keeps states alike. -/
lemma completeStruct (h : k.Alike k₂) {outer outer₂ : Known} (ho : outer.Alike outer₂)
    (key : String) (s : Struct) :
    (k.completeStruct outer key s).Alike (k₂.completeStruct outer₂ key s) := by
  refine ⟨?_, ?_, h.catalog⟩
  · show k₂.structs.complete key s = _
    rw [h.structs]
    rfl
  · show { k₂.trail with embedding := outer₂.trail.embedding } = _
    rw [h.trail, ho.trail]
    rfl

end Known.Alike

/-- What a lookup finds in a state it finds in every state that is alike. -/
lemma Looks.replay {α : Type} {x : Resolve α} {f : Catalog → Option α} (h : Looks x f)
    {k k₂ k' : Known} {a : α} (hk : k.Alike k₂) (ho : outcome x k = (.ok a, k')) :
    ∃ k₂', outcome x k₂ = (.ok a, k₂') ∧ k'.Alike k₂' ∧ Loads k₂ k₂' := by
  obtain ⟨hl, ha⟩ := h.of_ok ho
  rw [← hk.catalog] at ha
  obtain ⟨b, k₂', ho₂⟩ | ⟨e, k₂', ho₂⟩ := outcome_cases x k₂
  · obtain ⟨hl₂, hb⟩ := h.of_ok ho₂
    cases ha.symm.trans hb
    exact ⟨k₂', ho₂, hk.loads hl hl₂, hl₂⟩
  · cases ha.symm.trans (h.of_error ho₂).2

variable {names : KnownNames} {n : Nat} {k k₁ k₂ k' : Known}

/-- What is opened in a state is opened in one that is like it. -/
lemma Opens.replay {p : Package} {x : String} {place : SourcePlace} {d : DeclaredType}
    {source : Option StructLiteral} (ho : Opens names k p x place d source k₁) (hk : k.Alike k₂) :
    ∃ k₂', Opens names k₂ p x place d source k₂' ∧ k₁.Alike k₂' := by
  obtain ⟨k₂', hsearch, hk', -⟩ := (looks_structLiteral? ..).replay hk ho.search
  exact ⟨k₂', ⟨hk.structs ▸ ho.fresh, ho.declared, ho.plain, hsearch⟩, hk'⟩

/-- An unfinished struct is read again alike where its package is held. -/
lemma Reopens.replay {key : String} {place : SourcePlace} {source : Option StructLiteral}
    (ho : Reopens names k key place source k₁) (hk : k.Alike k₂) (hb : k₂.Backed)
    (hkey : key ∈ k₂.structs.keys) :
    ∃ k₂', Reopens names k₂ key place source k₂' ∧ k₁.Alike k₂' := by
  have hnone : k₂.structs.get? key = none := by
    rw [hk.structs]
    exact ho.unfinished
  obtain ⟨site, type, hd, hsearch⟩ := ho.search
  obtain ⟨p, x, d, rfl, hp, hx, rfl, rfl⟩ := declared_of_knownDecl? hd
  obtain ⟨p', x', d', heq, hp', hx'⟩ := hb _ hkey hnone
  have hcatalog : k.packages.catalog p'.importPath = .ok p' := by
    rw [← hk.catalog]
    exact hp'.catalog
  obtain ⟨rfl, rfl⟩ := keyIn_injective hp.catalog hx hcatalog hx' heq
  cases hx.symm.trans hx'
  obtain ⟨k₂', hsearch₂, hk', -⟩ := (looks_structLiteral? ..).replay hk hsearch
  exact ⟨k₂', ⟨hk.trail ▸ ho.outside, hnone, _, _, knownDecl?_of_holds hp' hx', hsearch₂⟩, hk'⟩

/-- The package of what a goal asks for is held, and an embedded struct is in the table. -/
def Goal.Backed (k : Known) : Goal → Prop
  | .type site _ | .fields site .. | .field site .. => k.packages.Holds site.package
  | .decl p .. => k.packages.Holds p
  | .literal _ source => k.packages.Holds source.site.package
  | .embedded key _ => key ∈ k.structs.keys

/-- What resolves in a state resolves in one that is like it. -/
theorem Resolves.replay {g : Goal} {a : Answer} (h : Resolves names n k g a k') (hk : k.Alike k₂)
    (hb : k₂.Backed) (hg : g.Backed k₂) :
    ∃ k₂', Resolves names n k₂ g a k₂' ∧ k'.Alike k₂' := by
  -- what one step looks up is found again, and it leaves states that are alike
  induction h generalizing k₂ with
  | paren _ ih =>
    obtain ⟨k₂', h, hk'⟩ := ih hk hb hg
    exact ⟨k₂', .paren h, hk'⟩
  | pointer _ ih =>
    obtain ⟨k₂', h, hk'⟩ := ih hk hb hg
    exact ⟨k₂', .pointer h, hk'⟩
  | slice _ ih =>
    obtain ⟨k₂', h, hk'⟩ := ih hk hb hg
    exact ⟨k₂', .slice h, hk'⟩
  | array _ ih =>
    obtain ⟨k₂', h, hk'⟩ := ih hk hb hg
    exact ⟨k₂', .array h, hk'⟩
  | map _ _ ihkey ihval =>
    obtain ⟨k₂₁, hkey, hk₁⟩ := ihkey hk hb hg
    have hgrows := hkey.grows
    obtain ⟨k₂', hval, hk'⟩ := ihval hk₁ (hb.grows hgrows) (hgrows.packages.holds hg)
    exact ⟨k₂', .map hkey hval, hk'⟩
  | any => exact ⟨k₂, .any, hk⟩
  | known hname =>
    obtain ⟨k₂', hname₂, hk', -⟩ := (looks_referentOf ..).replay hk hname
    exact ⟨k₂', .known hname₂, hk'⟩
  | declared hname _ ih =>
    obtain ⟨k₂₁, hname₂, hk₁, hl⟩ := (looks_referentOf ..).replay hk hname
    have hp := (referentOf_holds names hg _ _ _).ok hname₂ _ _ rfl
    obtain ⟨k₂', h, hk'⟩ := ih hk₁ (hb.grows (.of_loads hl)) hp
    exact ⟨k₂', .declared hname₂ h, hk'⟩
  | entered hkey => exact ⟨k₂, .entered (hk.structs ▸ hkey), hk⟩
  | struct ho _ ih =>
    obtain ⟨k₂₁, ho₂, hk₁⟩ := ho.replay hk
    have hl := ho₂.loads
    -- the entry is new to the other table too, and backed by its declaration
    have hb₁ := (hb.grows (.of_loads hl)).enterStruct (hl.packages.holds hg) ho₂.declared
      ho₂.notMem_keys
    obtain ⟨k₂', h, hk'⟩ := ih (hk₁.enterStruct _) hb₁ (ho₂.holds hg)
    exact ⟨_, .struct ho₂ h, hk'.completeStruct hk₁ _ _⟩
  | expand ho hout _ ih =>
    obtain ⟨k₂₁, ho₂, hk₁⟩ := ho.replay hk
    have hl := ho₂.loads
    have hb₁ : k₂₁.Backed := hb.grows (.of_loads hl)
    obtain ⟨k₂', h, hk'⟩ := ih (hk₁.expand _) hb₁ (hl.packages.holds hg)
    exact ⟨_, .expand ho₂ (hk₁.trail ▸ hout) h, hk'.leaveExpansion⟩
  | literal _ ih =>
    obtain ⟨k₂', h, hk'⟩ := ih hk hb hg
    exact ⟨k₂', .literal h, hk'⟩
  | nil => exact ⟨k₂, .nil, hk⟩
  | cons _ _ ihf ihfs =>
    obtain ⟨k₂₁, hf, hk₁⟩ := ihf hk hb hg
    have hgrows := hf.grows
    obtain ⟨k₂', hfs, hk'⟩ := ihfs hk₁ (hb.grows hgrows) (hgrows.packages.holds hg)
    exact ⟨k₂', .cons hf hfs, hk'⟩
  | skipped hskip => exact ⟨k₂, .skipped hskip, hk⟩
  | named hskip hemb _ ih =>
    obtain ⟨k₂', h, hk'⟩ := ih hk hb hg
    exact ⟨k₂', .named hskip hemb h, hk'⟩
  | tagged hskip hemb htag _ ih =>
    obtain ⟨k₂', h, hk'⟩ := ih hk hb hg
    exact ⟨k₂', .tagged hskip hemb htag h, hk'⟩
  | inlined hskip hemb htag _ _ ih ihkey =>
    obtain ⟨k₂₁, h, hk₁⟩ := ih hk hb hg
    have hkey := h.structKeys_subset rfl (List.mem_singleton.2 rfl)
    obtain ⟨k₂', h', hk'⟩ := ihkey hk₁ (hb.grows h.grows) hkey
    exact ⟨k₂', .inlined hskip hemb htag h h', hk'⟩
  | wrapped hskip hemb htag ht _ ih =>
    obtain ⟨k₂', h, hk'⟩ := ih hk hb hg
    exact ⟨k₂', .wrapped hskip hemb htag ht h, hk'⟩
  | finished hout hs => exact ⟨k₂, .finished (hk.trail ▸ hout) (hk.structs ▸ hs), hk⟩
  | unfinished ho _ ih =>
    obtain ⟨k₂₁, ho₂, hk₁⟩ := ho.replay hk hb hg
    have hb₁ : k₂₁.Backed := hb.grows (.of_loads ho₂.loads)
    obtain ⟨k₂', h, hk'⟩ := ih (hk₁.embed _) hb₁ ho₂.holds
    exact ⟨_, .unfinished ho₂ h, hk'.leaveEmbedding⟩

/-- What resolves in a state resolves alike in every state that is alike, whatever packages have
been loaded there. -/
lemma resolve_replay {p : Package} {file : SourceUnit} {type : TypeExpr} {t : DataType}
    (ho : outcome (resolve names ⟨p, file⟩ type) k = (.ok t, k')) (hk : k.Alike k₂)
    (hb : k₂.Backed) (hp : k₂.packages.Holds p) (hfile : file ∈ p.files) :
    ∃ k₂', outcome (resolve names ⟨p, file⟩ type) k₂ = (.ok t, k₂') ∧ k'.Alike k₂' := by
  have hr := (resolve_ends names ⟨p, file⟩ type k).ok ho
  obtain ⟨k₂', hr₂, hk'⟩ := hr.replay hk hb hp
  -- the bound is that of the first state, and does not matter
  have hok := (resolve_endsWithin names k₂ hp hfile type).outcome_eq_ok
    (fun _ hm => typeOf_approximates (stepsWithin_approximate names hm) _ type) hr₂.computes
  exact ⟨k₂', hok, hk'⟩

end GoService.Resolution
