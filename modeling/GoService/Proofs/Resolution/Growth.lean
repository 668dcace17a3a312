import GoService.Proofs.Data.StructTables
import GoService.Proofs.Resolution.Catalog
import GoService.Proofs.Resolution.Derivation

/-!
# Growth

What a resolution does to the table of structs and to the trail. A table grows when finished structs
with new keys are appended to it, so rewinding to the mark of the smaller table gives it back.

* `Resolves.grows`: a resolution that succeeds makes the table grow.
* `Fails.restores`: a type or a declared name that cannot be resolved leaves the table as it was.
* Both leave the trail as it was. `resolve_atomic` says this of the functions.
-/

namespace GoService.Data

namespace StructTable

/-- The entries of finished structs. -/
def finishedEntries (new : List (String × Struct)) : List (String × StructState) :=
  new.map fun e => (e.1, .resolved e.2)

/-- Finished entries have the keys of their structs. -/
lemma map_fst_finishedEntries (new : List (String × Struct)) :
    (finishedEntries new).map Prod.fst = new.map Prod.fst := by
  rw [finishedEntries, List.map_map]
  rfl

/-- The second table is the first one with `new` appended. -/
def Appends (t : StructTable) (new : List (String × Struct)) (t' : StructTable) : Prop :=
  t'.states.entries = t.states.entries ++ finishedEntries new

/-- The second table is the first one with finished structs appended. -/
def Grows (t t' : StructTable) : Prop :=
  ∃ new, t.Appends new t'

/-- The keys of what is appended come behind the others. -/
lemma Appends.keys {t t' : StructTable} {new : List (String × Struct)} (h : t.Appends new t') :
    t'.keys = t.keys ++ new.map Prod.fst := by
  rw [StructTable.keys, Dict.keys, h, List.map_append, map_fst_finishedEntries]
  rfl

/-- A table grows by nothing. -/
lemma Grows.refl (t : StructTable) : t.Grows t :=
  ⟨[], (List.append_nil _).symm⟩

/-- A table that grows twice has grown. -/
lemma Grows.trans {t t₁ t₂ : StructTable} (h₁ : t.Grows t₁) (h₂ : t₁.Grows t₂) : t.Grows t₂ := by
  obtain ⟨new₁, ha₁⟩ := h₁
  obtain ⟨new₂, ha₂⟩ := h₂
  refine ⟨new₁ ++ new₂, ?_⟩
  rw [Appends, ha₂, ha₁]
  simp [finishedEntries]

/-- A table that has grown has the keys that it had. -/
lemma Grows.keys {t t' : StructTable} (h : t.Grows t') : t.keys ⊆ t'.keys := by
  obtain ⟨new, ha⟩ := h
  rw [ha.keys]
  exact List.subset_append_left ..

/-- A table that has grown knows of its former keys what it knew before. -/
lemma Grows.get?_eq {t t' : StructTable} (h : t.Grows t') {key : String} (hkey : key ∈ t.keys) :
    t'.get? key = t.get? key := by
  obtain ⟨new, ha⟩ := h
  obtain ⟨state, hstate⟩ := Option.isSome_iff_exists.1 (contains_iff.2 hkey)
  have hold : t.states.entries.lookup key = some state := hstate
  have hnew : t'.states.entries.lookup key = some state := by
    rw [ha, List.lookup_append, hold]
    rfl
  simp only [StructTable.get?, state?, Dict.get?, hold, hnew]

/-- A key that is new in a table has a finished struct. -/
lemma Grows.finished {t t' : StructTable} (h : t.Grows t') {key : String} (hkey : key ∈ t'.keys)
    (hfresh : key ∉ t.keys) : ∃ s, t'.get? key = some s := by
  obtain ⟨new, ha⟩ := h
  obtain ⟨state, hstate⟩ := Option.isSome_iff_exists.1 (contains_iff.2 hkey)
  have hmem : (key, state) ∈ t'.states.entries := Dict.mem_of_get? hstate
  rw [ha] at hmem
  rcases List.mem_append.1 hmem with hold | hnew
  · exact absurd (List.mem_map_of_mem hold) hfresh
  · obtain ⟨e, -, he⟩ := List.mem_map.1 hnew
    obtain ⟨-, rfl⟩ := Prod.mk.inj he
    have hget : t'.state? key = some (.resolved e.2) := hstate
    exact ⟨e.2, by rw [StructTable.get?, hget]⟩

/-- Rewinding a table that has grown gives back what it was. -/
lemma Grows.rewind {t t' : StructTable} (h : t.Grows t') : t'.rewind t.mark = t := by
  obtain ⟨new, ha⟩ := h
  exact rewind_mark ⟨_, ha.symm⟩

/-- What was appended while a key was in progress comes after it once it is finished. -/
lemma Appends.complete {t t' : StructTable} {key : String} {new : List (String × Struct)}
    (hkey : key ∉ t.keys) (h : (t.enter key).Appends new t') (s : Struct) :
    t.Appends ((key, s) :: new) (t'.complete key s) := by
  have hentries : t'.states.entries =
      t.states.entries ++ (key, .inProgress) :: finishedEntries new := by
    rw [h, entries_enter hkey]
    simp
  have hin : t'.contains key := by
    rw [contains_iff, h.keys, keys_enter hkey]
    simp
  rw [Appends, StructTable.complete, if_pos hin]
  show Dict.put key (.resolved s) t'.states.entries = _
  rw [hentries, Dict.put_append_cons hkey]
  rfl

/-- A table that grows while a key is in progress has grown once the key is completed. -/
lemma Grows.complete {t t' : StructTable} {key : String} (hkey : key ∉ t.keys)
    (h : (t.enter key).Grows t') (s : Struct) : t.Grows (t'.complete key s) := by
  obtain ⟨new, ha⟩ := h
  exact ⟨_, ha.complete hkey s⟩

/-- What is dropped with a key that was entered leaves the table without it. -/
lemma Grows.rewind_enter {t t' : StructTable} {key : String} (hkey : key ∉ t.keys)
    (h : (t.enter key).Grows t') : t'.rewind t.mark = t := by
  obtain ⟨new, ha⟩ := h
  have hentered := prefix_insert (List.prefix_refl t.states.entries) hkey .inProgress
  exact rewind_mark (hentered.trans ⟨_, ha.symm⟩)

end StructTable

end GoService.Data

namespace GoService.Resolution

open Data Package Source

variable {names : KnownNames} {n : Nat} {k k' : Known}

/-- Opening a declaration loads packages only. -/
lemma Opens.loads {p : Package} {x : String} {place : SourcePlace} {d : DeclaredType}
    {source : Option StructLiteral} (h : Opens names k p x place d source k') : Loads k k' :=
  ((looks_structLiteral? ..).of_ok h.search).1

/-- The key of what is opened is not in the table. -/
lemma Opens.notMem_keys {p : Package} {x : String} {place : SourcePlace} {d : DeclaredType}
    {source : Option StructLiteral} (h : Opens names k p x place d source k') :
    keyIn p x ∉ k'.structs.keys := by
  rw [h.loads.structs, ← StructTable.contains_iff]
  exact h.fresh

/-- Opening a declaration again loads packages only. -/
lemma Reopens.loads {key : String} {place : SourcePlace} {source : Option StructLiteral}
    (h : Reopens names k key place source k') : Loads k k' := by
  obtain ⟨site, type, -, hsearch⟩ := h.search
  exact ((looks_structLiteral? ..).of_ok hsearch).1

/-- The table has grown, the trail is as it was, and some packages may have been loaded. -/
structure Known.Grows (k k' : Known) : Prop where
  structs : k.structs.Grows k'.structs
  trail : k'.trail = k.trail
  packages : k.packages.Extends k'.packages

namespace Known.Grows

/-- A state grows by nothing. -/
lemma refl (k : Known) : k.Grows k :=
  ⟨.refl _, rfl, .refl _⟩

/-- A state that grows twice has grown. -/
lemma trans {k k₁ k₂ : Known} (h₁ : k.Grows k₁) (h₂ : k₁.Grows k₂) : k.Grows k₂ :=
  ⟨h₁.structs.trans h₂.structs, h₂.trail.trans h₁.trail, h₁.packages.trans h₂.packages⟩

/-- Loading packages makes a state grow. -/
lemma of_loads (h : Loads k k') : k.Grows k' := by
  refine ⟨?_, h.trail, h.packages⟩
  rw [h.structs]
  exact .refl _

/-- Coming back from a declaration leaves a state that has grown. -/
lemma leaveExpansion {key : String} (h : (k.expand key).Grows k') : k.Grows k'.leaveExpansion := by
  refine ⟨h.structs, ?_, h.packages⟩
  show { k'.trail with expanding := k'.trail.expanding.tail } = k.trail
  rw [h.trail]
  rfl

/-- Coming back from an embedded struct leaves a state that has grown. -/
lemma leaveEmbedding {key : String} (h : (k.embed key).Grows k') : k.Grows k'.leaveEmbedding := by
  refine ⟨h.structs, ?_, h.packages⟩
  show { k'.trail with embedding := k'.trail.embedding.tail } = k.trail
  rw [h.trail]
  rfl

/-- The structs that are being embedded are again those outside a struct. -/
lemma trail_withEmbedding {key : String} (h : (k.enterStruct key).Grows k') :
    (k'.withEmbedding k.trail.embedding).trail = k.trail := by
  show { k'.trail with embedding := k.trail.embedding } = k.trail
  rw [h.trail]
  rfl

/-- Completing the struct that was entered leaves a state that has grown. -/
lemma completeStruct {key : String} (hkey : key ∉ k.structs.keys)
    (h : (k.enterStruct key).Grows k') (s : Struct) : k.Grows (k'.completeStruct k key s) :=
  ⟨h.structs.complete hkey s, h.trail_withEmbedding, h.packages⟩

end Known.Grows

/-- The packages of the structs in progress are held. -/
def Known.Backed (k : Known) : Prop :=
  ∀ key ∈ k.structs.keys, k.structs.get? key = none →
    ∃ p x d, key = keyIn p x ∧ k.packages.Holds p ∧ p.type? x = some d

namespace Known.Backed

/-- A state without structs in progress is backed. -/
lemma of_finished (h : ∀ key ∈ k.structs.keys, ∃ s, k.structs.get? key = some s) : k.Backed := by
  intro key hkey hnone
  obtain ⟨s, hs⟩ := h key hkey
  cases hnone.symm.trans hs

/-- A backed state stays backed when it grows. -/
lemma grows (h : k.Backed) (hk : k.Grows k') : k'.Backed := by
  intro key hkey hnone
  by_cases hold : key ∈ k.structs.keys
  · obtain ⟨p, x, d, rfl, hp, hd⟩ := h key hold ((hk.structs.get?_eq hold).symm.trans hnone)
    exact ⟨p, x, d, rfl, hk.packages.holds hp, hd⟩
  · obtain ⟨s, hs⟩ := hk.structs.finished hkey hold
    cases hnone.symm.trans hs

/-- Entering a struct of a package that is held keeps a state backed. -/
lemma enterStruct (h : k.Backed) {p : Package} {x : String} {d : DeclaredType}
    (hp : k.packages.Holds p) (hd : p.type? x = some d) (hfresh : keyIn p x ∉ k.structs.keys) :
    (k.enterStruct (keyIn p x)).Backed := by
  intro key hkey hnone
  by_cases heq : key = keyIn p x
  · exact ⟨p, x, d, heq, hp, hd⟩
  · change key ∈ (k.structs.enter (keyIn p x)).keys at hkey
    rw [StructTable.keys_enter hfresh] at hkey
    have hold : key ∈ k.structs.keys :=
      (List.mem_append.1 hkey).resolve_right fun h => heq (List.mem_singleton.1 h)
    have hget : (k.structs.enter (keyIn p x)).get? key = none := hnone
    rw [StructTable.get?_enter, if_neg heq] at hget
    exact h key hold hget

end Known.Backed

/-- A resolution that succeeds makes the table grow and leaves the trail as it was. -/
theorem Resolves.grows {g : Goal} {a : Answer} (h : Resolves names n k g a k') : k.Grows k' := by
  induction h with
  | paren _ ih => exact ih
  | pointer _ ih => exact ih
  | slice _ ih => exact ih
  | array _ ih => exact ih
  | map _ _ ihkey ihval => exact ihkey.trans ihval
  | any => exact .refl _
  | known hname => exact .of_loads ((looks_referentOf ..).of_ok hname).1
  | declared hname _ ih =>
    exact (Known.Grows.of_loads ((looks_referentOf ..).of_ok hname).1).trans ih
  | entered _ => exact .refl _
  | struct ho _ ih =>
    exact (Known.Grows.of_loads ho.loads).trans (ih.completeStruct ho.notMem_keys _)
  | expand ho _ _ ih => exact (Known.Grows.of_loads ho.loads).trans ih.leaveExpansion
  | literal _ ih => exact ih
  | nil => exact .refl _
  | cons _ _ ihf ihfs => exact ihf.trans ihfs
  | skipped _ => exact .refl _
  | named _ _ _ ih => exact ih
  | tagged _ _ _ _ ih => exact ih
  | inlined _ _ _ _ _ ih ihkey => exact ih.trans ihkey
  | wrapped _ _ _ _ _ ih => exact ih
  | finished _ _ => exact .refl _
  | unfinished ho _ ih => exact (Known.Grows.of_loads ho.loads).trans ih.leaveEmbedding

/-- The structs in a resolved type are in the table. -/
lemma Resolves.structKeys_subset {g : Goal} {a : Answer} {t : DataType}
    (h : Resolves names n k g a k') (ha : a = .type t) : t.structKeys ⊆ k'.structs.keys := by
  induction h generalizing t with
  | paren _ ih => exact ih ha
  | pointer _ ih =>
    cases ha
    have hsub := ih rfl
    exact hsub
  | slice _ ih =>
    cases ha
    have hsub := ih rfl
    exact hsub
  | array _ ih =>
    cases ha
    have hsub := ih rfl
    exact hsub
  | map _ _ _ ihval =>
    cases ha
    have hsub := ihval rfl
    exact hsub
  | any =>
    cases ha
    exact List.nil_subset _
  | known hname =>
    cases ha
    rw [structKeys_of_referentIn ((looks_referentOf ..).of_ok hname).2]
    exact List.nil_subset _
  | declared _ _ ih => exact ih ha
  | entered hkey =>
    cases ha
    intro key hmem
    rw [List.mem_singleton.1 hmem]
    exact StructTable.contains_iff.1 hkey
  | struct ho h _ =>
    cases ha
    intro key hmem
    rw [List.mem_singleton.1 hmem]
    -- the key is entered before the fields are resolved, and the table only grows
    show _ ∈ (StructTable.complete ..).keys
    rw [StructTable.keys_complete]
    apply h.grows.structs.keys
    show _ ∈ (StructTable.enter ..).keys
    rw [StructTable.keys_enter ho.notMem_keys]
    exact List.mem_append_right _ (List.mem_singleton.2 rfl)
  | expand _ _ _ ih => exact ih ha
  | _ => cases ha

/-- A builtin type adds nothing to the table. -/
lemma Resolves.structs_eq_of_builtin {g : Goal} {a : Answer} {b : Builtin}
    (h : Resolves names n k g a k') (ha : a = .type (.builtin b)) : k'.structs = k.structs := by
  induction h with
  | paren _ ih => exact ih ha
  | known hname => exact ((looks_referentOf ..).of_ok hname).1.structs
  | declared hname _ ih => exact (ih ha).trans ((looks_referentOf ..).of_ok hname).1.structs
  | expand ho _ _ ih => exact (ih ha).trans ho.loads.structs
  | _ => cases ha

/-- The goals that ask for a type, written or declared. -/
def Goal.AsksType : Goal → Prop
  | .type .. | .decl .. => True
  | .literal .. | .fields .. | .field .. | .embedded .. => False

/-- A struct that was entered is dropped with all that was entered after it. -/
lemma Known.Grows.dropStruct {key : String} (hkey : key ∉ k.structs.keys)
    (h : (k.enterStruct key).Grows k') : Loads k (k'.dropStruct k) :=
  ⟨h.structs.rewind_enter hkey, h.trail_withEmbedding, h.packages⟩

/-- Where a table has only grown, rewinding gives it back. -/
lemma Known.Grows.rewind (h : k.Grows k') :
    Loads k (k'.withStructs (k'.structs.rewind k.structs.mark)) :=
  ⟨h.structs.rewind, h.trail, h.packages⟩

/-- A resolution that fails leaves the trail as it was and drops no struct; if it was asked for a
type, it leaves the table as it was too, so that it has only loaded packages. -/
theorem Fails.restores {g : Goal} {e : ResolutionError} (h : Fails names n k g e k') :
    k.Grows k' ∧ (g.AsksType → Loads k k') := by
  have key : ∀ {k k' : Known}, Loads k k' → k.Grows k' ∧ (True → Loads k k') :=
    fun h => ⟨.of_loads h, fun _ => h⟩
  induction h with
  | paren _ ih => exact ih
  | pointer _ ih => exact ih
  | slice _ ih => exact ih
  | array _ ih => exact ih
  | mapKey _ ih => exact ih
  -- the key may have entered structs before it turned out to be no builtin type
  | mapKeyKind h _ => exact key h.grows.rewind
  | mapValue hkey _ ih =>
    -- nothing rewinds here, but a key that is a builtin type has entered nothing
    have hsame := hkey.structs_eq_of_builtin rfl
    exact key (Loads.trans ⟨hsame, hkey.grows.trail, hkey.grows.packages⟩ (ih.2 trivial))
  | rejected _ => exact key (.refl _)
  | nameless hname => exact key ((looks_referentOf ..).of_error hname).1
  | declared hname _ ih =>
    exact key (((looks_referentOf ..).of_ok hname).1.trans (ih.2 trivial))
  | declDepth => exact key (.refl _)
  | undeclared _ _ => exact key (.refl _)
  | generic _ _ _ => exact key (.refl _)
  | search _ _ _ hsearch => exact key ((looks_structLiteral? ..).of_error hsearch).1
  | struct ho _ ih => exact key (ho.loads.trans (ih.1.dropStruct ho.notMem_keys))
  | recursive ho _ => exact key ho.loads
  | expand ho _ _ ih =>
    have hl := ih.2 trivial
    exact key (ho.loads.trans ⟨hl.structs, ih.1.leaveExpansion.trail, hl.packages⟩)
  | literalDepth => exact ⟨.refl _, False.elim⟩
  | literal _ ih => exact ⟨ih.1, False.elim⟩
  | head _ ih => exact ⟨ih.1, False.elim⟩
  | tail hf _ ih => exact ⟨hf.grows.trans ih.1, False.elim⟩
  | named _ _ _ ih => exact ⟨ih.1, False.elim⟩
  | tagged _ _ _ _ ih => exact ⟨ih.1, False.elim⟩
  | embeddedType _ _ _ _ ih => exact ⟨ih.1, False.elim⟩
  | inlined _ _ _ h _ ih => exact ⟨h.grows.trans ih.1, False.elim⟩
  | cyclic _ => exact ⟨.refl _, False.elim⟩
  | unknown _ _ _ => exact ⟨.refl _, False.elim⟩
  | research _ _ _ hsearch =>
    exact ⟨.of_loads ((looks_structLiteral? ..).of_error hsearch).1, False.elim⟩
  | bodiless ho => exact ⟨.of_loads ho.loads, False.elim⟩
  | unfinished ho _ ih =>
    exact ⟨(Known.Grows.of_loads ho.loads).trans ih.1.leaveEmbedding, False.elim⟩

/-! ## Resolutions are atomic -/

/-- What a resolution of a type that is started in `k` may leave: after an error the same table, and
after a type the same table with finished structs appended; the same trail in both cases. -/
def Atomic (k : Known) : Except ResolutionError DataType × Known → Prop
  | (.error _, k') => k'.structs = k.structs ∧ k'.trail = k.trail
  | (.ok _, k') =>
    (∃ new : List (String × Struct), k'.structs.states.entries =
      k.structs.states.entries ++ new.map fun e => (e.1, .resolved e.2)) ∧ k'.trail = k.trail

/-- Whatever ends only as derivations for a type say is atomic. -/
lemma Derives.atomic {x : Resolve DataType} {g : Goal} (hx : Derives names n x g .type)
    (hg : g.AsksType) (k : Known) : Atomic k (outcome x k) := by
  obtain ⟨t, k', ho⟩ | ⟨e, k', ho⟩ := outcome_cases x k
  · have hgrows := ((hx k).ok ho).grows
    obtain ⟨new, ha⟩ := hgrows.structs
    rw [ho]
    exact ⟨⟨new, ha⟩, hgrows.trail⟩
  · have hsame := ((hx k).error ho).restores.2 hg
    rw [ho]
    exact ⟨hsame.structs, hsame.trail⟩

/-- The bound on the steps is that of the packages at hand. -/
lemma outcome_boundNow (k : Known) :
    outcome boundNow k = (.ok (stepBound k.packages.weight), k) := rfl

/-- Resolving a type goes on with the bound of the state. -/
lemma outcome_resolve (names : KnownNames) (site : Site) (type : TypeExpr) (k : Known) :
    outcome (resolve names site type) k =
      outcome (typeOf names (stepsWithin names (stepBound k.packages.weight)) site type) k := by
  rw [resolve, outcome_bind, outcome_boundNow]

/-- Resolving a name goes on with the bound of the state. -/
lemma outcome_resolveName (names : KnownNames) (p : Package) (x : String) (k : Known) :
    outcome (resolveName names p x) k =
      outcome (declWithin names (stepBound k.packages.weight) p x (declPlace p x)) k := by
  rw [resolveName, outcome_bind, outcome_boundNow]

/-- Resolving a type ends as its derivations say. -/
lemma resolve_ends (names : KnownNames) (site : Site) (type : TypeExpr) (k : Known) :
    Ends (resolve names site type) k
      (fun t k' => Resolves names (stepBound k.packages.weight) k (.type site type) (.type t) k')
      fun e k' => Fails names (stepBound k.packages.weight) k (.type site type) e k' :=
  .congr (outcome_resolve ..) (typeOf_derives (stepsWithin_derive names _) site type k)

/-- Resolving a name ends as its derivations say. -/
lemma resolveName_ends (names : KnownNames) (p : Package) (x : String) (k : Known) :
    Ends (resolveName names p x) k
      (fun t k' => Resolves names (stepBound k.packages.weight) k (.decl p x (declPlace p x))
        (.type t) k')
      fun e k' => Fails names (stepBound k.packages.weight) k (.decl p x (declPlace p x)) e k' := by
  have hsteps := stepsWithin_derive names (stepBound k.packages.weight)
  exact .congr (outcome_resolveName ..) (hsteps.decl p x (declPlace p x) k)

/-- Resolving a written type is atomic in every state, with or without structs in progress, at every
depth below another resolution and on its own. -/
theorem resolve_atomic (names : KnownNames) (site : Site) (type : TypeExpr) (k : Known) :
    (∀ n, Atomic k (outcome (typeOf names (stepsWithin names n) site type) k)) ∧
      Atomic k (outcome (resolve names site type) k) := by
  have hdepth : ∀ n, Atomic k (outcome (typeOf names (stepsWithin names n) site type) k) :=
    fun n => (typeOf_derives (stepsWithin_derive names n) site type).atomic trivial k
  refine ⟨hdepth, ?_⟩
  rw [outcome_resolve]
  exact hdepth _

end GoService.Resolution
