import GoService.Proofs.Resolution.Depth
import GoService.Proofs.Resolution.Descent
import GoService.Proofs.Resolution.Scope

/-!
# Termination

Every resolution ends, whatever the table holds and whatever is on the way: the bound on the depth
is never reached (`ArisesBelow.ne_exhausted`), and a greater bound gives the same outcome
(`stepsWithin_approximate`). Both together say that the recursion is finite: it gives what it would
give without a bound.

The bound is not reached because every step to another declaration takes one of finitely many keys:
a descent stays among the declarations in scope, and `Known.declSteps` and `Known.fieldSteps` count
what is left of them.
-/

namespace GoService.Resolution

open Data Package Source

/-! ## Greater bounds -/

/-- The second computation does what the first one does, where that one does not reach its bound. -/
def Approximates (x y : Resolve α) : Prop :=
  ∀ k, outcome y k = outcome x k ∨ ∃ place k', outcome x k = (.error (.exhausted place), k')

namespace Approximates

variable {α β : Type}

/-- A computation approximates itself. -/
lemma refl (x : Resolve α) : Approximates x x :=
  fun _ => .inl rfl

/-- Approximation goes from one computation to the next. -/
lemma trans {x y z : Resolve α} (hxy : Approximates x y) (hyz : Approximates y z) :
    Approximates x z := by
  intro k
  rcases hxy k with hy | hbound
  · rcases hyz k with hz | hbound
    · exact .inl (hz.trans hy)
    · rw [hy] at hbound
      exact .inr hbound
  · exact .inr hbound

/-- Computations one after another approximate if each of them does. -/
lemma bind {x y : Resolve α} {f g : α → Resolve β} (hx : Approximates x y)
    (hf : ∀ a, Approximates (f a) (g a)) : Approximates (x >>= f) (y >>= g) := by
  intro k
  rw [outcome_bind, outcome_bind]
  rcases hx k with hy | ⟨place, k', hbound⟩
  · rw [hy]
    obtain ⟨a, k₁, ho⟩ | ⟨e, k₁, ho⟩ := outcome_cases x k
    · rw [ho]
      exact hf a k₁
    · rw [ho]
      exact .inl rfl
  · rw [hbound]
    exact .inr ⟨place, k', rfl⟩

/-- What would come after an error does not count. -/
lemma throw (e : ResolutionError) (f g : α → Resolve β) :
    Approximates (throw e >>= f) (throw e >>= g) :=
  fun _ => .inl rfl

/-- Computations between entering and leaving approximate if they do after entering. -/
lemma bracketed {enter leave : Known → Known} {x y : Resolve α} (hx : Approximates x y) :
    Approximates (bracketed enter leave x) (bracketed enter leave y) := by
  intro k
  rw [outcome_bracketed, outcome_bracketed]
  rcases hx (enter k) with hy | ⟨place, k', hbound⟩
  · rw [hy]
    exact .inl rfl
  · rw [hbound]
    exact .inr ⟨place, leave k', rfl⟩

/-- A handler that passes the bound on does not hide that it was reached. -/
lemma tryCatch {x y : Resolve α} {f : ResolutionError → Resolve α} (hx : Approximates x y)
    (hf : ∀ place k, ∃ k', outcome (f (.exhausted place)) k = (.error (.exhausted place), k')) :
    Approximates (tryCatch x f) (tryCatch y f) := by
  intro k
  rw [outcome_tryCatch, outcome_tryCatch]
  rcases hx k with hy | ⟨place, k', hbound⟩
  · rw [hy]
    exact .inl rfl
  · rw [hbound]
    obtain ⟨k'', hf⟩ := hf place k'
    exact .inr ⟨place, k'', hf⟩

/-- Going through a list approximates if each step does. -/
lemma foldlM {f g : β → α → Resolve β} (hf : ∀ b a, Approximates (f b a) (g b a)) (b : β)
    (as : List α) : Approximates (as.foldlM f b) (as.foldlM g b) := by
  induction as generalizing b with
  | nil => exact .refl _
  | cons a as ih =>
    rw [List.foldlM_cons, List.foldlM_cons]
    exact .bind (hf b a) fun b' => ih b'

end Approximates

/-- Steps that do the same where the first ones do not reach their bound. -/
structure Steps.Approximate (steps steps' : Steps) : Prop where
  decl : ∀ p x place, Approximates (steps.decl p x place) (steps'.decl p x place)
  fields : ∀ place source, Approximates (steps.fields place source) (steps'.fields place source)

section Functions

variable {names : KnownNames} {steps steps' : Steps} (hs : steps.Approximate steps')
include hs

/-- Resolving a type approximates if the steps below it do. -/
lemma typeOf_approximates (site : Site) (type : TypeExpr) :
    Approximates (typeOf names steps site type) (typeOf names steps' site type) := by
  induction type using TypeExpr.partsInduction with
  | paren span inner ih =>
    rw [typeOf, typeOf]
    exact ih
  | pointer span star elem ih =>
    rw [typeOf, typeOf]
    exact .bind ih fun _ => .refl _
  | slice span elem ih =>
    rw [typeOf, typeOf]
    exact .bind ih fun _ => .refl _
  | array span len elem ih =>
    rw [typeOf, typeOf]
    exact .bind ih fun _ => .refl _
  | map span key val ihkey ihval =>
    rw [typeOf, typeOf]
    refine .bind (.refl _) fun structs => .bind ihkey fun t => ?_
    cases t with
    | builtin b => exact .bind ihval fun _ => .refl _
    | _ => exact .refl _
  | named span qualifier ident args =>
    rw [typeOf, typeOf]
    cases args with
    | cons arg args => exact .refl _
    | nil =>
      refine .bind (.refl _) fun r => ?_
      cases r with
      | type t => exact .refl _
      | declared p x => exact hs.decl p x _
  | _ => exact .refl _

/-- Looking for embedded fields approximates if the steps below do. -/
lemma embeddedFields_approximates (key : String) (place : SourcePlace) :
    Approximates (embeddedFields names steps key place)
      (embeddedFields names steps' key place) := by
  rw [embeddedFields, embeddedFields]
  refine .bind (.refl _) fun k => ?_
  by_cases hin : key ∈ k.trail.embedding
  · rw [if_pos hin, if_pos hin]
    exact .refl _
  · rw [if_neg hin, if_neg hin]
    refine .bind (.refl _) fun structs => ?_
    cases structs.get? key with
    | some s => exact .refl _
    | none =>
      simp only [inlineUnfinished]
      refine .bind (.refl _) fun k => ?_
      cases knownDecl? k.packages key with
      | none => exact .refl _
      | some d =>
        refine .bind (.refl _) fun source => ?_
        cases source with
        | none => exact .refl _
        | some source => exact .bracketed (hs.fields place source)

/-- Adding a field approximates if the steps below do. -/
lemma addField_approximates (site : Site) (out : List StructField) (f : Field) :
    Approximates (addField names steps site out f) (addField names steps' site out f) := by
  rw [addField, addField]
  by_cases hskip : (fieldTags f).isJsonSkipped
  · rw [if_pos hskip, if_pos hskip]
    exact .refl _
  rw [if_neg hskip, if_neg hskip]
  by_cases hemb : f.embedded
  · rw [if_pos hemb, if_pos hemb, addEmbedded, addEmbedded]
    by_cases htag : (fieldTags f).jsonName?.isSome
    · rw [if_pos htag, if_pos htag]
      exact .bind (typeOf_approximates hs site f.type) fun _ => .refl _
    rw [if_neg htag, if_neg htag]
    refine .bind (typeOf_approximates hs site _) fun t => ?_
    cases t with
    | struct key => exact .bind (embeddedFields_approximates hs key _) fun _ => .refl _
    | _ => exact .refl _
  · rw [if_neg hemb, if_neg hemb]
    exact .bind (typeOf_approximates hs site f.type) fun _ => .refl _

/-- Resolving a struct approximates if the steps below do. -/
lemma structOf_approximates (p : Package) (x : String) (d : DeclaredType) (place : SourcePlace)
    (source : StructLiteral) :
    Approximates (structOf steps p x d place source) (structOf steps' p x d place source) := by
  rw [structOf, structOf]
  refine .bind (.refl _) fun structs => .bind (.refl _) fun _ => .bind (.refl _) fun k => ?_
  refine .bind (.tryCatch (.bracketed (hs.fields place source)) fun place k => ?_) fun _ => .refl _
  exact ⟨_, rfl⟩

/-- Resolving a declaration approximates if the steps below do. -/
lemma declOf_approximates (p : Package) (x : String) (place : SourcePlace) :
    Approximates (declOf names steps p x place) (declOf names steps' p x place) := by
  rw [declOf, declOf]
  refine .bind (.refl _) fun structs => ?_
  by_cases hkey : structs.contains (declKey p.importPath x)
  · rw [if_pos hkey, if_pos hkey]
    exact .refl _
  rw [if_neg hkey, if_neg hkey]
  cases p.type? x with
  | none => exact .refl _
  | some d =>
    by_cases hparams : d.spec.typeParams.isSome
    · simp only [hparams, if_true]
      exact .throw _ _ _
    simp only [hparams]
    refine .bind (.refl _) fun source => ?_
    cases source with
    | some source => exact .bind (structOf_approximates hs p x d place source) fun _ => .refl _
    | none =>
      refine .bind (.refl _) fun k => ?_
      by_cases hin : declKey p.importPath x ∈ k.trail.expanding
      · rw [if_pos hin, if_pos hin]
        exact .refl _
      · rw [if_neg hin, if_neg hin]
        exact .bracketed (typeOf_approximates hs _ _)

end Functions

/-- With one more step below one another nothing changes, unless the bound was reached. -/
lemma stepsWithin_approximate_succ (names : KnownNames) (n : Nat) :
    (stepsWithin names n).Approximate (stepsWithin names (n + 1)) := by
  induction n with
  | zero =>
    refine ⟨fun p x place k => .inr ?_, fun place source k => .inr ?_⟩
    · exact ⟨place, k, rfl⟩
    · exact ⟨place, k, rfl⟩
  | succ n ih =>
    refine ⟨fun p x place => ?_, fun place source => ?_⟩
    · exact declOf_approximates ih p x place
    · exact .foldlM (addField_approximates ih source.site) [] source.fields

/-- Fewer steps approximate more of them. -/
lemma stepsWithin_approximate (names : KnownNames) {n m : Nat} (h : n ≤ m) :
    (stepsWithin names n).Approximate (stepsWithin names m) := by
  induction h with
  | refl => exact ⟨fun _ _ _ => .refl _, fun _ _ => .refl _⟩
  | @step m _ ih =>
    have hsucc := stepsWithin_approximate_succ names m
    exact ⟨fun p x place => (ih.decl p x place).trans (hsucc.decl p x place),
      fun place source => (ih.fields place source).trans (hsucc.fields place source)⟩

/-! ## The bound -/

variable {names : KnownNames} {s : LoadedPackages}

/-- A goal about files and declarations in scope. -/
def Goal.Scoped (s : LoadedPackages) : Goal → Prop
  | .type site _ | .fields site .. | .field site .. => site.Scoped s
  | .decl p _ _ => s.Scoped p
  | .literal _ source => source.site.Scoped s
  | .embedded key _ => InScope s key

/-- Whatever the table holds, the structs that a written type stands for are in scope. -/
lemma Resolves.inScope {n : Nat} {k k' : Known} {g : Goal} {a : Answer} {t : DataType}
    (h : Resolves names n k g a k') (hc : k.packages.catalog = s.catalog) (hg : g.Scoped s)
    (hx : ∀ p x place, g = .decl p x place → p.types.contains x) (ha : a = .type t) :
    ∀ key ∈ t.structKeys, InScope s key := by
  induction h generalizing t with
  | paren _ ih => exact ih hc hg nofun ha
  | pointer _ ih =>
    cases ha
    have hkeys := ih hc hg nofun rfl
    exact hkeys
  | slice _ ih =>
    cases ha
    have hkeys := ih hc hg nofun rfl
    exact hkeys
  | array _ ih =>
    cases ha
    have hkeys := ih hc hg nofun rfl
    exact hkeys
  | map hkey _ _ ihval =>
    cases ha
    have hkeys := ihval (hkey.grows.packages.catalog.trans hc) hg nofun rfl
    exact hkeys
  | any =>
    cases ha
    exact fun key hmem => absurd hmem List.not_mem_nil
  | known hname =>
    cases ha
    rw [structKeys_of_referentIn ((looks_referentOf ..).of_ok hname).2]
    exact fun key hmem => absurd hmem List.not_mem_nil
  | declared hname _ ih =>
    obtain ⟨hl, hr⟩ := (looks_referentOf ..).of_ok hname
    rw [hc] at hr
    obtain ⟨hp, hx'⟩ := Site.Scoped.referent hg hr
    refine ih (hl.packages.catalog.trans hc) hp ?_ ha
    rintro _ _ _ ⟨⟩
    exact hx'
  | entered _ =>
    cases ha
    intro key hmem
    rw [List.mem_singleton.1 hmem]
    exact ⟨_, _, rfl, hg, hx _ _ _ rfl⟩
  | struct ho _ _ =>
    cases ha
    intro key hmem
    rw [List.mem_singleton.1 hmem]
    exact ⟨_, _, rfl, hg, Option.isSome_iff_exists.2 ⟨_, ho.declared⟩⟩
  | expand ho _ _ ih =>
    exact ih (ho.loads.packages.catalog.trans hc) (scoped_of_type? hg ho.declared) nofun ha
  | _ => cases ha

/-- A depth that suffices for a goal, if it comes to none but the given keys. -/
def Goal.Shallow (keys : List String) (n : Nat) (k : Known) : Goal → Prop
  | .type .. | .decl .. => k.declSteps keys ≤ n
  | .literal .. => k.fieldSteps keys < n
  | .fields .. | .field .. | .embedded .. => k.fieldSteps keys ≤ n

/-- A task within the scope of a store, whose depth suffices for the keys in scope. -/
structure Task.Suffices (s : LoadedPackages) (t : Task) : Prop where
  catalog : t.known.packages.catalog = s.catalog
  located : t.goal.Scoped s
  shallow : t.goal.Shallow s.knownKeys t.depth t.known

/-- A step takes a key in scope if it leads to another declaration, so the depth still suffices. -/
lemma Asks.suffices {t t' : Task} (h : Asks names t t') (ht : t.Suffices s) : t'.Suffices s := by
  have hc := ht.catalog
  have hg := ht.located
  have hn := ht.shallow
  -- loading keeps the catalog, and what has grown leaves no more steps to take than before
  cases h with
  | paren => exact ⟨hc, hg, hn⟩
  | pointer => exact ⟨hc, hg, hn⟩
  | slice => exact ⟨hc, hg, hn⟩
  | array => exact ⟨hc, hg, hn⟩
  | mapKey => exact ⟨hc, hg, hn⟩
  | mapValue hkey =>
    have hgrows := hkey.grows
    exact ⟨hgrows.packages.catalog.trans hc, hg, (hgrows.declSteps_le _).trans hn⟩
  | @declared site qualifier ident span k k₁ p x n hname =>
    obtain ⟨hl, hr⟩ := (looks_referentOf ..).of_ok hname
    have hgrows := Known.Grows.of_loads hl
    have hc₀ : k.packages.catalog = s.catalog := hc
    rw [hc₀] at hr
    have hreferent := Site.Scoped.referent hg hr
    exact ⟨hl.packages.catalog.trans hc, hreferent.1, (hgrows.declSteps_le _).trans hn⟩
  | @struct k p x place d source k₁ n ho =>
    have hl := ho.loads
    have hscoped : s.Scoped p := hg
    have hkey : InScope s (keyIn p x) :=
      ⟨p, x, rfl, hscoped, Option.isSome_iff_exists.2 ⟨d, ho.declared⟩⟩
    have hc₀ : k.packages.catalog = s.catalog := hc
    have hd := ho.declares (hc₀ ▸ hscoped.held)
    rw [hc₀] at hd
    -- with the new entry one key in scope fewer is left to be entered
    have hlt := Known.fieldSteps_enterStruct hkey.mem_knownKeys ho.notMem_keys
    have hle := (Known.Grows.of_loads hl).declSteps_le s.knownKeys
    have hn₀ : k.declSteps s.knownKeys ≤ n + 1 := hn
    refine ⟨hl.packages.catalog.trans hc, hd.source_scoped hscoped, ?_⟩
    show (k₁.enterStruct (keyIn p x)).fieldSteps s.knownKeys < n
    omega
  | @expand k p x place d k₁ n ho hout =>
    have hl := ho.loads
    have hscoped : s.Scoped p := hg
    have hkey : InScope s (keyIn p x) :=
      ⟨p, x, rfl, hscoped, Option.isSome_iff_exists.2 ⟨d, ho.declared⟩⟩
    have hlt := Known.declSteps_expand hkey.mem_knownKeys hout
    have hle := (Known.Grows.of_loads hl).declSteps_le s.knownKeys
    have hn₀ : k.declSteps s.knownKeys ≤ n + 1 := hn
    refine ⟨hl.packages.catalog.trans hc, scoped_of_type? hscoped ho.declared, ?_⟩
    show (k₁.expand (keyIn p x)).declSteps s.knownKeys ≤ n
    omega
  | literal => exact ⟨hc, hg, Nat.le_of_lt_succ hn⟩
  | head => exact ⟨hc, hg, hn⟩
  | tail hf =>
    have hgrows := hf.grows
    exact ⟨hgrows.packages.catalog.trans hc, hg, (hgrows.fieldSteps_le _).trans hn⟩
  | named _ _ => exact ⟨hc, hg, (Known.declSteps_le_fieldSteps ..).trans hn⟩
  | tagged _ _ _ => exact ⟨hc, hg, (Known.declSteps_le_fieldSteps ..).trans hn⟩
  | embeddedType _ _ _ => exact ⟨hc, hg, (Known.declSteps_le_fieldSteps ..).trans hn⟩
  | inlined _ _ _ h =>
    have hgrows := h.grows
    have hkey := h.inScope hc hg nofun rfl _ (List.mem_singleton.2 rfl)
    exact ⟨hgrows.packages.catalog.trans hc, hkey, (hgrows.fieldSteps_le _).trans hn⟩
  | @unfinished k key place source k₁ n ho =>
    have hl := ho.loads
    have hkey : InScope s key := hg
    have hc₀ : k.packages.catalog = s.catalog := hc
    obtain ⟨p, x, d, rfl, -, hd⟩ := ho.declares
    rw [hc₀] at hd
    have hout := ho.outside
    rw [← hl.trail] at hout
    have hlt := Known.fieldSteps_embed hkey.mem_knownKeys hout
    have hle := (Known.Grows.of_loads hl).fieldSteps_le s.knownKeys
    have hn₀ : k.fieldSteps s.knownKeys ≤ n := hn
    refine ⟨hl.packages.catalog.trans hc, hd.source_scoped (hkey.package hd), ?_⟩
    show (k₁.embed (keyIn p x)).fieldSteps s.knownKeys < n
    omega

/-- Below a task whose depth suffices the bound is not reached. -/
lemma ArisesBelow.ne_exhausted {t : Task} {e : ResolutionError} (h : ArisesBelow names t e)
    (ht : t.Suffices s) (place : SourcePlace) : e ≠ .exhausted place := by
  obtain ⟨t', hd, hf⟩ := h
  have hn := (hd.keeps (fun hask ht => hask.suffices ht) ht).shallow
  have hlooks : ∀ {e : ResolutionError}, e.IsOfLookup → e ≠ .exhausted place := by
    rintro _ he rfl
    exact he
  cases hf with
  | declDepth => exact absurd hn (Nat.not_le.2 (Known.declSteps_pos ..))
  | literalDepth => exact absurd hn (Nat.not_lt_zero _)
  | rejected h => cases h <;> exact nofun
  | nameless hname => exact hlooks ((failsLooking_referentOf ..).isOfLookup hname)
  | search _ _ _ hsearch => exact hlooks ((failsLooking_structLiteral? ..).isOfLookup hsearch)
  | research _ _ _ hsearch => exact hlooks ((failsLooking_structLiteral? ..).isOfLookup hsearch)
  | _ => exact nofun

/-! ## Resolutions end -/

/-- In a state a computation does not reach its bound and does what `steps` does with any bound that
is at least as great. -/
structure EndsWithin (x : Resolve α) (bound : Nat) (bounded : Nat → Resolve α) (k : Known) :
    Prop where
  ends : ∀ place k', outcome x k ≠ (.error (.exhausted place), k')
  stable : ∀ n, bound ≤ n → outcome (bounded n) k = outcome x k

/-- A computation that does not reach its bound does with every greater bound what it does. -/
lemma EndsWithin.of_approximates {x : Resolve α} {bound : Nat} {bounded : Nat → Resolve α}
    {k : Known} (hx : outcome x k = outcome (bounded bound) k)
    (hends : ∀ place k', outcome (bounded bound) k ≠ (.error (.exhausted place), k'))
    (happrox : ∀ n, bound ≤ n → Approximates (bounded bound) (bounded n)) :
    EndsWithin x bound bounded k := by
  refine ⟨hx ▸ hends, fun n hn => ?_⟩
  rcases happrox n hn k with hsame | ⟨place, k', hbound⟩
  · rw [hsame, hx]
  · exact absurd hbound (hends place k')

/-- What is given with some bound is given whatever the bound. -/
lemma EndsWithin.outcome_eq_ok {x : Resolve α} {bound n : Nat} {bounded : Nat → Resolve α}
    {k k' : Known} {a : α} (h : EndsWithin x bound bounded k)
    (happrox : ∀ m, n ≤ m → Approximates (bounded n) (bounded m))
    (ho : outcome (bounded n) k = (.ok a, k')) : outcome x k = (.ok a, k') := by
  have hm := h.stable (max n bound) (Nat.le_max_right ..)
  rw [← hm]
  rcases happrox (max n bound) (Nat.le_max_left ..) k with hsame | ⟨place, k₁, hbound⟩
  · exact hsame.trans ho
  · cases ho.symm.trans hbound

/-- The bound is enough for all keys that the packages have or mention. -/
lemma Known.declSteps_knownKeys_le (k : Known) :
    k.declSteps k.packages.knownKeys ≤ stepBound k.packages.weight := by
  rw [← k.packages.length_knownKeys]
  exact k.declSteps_le_stepBound _

section

variable (names : KnownNames) (k : Known) {p : Package} (hp : k.packages.Holds p)
include hp

/-- Resolving a type of a package in the store ends within the bound. -/
lemma resolve_endsWithin {file : SourceUnit} (hfile : file ∈ p.files) (type : TypeExpr) :
    EndsWithin (resolve names ⟨p, file⟩ type) (stepBound k.packages.weight)
      (fun n => typeOf names (stepsWithin names n) ⟨p, file⟩ type) k := by
  refine .of_approximates (outcome_resolve ..) (fun place k' ho => ?_) fun n hn => ?_
  · have hfails := (typeOf_derives (stepsWithin_derive names _) _ type k).error ho
    have hsuffices : Task.Suffices k.packages ⟨_, k, .type ⟨p, file⟩ type⟩ :=
      ⟨rfl, ⟨hp.scoped, hfile⟩, k.declSteps_knownKeys_le⟩
    exact hfails.descends.ne_exhausted hsuffices place rfl
  · exact typeOf_approximates (stepsWithin_approximate names hn) _ type

/-- Resolving a name of a package in the store ends within the bound. -/
lemma resolveName_endsWithin (x : String) :
    EndsWithin (resolveName names p x) (stepBound k.packages.weight)
      (fun n => declWithin names n p x (declPlace p x)) k := by
  refine .of_approximates (outcome_resolveName ..) (fun place k' ho => ?_) fun n hn => ?_
  · have hderives := stepsWithin_derive names (stepBound k.packages.weight)
    have hfails := (hderives.decl p x (declPlace p x) k).error ho
    have hsuffices : Task.Suffices k.packages ⟨_, k, .decl p x (declPlace p x)⟩ :=
      ⟨rfl, hp.scoped, k.declSteps_knownKeys_le⟩
    exact hfails.descends.ne_exhausted hsuffices place rfl
  · exact (stepsWithin_approximate names hn).decl p x _

end

/-- The resolutions of types and declared names of a package that is held end, in every state:
with any table of structs, finished or not, and with anything on the way. -/
theorem resolution_ends (names : KnownNames) (k : Known) {p : Package} (hp : k.packages.Holds p) :
    (∀ file ∈ p.files, ∀ type,
      EndsWithin (resolve names ⟨p, file⟩ type) (stepBound k.packages.weight)
        (fun n => typeOf names (stepsWithin names n) ⟨p, file⟩ type) k) ∧
    ∀ x, EndsWithin (resolveName names p x) (stepBound k.packages.weight)
      (fun n => declWithin names n p x (declPlace p x)) k :=
  ⟨fun _ hfile type => resolve_endsWithin names k hp hfile type, resolveName_endsWithin names k hp⟩

/-! ## Declarations that lead back to themselves -/

namespace Knot

/-- The name of a type over the second one. -/
def firstName : Ident := ⟨⟨"A", by decide⟩, default⟩

/-- The name of a type over the first one. -/
def secondName : Ident := ⟨⟨"B", by decide⟩, default⟩

/-- The name of a struct that embeds itself through a pointer. -/
def embedderName : Ident := ⟨⟨"E", by decide⟩, default⟩

/-- The name of a struct that refers to itself. -/
def nodeName : Ident := ⟨⟨"N", by decide⟩, default⟩

/-- A field whose type is a pointer; it is embedded if it has no names. -/
def pointerField (names : List Ident) (target : Ident) : Field where
  span := default
  names := names
  ellipsis := none
  type := .pointer default default (.named default none target [])
  tag := none
  embedded := names.isEmpty
  doc := none
  comment := none

/-- The declarations `type A B`, `type B A`, `type E struct { *E }` and `type N struct { Rest *N }`.
-/
def specs : List TypeSpec :=
  [⟨none, firstName, none, none, .named default none secondName []⟩,
    ⟨none, secondName, none, none, .named default none firstName []⟩,
    ⟨none, embedderName, none, none,
      .struct default default [pointerField [] embedderName] default⟩,
    ⟨none, nodeName, none, none, .struct default default
      [pointerField [⟨⟨"Rest", by decide⟩, default⟩] nodeName] default⟩]

/-- The file with the declarations. -/
def file : SourceUnit where
  path := ⟨"k/k.go"⟩
  parsed := ⟨"", ⟨[0]⟩, ⟨default, ⟨⟨"k", by decide⟩, default⟩, specs.map fun s =>
    .gen ⟨default, none, .types, default, none, [.typeSpec s], none⟩, [], none⟩, []⟩
  imports := ⟨[]⟩

/-- The package with the file. -/
def package : Package :=
  ofFiles "m/k" "k" ⟨"k"⟩ "m" [file]

/-- The source of this package only. -/
def source : PackageSource where
  load path := if path = "m/k" then .ok package else .error (.load (.noSources path ⟨path⟩))
  paths := []
  names := ["A", "B", "E", "N"]
  importPath_of_load h := by
    split at h
    · next hpath =>
      cases h
      exact hpath.symm
    · cases h
  names_of_load h := by
    split at h
    · cases h
      decide
    · cases h
  paths_of_load h := by
    split at h
    · cases h
      decide
    · cases h

/-- The state with the package loaded. -/
def start : Known :=
  (Known.start (.ofSource source)).withPackages (LoadedPackages.load (.ofSource source) "m/k").2

/-- The resolutions of two types that stand for each other and of a struct that embeds itself end,
each in the error that says so. -/
theorem knot_resolution_ends :
    start.packages.Holds package ∧
    (∀ x, EndsWithin (resolveName ⟨""⟩ package x) (stepBound start.packages.weight)
      (fun n => declWithin ⟨""⟩ n package x (declPlace package x)) start) ∧
    (outcome (resolveName ⟨""⟩ package "A") start).1 =
      .error (.unsupported ⟨file.path, ⟨1, 1⟩⟩ (.recursive (keyIn package "A"))) ∧
    (outcome (resolveName ⟨""⟩ package "E") start).1 =
      .error (.cyclicEmbedding ⟨file.path, ⟨1, 1⟩⟩ (keyIn package "E")) := by
  have hp : start.packages.Holds package := rfl
  exact ⟨hp, (resolution_ends ⟨""⟩ start hp).2, rfl, rfl⟩

end Knot

end GoService.Resolution
