import GoService.Proofs.Resolution.Growth
import Mathlib.Logic.Relation

/-!
# Descent

What a resolution asks for on its way, and where an error comes from. `Asks` leads from a task to
the tasks on which the functions go on with it, one rule for each recursive call; `Faults` says
which errors arise in a task itself. Every error arises in a task to which the resolution has
descended (`Fails.descends`), so what every step of a descent keeps says what errors there can be.
-/

namespace GoService.Resolution

open Data Package Source Relation

/-- A goal, the state in which it is asked for and the bound on the depth. -/
structure Task where
  depth : Nat
  known : Known
  goal : Goal

section Rules

variable (names : KnownNames)

/-- To work on the first task is to work on the second one on the way. -/
inductive Asks : Task → Task → Prop
  | paren : Asks ⟨n, k, .type site (.paren span nested)⟩ ⟨n, k, .type site nested⟩
  | pointer : Asks ⟨n, k, .type site (.pointer span asterisk elem)⟩ ⟨n, k, .type site elem⟩
  | slice : Asks ⟨n, k, .type site (.slice span elem)⟩ ⟨n, k, .type site elem⟩
  | array : Asks ⟨n, k, .type site (.array span len elem)⟩ ⟨n, k, .type site elem⟩
  | mapKey : Asks ⟨n, k, .type site (.map span key val)⟩ ⟨n, k, .type site key⟩
  | mapValue (hkey : Resolves names n k (.type site key) (.type (.builtin b)) k₁) :
      Asks ⟨n, k, .type site (.map span key val)⟩ ⟨n, k₁, .type site val⟩
  | declared (hname : outcome (referentOf names site qualifier ident (site.placeOf span)) k =
        (.ok (.declared p x), k₁)) :
      Asks ⟨n, k, .type site (.named span qualifier ident [])⟩
        ⟨n, k₁, .decl p x (site.placeOf span)⟩
  | struct (ho : Opens names k p x place d (some source) k₁) :
      Asks ⟨n + 1, k, .decl p x place⟩ ⟨n, k₁.enterStruct (keyIn p x), .literal place source⟩
  | expand (ho : Opens names k p x place d none k₁) (hout : keyIn p x ∉ k₁.trail.expanding) :
      Asks ⟨n + 1, k, .decl p x place⟩
        ⟨n, k₁.expand (keyIn p x), .type ⟨p, d.file⟩ d.spec.type⟩
  | literal : Asks ⟨n + 1, k, .literal place source⟩ ⟨n, k, .fields source.site source.fields []⟩
  | head : Asks ⟨n, k, .fields site (f :: fs) out⟩ ⟨n, k, .field site f out⟩
  | tail (hf : Resolves names n k (.field site f out) (.fields out₁) k₁) :
      Asks ⟨n, k, .fields site (f :: fs) out⟩ ⟨n, k₁, .fields site fs out₁⟩
  | named (hskip : ¬ (fieldTags f).isJsonSkipped) (hemb : ¬ f.embedded) :
      Asks ⟨n, k, .field site f out⟩ ⟨n, k, .type site f.type⟩
  | tagged (hskip : ¬ (fieldTags f).isJsonSkipped) (hemb : f.embedded)
      (htag : (fieldTags f).jsonName?.isSome) :
      Asks ⟨n, k, .field site f out⟩ ⟨n, k, .type site f.type⟩
  | embeddedType (hskip : ¬ (fieldTags f).isJsonSkipped) (hemb : f.embedded)
      (htag : ¬ (fieldTags f).jsonName?.isSome) :
      Asks ⟨n, k, .field site f out⟩ ⟨n, k, .type site (behindPointer false f.type).1⟩
  | inlined (hskip : ¬ (fieldTags f).isJsonSkipped) (hemb : f.embedded)
      (htag : ¬ (fieldTags f).jsonName?.isSome)
      (h : Resolves names n k (.type site (behindPointer false f.type).1) (.type (.struct key))
        k₁) :
      Asks ⟨n, k, .field site f out⟩ ⟨n, k₁, .embedded key (site.placeOf f.span)⟩
  | unfinished (ho : Reopens names k key place (some source) k₁) :
      Asks ⟨n, k, .embedded key place⟩ ⟨n, k₁.embed key, .literal place source⟩

/-- The task itself ends in an error, and not one on which it goes on. -/
inductive Faults : Task → ResolutionError → Prop
  | mapKeyKind (h : Resolves names n k (.type site key) (.type t) k') (ht : ∀ b, t ≠ .builtin b) :
      Faults ⟨n, k, .type site (.map span key val)⟩ (.mapKey (site.placeOf span) t)
  | rejected (h : Rejected site type e) : Faults ⟨n, k, .type site type⟩ e
  | nameless (hname : outcome (referentOf names site qualifier ident (site.placeOf span)) k =
        (.error e, k')) :
      Faults ⟨n, k, .type site (.named span qualifier ident [])⟩ e
  | declDepth : Faults ⟨0, k, .decl p x place⟩ (.exhausted place)
  | undeclared (hfresh : ¬ k.structs.contains (keyIn p x)) (hd : p.type? x = none) :
      Faults ⟨n + 1, k, .decl p x place⟩ (.unresolved place (keyIn p x) .declaration)
  | generic (hfresh : ¬ k.structs.contains (keyIn p x)) (hd : p.type? x = some d)
      (hparams : d.spec.typeParams.isSome) :
      Faults ⟨n + 1, k, .decl p x place⟩ (.unsupported place (.generic (keyIn p x)))
  | search (hfresh : ¬ k.structs.contains (keyIn p x)) (hd : p.type? x = some d)
      (hplain : d.spec.typeParams = none)
      (hsearch : outcome (structLiteral? names place nameHopLimit ⟨p, d.file⟩ d.spec.type) k =
        (.error e, k')) :
      Faults ⟨n + 1, k, .decl p x place⟩ e
  | recursive (ho : Opens names k p x place d none k') (hin : keyIn p x ∈ k'.trail.expanding) :
      Faults ⟨n + 1, k, .decl p x place⟩ (.unsupported place (.recursive (keyIn p x)))
  | literalDepth : Faults ⟨0, k, .literal place source⟩ (.exhausted place)
  | cyclic (hin : key ∈ k.trail.embedding) :
      Faults ⟨n, k, .embedded key place⟩ (.cyclicEmbedding place key)
  | unknown (hout : key ∉ k.trail.embedding) (hs : k.structs.get? key = none)
      (hd : knownDecl? k.packages key = none) :
      Faults ⟨n, k, .embedded key place⟩ (.cyclicEmbedding place key)
  | research (hout : key ∉ k.trail.embedding) (hs : k.structs.get? key = none)
      (hd : knownDecl? k.packages key = some (site, type))
      (hsearch : outcome (structLiteral? names place nameHopLimit site type) k = (.error e, k')) :
      Faults ⟨n, k, .embedded key place⟩ e
  | bodiless (ho : Reopens names k key place none k') :
      Faults ⟨n, k, .embedded key place⟩ (.cyclicEmbedding place key)

/-- Working on the first task is, on the way, working on the second one. -/
def Descends : Task → Task → Prop :=
  ReflTransGen (Asks names)

end Rules

variable {names : KnownNames}

/-- What every step keeps, every descent keeps. -/
lemma Descends.keeps {P : Task → Prop} (hstep : ∀ {t t'}, Asks names t t' → P t → P t')
    {t t' : Task} (h : Descends names t t') (ht : P t) : P t' := by
  induction h with
  | refl => exact ht
  | tail _ hask ih => exact hstep hask ih

/-- An error arises in a task to which a task descends. -/
def ArisesBelow (names : KnownNames) (t : Task) (e : ResolutionError) : Prop :=
  ∃ t', Descends names t t' ∧ Faults names t' e

/-- An error arises where it is at fault. -/
lemma ArisesBelow.here {t : Task} {e : ResolutionError} (h : Faults names t e) :
    ArisesBelow names t e :=
  ⟨t, .refl, h⟩

/-- An error that arises below what is asked for arises below. -/
lemma ArisesBelow.above {t t₁ : Task} {e : ResolutionError} (h : ArisesBelow names t₁ e)
    (hask : Asks names t t₁) : ArisesBelow names t e := by
  obtain ⟨t', hd, hf⟩ := h
  exact ⟨t', .head hask hd, hf⟩

/-- An error of a resolution arises at some question below it. -/
theorem Fails.descends {n : Nat} {k k' : Known} {g : Goal} {e : ResolutionError}
    (h : Fails names n k g e k') : ArisesBelow names ⟨n, k, g⟩ e := by
  induction h with
  | paren _ ih => exact ih.above .paren
  | pointer _ ih => exact ih.above .pointer
  | slice _ ih => exact ih.above .slice
  | array _ ih => exact ih.above .array
  | mapKey _ ih => exact ih.above .mapKey
  | mapKeyKind h ht => exact .here (.mapKeyKind h ht)
  | mapValue hkey _ ih => exact ih.above (.mapValue hkey)
  | rejected h => exact .here (.rejected h)
  | nameless hname => exact .here (.nameless hname)
  | declared hname _ ih => exact ih.above (.declared hname)
  | declDepth => exact .here .declDepth
  | undeclared hfresh hd => exact .here (.undeclared hfresh hd)
  | generic hfresh hd hparams => exact .here (.generic hfresh hd hparams)
  | search hfresh hd hplain hsearch => exact .here (.search hfresh hd hplain hsearch)
  | struct ho _ ih => exact ih.above (.struct ho)
  | recursive ho hin => exact .here (.recursive ho hin)
  | expand ho hout _ ih => exact ih.above (.expand ho hout)
  | literalDepth => exact .here .literalDepth
  | literal _ ih => exact ih.above .literal
  | head _ ih => exact ih.above .head
  | tail hf _ ih => exact ih.above (.tail hf)
  | named hskip hemb _ ih => exact ih.above (.named hskip hemb)
  | tagged hskip hemb htag _ ih => exact ih.above (.tagged hskip hemb htag)
  | embeddedType hskip hemb htag _ ih => exact ih.above (.embeddedType hskip hemb htag)
  | inlined hskip hemb htag h _ ih => exact ih.above (.inlined hskip hemb htag h)
  | cyclic hin => exact .here (.cyclic hin)
  | unknown hout hs hd => exact .here (.unknown hout hs hd)
  | research hout hs hd hsearch => exact .here (.research hout hs hd hsearch)
  | bodiless ho => exact .here (.bodiless ho)
  | unfinished ho _ ih => exact ih.above (.unfinished ho)

/-! ## Errors of lookups -/

/-- Errors that come from names that mean nothing or from packages that cannot be had. -/
def ResolutionError.IsOfLookup : ResolutionError → Prop
  | .unresolved _ _ missing => missing ≠ .wellFormedType
  | .unsupported .. | .dotImport .. | .load _ => True
  | .mapKey .. | .cyclicEmbedding .. | .exhausted _ => False

/-- A computation whose errors are those of lookups. -/
structure FailsLooking (x : Resolve α) : Prop where
  error : ∀ k, Ends x k (fun _ _ => True) fun e _ => e.IsOfLookup

namespace FailsLooking

variable {α β : Type}

/-- A value is no failure. -/
lemma pure (a : α) : FailsLooking (pure a) :=
  ⟨fun _ => .pure trivial⟩

/-- A lookup can fail with an error of lookups. -/
lemma throw {e : ResolutionError} (h : e.IsOfLookup) : FailsLooking (throw e : Resolve α) :=
  ⟨fun _ => .throw h⟩

/-- Asking for a package fails only as lookups do. -/
lemma askPackage (path : String) : FailsLooking (askPackage path) :=
  ⟨fun _ => .of_ok (outcome_askPackage path) trivial⟩

/-- Lookups one after another fail only as lookups do. -/
lemma bind {x : Resolve α} {f : α → Resolve β} (hx : FailsLooking x)
    (hf : ∀ a, FailsLooking (f a)) : FailsLooking (x >>= f) :=
  ⟨fun k => .bind ((hx.error k).imp (fun {a k₁} _ => (hf a).error k₁) id)⟩

/-- The error of a lookup is one of lookups. -/
lemma isOfLookup {x : Resolve α} (hx : FailsLooking x) {k k' : Known} {e : ResolutionError}
    (h : outcome x k = (.error e, k')) : e.IsOfLookup :=
  (hx.error k).error h

end FailsLooking

/-- What is not found is an error of lookups, unless it is a malformed type. -/
lemma failsLooking_unresolved {α : Type} {place : SourcePlace} {name : String} {missing : Missing}
    (h : missing ≠ .wellFormedType) :
    FailsLooking (throw (.unresolved place name missing) : Resolve α) :=
  .throw h

/-- Looking for the first package with a name fails only as lookups do. -/
lemma failsLooking_firstNamed (name : String) (paths : List String) :
    FailsLooking (firstNamed name paths) := by
  induction paths with
  | nil => exact .pure none
  | cons path paths ih =>
    rw [firstNamed]
    refine .bind (.askPackage path) fun answer => ?_
    cases answer with
    | error e => exact ih
    | ok p =>
      by_cases hp : p.name = name
      · simpa only [hp, if_true] using FailsLooking.pure (some path)
      · simpa only [hp, if_false] using ih

/-- Looking for the path of a qualifier fails only as lookups do. -/
lemma failsLooking_qualifierPath (site : Site) (qualifier : String) (place : SourcePlace) :
    FailsLooking (qualifierPath site qualifier place) := by
  rw [qualifierPath]
  cases site.file.imports.find? qualifier with
  | some i => exact .pure i.path
  | none =>
    refine .bind (failsLooking_firstNamed ..) fun path => ?_
    cases path with
    | some path => exact .pure path
    | none => exact failsLooking_unresolved (by simp)

/-- Looking for a package fails only as lookups do. -/
lemma failsLooking_packageAt (path name : String) (place : SourcePlace) :
    FailsLooking (packageAt path name place) := by
  refine .bind (.askPackage path) fun answer => ?_
  cases answer with
  | ok p => exact .pure p
  | error e =>
    cases e with
    | locate e => exact failsLooking_unresolved (by simp)
    | load e =>
      cases e with
      | noSources importPath dir => exact failsLooking_unresolved (by simp)
      | _ => exact .throw trivial

/-- Looking for a name without a qualifier fails only as lookups do. -/
lemma failsLooking_plainReferent (site : Site) (name : String) (place : SourcePlace) :
    FailsLooking (liftExcept (plainReferent site name place)) := by
  refine ⟨fun k => (Ends.of_outcome _ k).imp (fun _ => trivial) fun {e k'} h => ?_⟩
  rw [outcome_liftExcept, plainReferent] at h
  repeat' split at h
  all_goals cases h
  · exact trivial
  · exact trivial
  · simp [ResolutionError.IsOfLookup]

/-- Looking for what a name refers to fails only as lookups do. -/
lemma failsLooking_referentOf (names : KnownNames) (site : Site) (qualifier : Option Ident)
    (name : Ident) (place : SourcePlace) :
    FailsLooking (referentOf names site qualifier name place) := by
  cases qualifier with
  | none => exact failsLooking_plainReferent site name.name place
  | some q =>
    refine .bind (failsLooking_qualifierPath ..) fun path => ?_
    cases names.lookup? path name.name with
    | some w => exact .pure _
    | none =>
      refine .bind (failsLooking_packageAt ..) fun target => ?_
      by_cases h : target.types.contains name.name
      · simpa only [h, if_true] using FailsLooking.pure _
      · simp only [h]
        exact failsLooking_unresolved (by simp)

/-- Looking for the struct behind a type fails only as lookups do. -/
lemma failsLooking_structLiteral? (names : KnownNames) (place : SourcePlace) (n : Nat) (site : Site)
    (type : TypeExpr) : FailsLooking (structLiteral? names place n site type) := by
  induction n generalizing site type with
  | zero => exact .pure none
  | succ n ih =>
    cases type with
    | named span qualifier name args =>
      cases args with
      | cons arg args => cases qualifier <;> exact .pure none
      | nil =>
        cases qualifier with
        | none =>
          simp only [structLiteral?]
          cases plainDecl? site.package name.name with
          | none => exact .pure none
          | some d => exact ih ..
        | some q =>
          refine .bind (failsLooking_qualifierPath ..) fun path => ?_
          by_cases hw : (names.lookup? path name.name).isSome
          · simpa only [hw, if_true] using FailsLooking.pure none
          · simp only [hw]
            refine .bind (failsLooking_packageAt ..) fun target => ?_
            cases plainDecl? target name.name with
            | none => exact .pure none
            | some d => exact ih ..
    | struct span lBrace fields rBrace => exact .pure _
    | paren span inner => exact ih ..
    | _ => exact .pure none

end GoService.Resolution
