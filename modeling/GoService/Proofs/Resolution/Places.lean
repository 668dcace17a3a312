import GoService.Proofs.Resolution.Catalog
import GoService.Proofs.Source.Writing
import GoService.Resolution.Types

/-!
# Places do not matter

Where a type stands is told in errors and has no other effect: from types that are equal up to
places the same type is resolved, in the same state, or none (`agree_resolve`). `Agree` is what two
computations have in common that differ in their errors only; there is one rule for each way in
which computations are put together.
-/

namespace GoService.Resolution

open Data Package Source

/-- The computations give the same value or none, and leave the same state. -/
structure Agree (x y : ExceptT ε (StateM Known) α) : Prop where
  value : ∀ k, (outcome x k).1.toOption = (outcome y k).1.toOption
  state : ∀ k, (outcome x k).2 = (outcome y k).2

namespace Agree

section

variable {ε α β : Type}

/-- Computations agree if they do in every state. -/
lemma of_forall {x y : ExceptT ε (StateM Known) α}
    (h : ∀ k, (outcome x k).1.toOption = (outcome y k).1.toOption ∧
      (outcome x k).2 = (outcome y k).2) : Agree x y :=
  ⟨fun k => (h k).1, fun k => (h k).2⟩

/-- A computation agrees with itself. -/
lemma refl (x : ExceptT ε (StateM Known) α) : Agree x x :=
  ⟨fun _ => rfl, fun _ => rfl⟩

/-- Agreement goes both ways. -/
lemma symm {x y : ExceptT ε (StateM Known) α} (h : Agree x y) : Agree y x :=
  ⟨fun k => (h.value k).symm, fun k => (h.state k).symm⟩

/-- Agreement goes from one computation to the next. -/
lemma trans {x y z : ExceptT ε (StateM Known) α} (hxy : Agree x y) (hyz : Agree y z) : Agree x z :=
  ⟨fun k => (hxy.value k).trans (hyz.value k), fun k => (hxy.state k).trans (hyz.state k)⟩

/-- Any two errors agree. -/
lemma throw (e e' : ε) : Agree (throw e : ExceptT ε (StateM Known) α) (throw e') :=
  ⟨fun _ => rfl, fun _ => rfl⟩

/-- What is settled without the state agrees if the values do. -/
lemma lift {r s : Except ε α} (h : r.toOption = s.toOption) :
    Agree (liftExcept r : ExceptT ε (StateM Known) α) (liftExcept s) := by
  refine .of_forall fun k => ?_
  rw [outcome_liftExcept, outcome_liftExcept]
  exact ⟨h, rfl⟩

/-- What one of them gives the other one gives too. -/
lemma outcome_eq_ok {x y : ExceptT ε (StateM Known) α} (h : Agree x y) {k k' : Known} {a : α}
    (hx : outcome x k = (.ok a, k')) : outcome y k = (.ok a, k') := by
  have hvalue := h.value k
  have hstate := h.state k
  rw [hx] at hvalue hstate
  obtain ⟨b, k₁, hy⟩ | ⟨e, k₁, hy⟩ := outcome_cases y k
  · rw [hy] at hvalue hstate ⊢
    cases hvalue
    cases hstate
    rfl
  · rw [hy] at hvalue
    cases hvalue

/-- Where one computation fails the other one does. -/
lemma exists_error {x y : ExceptT ε (StateM Known) α} (h : Agree x y) {k k' : Known} {e : ε}
    (hx : outcome x k = (.error e, k')) : ∃ e', outcome y k = (.error e', k') := by
  obtain ⟨b, k₁, hy⟩ | ⟨e', k₁, hy⟩ := outcome_cases y k
  · cases hx.symm.trans (h.symm.outcome_eq_ok hy)
  · have hstate := h.state k
    rw [hx, hy] at hstate
    cases hstate
    exact ⟨e', hy⟩

/-- Computations one after another agree if each of them does. -/
lemma bind {x y : ExceptT ε (StateM Known) α} {f g : α → ExceptT ε (StateM Known) β}
    (hxy : Agree x y) (hfg : ∀ a, Agree (f a) (g a)) : Agree (x >>= f) (y >>= g) := by
  refine .of_forall fun k => ?_
  rw [outcome_bind, outcome_bind]
  obtain ⟨a, k₁, hx⟩ | ⟨e, k₁, hx⟩ := outcome_cases x k
  · rw [hx, hxy.outcome_eq_ok hx]
    exact ⟨(hfg a).value k₁, (hfg a).state k₁⟩
  · obtain ⟨e', hy⟩ := hxy.exists_error hx
    rw [hx, hy]
    exact ⟨rfl, rfl⟩

/-- The handlers get different errors, so they have to agree whatever they get. -/
lemma tryCatch {x y : ExceptT ε (StateM Known) α} {f g : ε → ExceptT ε (StateM Known) α}
    (hxy : Agree x y) (hfg : ∀ e e', Agree (f e) (g e')) :
    Agree (tryCatch x f) (tryCatch y g) := by
  refine .of_forall fun k => ?_
  rw [outcome_tryCatch, outcome_tryCatch]
  obtain ⟨a, k₁, hx⟩ | ⟨e, k₁, hx⟩ := outcome_cases x k
  · rw [hx, hxy.outcome_eq_ok hx]
    exact ⟨rfl, rfl⟩
  · obtain ⟨e', hy⟩ := hxy.exists_error hx
    rw [hx, hy]
    exact ⟨(hfg e e').value k₁, (hfg e e').state k₁⟩

end

/-- Computations between entering and leaving agree if they do after entering. -/
lemma bracketed {α : Type} {enter leave : Known → Known} {x y : Resolve α} (h : Agree x y) :
    Agree (bracketed enter leave x) (bracketed enter leave y) := by
  refine .of_forall fun k => ?_
  rw [outcome_bracketed, outcome_bracketed]
  exact ⟨h.value (enter k), congrArg leave (h.state (enter k))⟩

end Agree

/-! ## Names -/

/-- The same names mean the same in both files. -/
structure Site.SameScope (site site' : Site) : Prop where
  package : site.package = site'.package
  imports : site.file.imports = site'.file.imports

section

variable {names : KnownNames} {site site' : Site} (hscope : site.SameScope site')
include hscope

/-- The path of a qualifier does not depend on places. -/
lemma agree_qualifierPath (q : String) (place place' : SourcePlace) :
    Agree (qualifierPath site q place) (qualifierPath site' q place') := by
  rw [qualifierPath, qualifierPath, hscope.imports]
  split
  · exact .refl _
  · refine .bind (.refl _) fun path => ?_
    cases path with
    | none => exact .throw _ _
    | some path => exact .refl _

omit hscope in
/-- A package does not depend on the place at which it is used, nor on the name there. -/
lemma agree_packageAt (path name name' : String) (place place' : SourcePlace) :
    Agree (packageAt path name place) (packageAt path name' place') := by
  refine .bind (.refl _) fun answer => ?_
  split
  · exact .refl _
  · exact .throw _ _
  · exact .refl _
  · exact .throw _ _

/-- What a qualified name refers to does not depend on places. -/
lemma agree_selectedReferent (q name : String) (place place' : SourcePlace) :
    Agree (selectedReferent names site q name place)
      (selectedReferent names site' q name place') := by
  refine .bind (agree_qualifierPath hscope ..) fun path => ?_
  cases names.lookup? path name with
  | some w => exact .refl _
  | none =>
    refine .bind (agree_packageAt ..) fun target => ?_
    split
    · exact .refl _
    · exact .throw _ _

/-- What a name refers to does not depend on places. -/
lemma agree_referentOf (qualifier : Option Ident) (name : Ident) (place place' : SourcePlace) :
    Agree (referentOf names site qualifier name place)
      (referentOf names site' (qualifier.map Ident.bare) name.bare place') := by
  cases qualifier with
  | some q => exact agree_selectedReferent hscope q.name name.name place place'
  | none =>
    have hsame : plainReferent site name.name place = plainReferent site' name.name place := by
      rw [plainReferent, plainReferent, hscope.package, hscope.imports]
    refine .lift ?_
    rw [hsame]
    exact toOption_plainReferent site' name.name place place'

end

/-- The struct behind a type does not depend on places. -/
lemma agree_structLiteral? (names : KnownNames) (place place' : SourcePlace) (n : Nat) (site : Site)
    (type : TypeExpr) :
    Agree (structLiteral? names place n site type) (structLiteral? names place' n site type) := by
  have hscope : site.SameScope site := ⟨rfl, rfl⟩
  induction n generalizing site type with
  | zero => exact .refl _
  | succ n ih =>
    cases type with
    | named span qualifier name args =>
      cases args with
      | cons arg args => cases qualifier <;> exact .refl _
      | nil =>
        cases qualifier with
        | none =>
          simp only [structLiteral?]
          split
          · exact ih _ _ ⟨rfl, rfl⟩
          · exact .refl _
        | some q =>
          refine .bind (agree_qualifierPath hscope ..) fun path => ?_
          split
          · exact .refl _
          · refine .bind (agree_packageAt ..) fun target => ?_
            split
            · exact ih _ _ ⟨rfl, rfl⟩
            · exact .refl _
    | paren span inner => exact ih _ _ hscope
    | _ => exact .refl _

/-! ## Types -/

/-- Steps that tell places in errors only. -/
structure Steps.Placeless (steps : Steps) : Prop where
  decl : ∀ p x place place', Agree (steps.decl p x place) (steps.decl p x place')
  fields : ∀ place place' source, Agree (steps.fields place source) (steps.fields place' source)

section

variable {names : KnownNames} {steps : Steps} (hs : steps.Placeless)
include hs

/-- A struct does not depend on the place from which it is resolved. -/
lemma agree_structOf (p : Package) (x : String) (d : DeclaredType) (place place' : SourcePlace)
    (source : StructLiteral) :
    Agree (structOf steps p x d place source) (structOf steps p x d place' source) := by
  refine .bind (.refl _) fun t => .bind (.refl _) fun _ => .bind (.refl _) fun k => ?_
  refine .bind (.tryCatch (hs.fields place place' source).bracketed fun e e' => ?_) fun _ => .refl _
  exact .bind (.refl _) fun _ => .throw _ _

/-- A declaration does not depend on the place from which it is resolved. -/
lemma agree_declOf (p : Package) (x : String) (place place' : SourcePlace) :
    Agree (declOf names steps p x place) (declOf names steps p x place') := by
  refine .bind (.refl _) fun t => ?_
  split
  · exact .refl _
  cases p.type? x with
  | none => exact .throw _ _
  | some d =>
    dsimp only
    split
    · exact .throw _ _
    refine .bind (agree_structLiteral? ..) fun source => ?_
    cases source with
    | some source => exact .bind (agree_structOf hs ..) fun _ => .refl _
    | none =>
      refine .bind (.refl _) fun k => ?_
      split
      · exact .throw _ _
      · exact .refl _

/-- From a type the same is resolved as from what is left of it without the places. -/
lemma agree_typeOf_bare {site site' : Site} (hscope : site.SameScope site') (type : TypeExpr) :
    Agree (typeOf names steps site type) (typeOf names steps site' type.bare) := by
  induction type using TypeExpr.partsInduction with
  | paren span inner ih =>
    rw [TypeExpr.bare, typeOf, typeOf]
    exact ih
  | pointer span star elem ih =>
    rw [TypeExpr.bare, typeOf, typeOf]
    exact .bind ih fun _ => .refl _
  | slice span elem ih =>
    rw [TypeExpr.bare, typeOf, typeOf]
    exact .bind ih fun _ => .refl _
  | array span len elem ih =>
    rw [TypeExpr.bare, typeOf, typeOf]
    exact .bind ih fun _ => .refl _
  | map span key val ihkey ihval =>
    rw [TypeExpr.bare, typeOf, typeOf]
    refine .bind (.refl _) fun t => .bind ihkey fun found => ?_
    cases found with
    | builtin b => exact .bind ihval fun _ => .refl _
    | _ => exact .bind (.refl _) fun _ => .throw _ _
  | interface span lBrace elems rBrace =>
    rw [TypeExpr.bare, typeOf, typeOf, InterfaceMember.bares_eq_map, List.isEmpty_map]
    split
    · exact .refl _
    · exact .throw _ _
  | named span qualifier name args =>
    rw [TypeExpr.bare, typeOf, typeOf, TypeExpr.bares_eq_map, List.isEmpty_map]
    split
    · exact .throw _ _
    refine .bind (agree_referentOf hscope qualifier name _ _) fun referent => ?_
    cases referent with
    | type t => exact .refl _
    | declared p x => exact hs.decl p x _ _
  | _ =>
    rw [TypeExpr.bare, typeOf, typeOf]
    exact .throw _ _

end

/-- The steps of a resolution do not depend on places. -/
lemma stepsWithin_placeless (names : KnownNames) (n : Nat) : (stepsWithin names n).Placeless := by
  induction n with
  | zero => exact ⟨fun _ _ _ _ => .throw _ _, fun _ _ _ => .throw _ _⟩
  | succ n ih => exact ⟨fun _ _ _ _ => agree_declOf ih .., fun _ _ _ => .refl _⟩

/-- Types that are equal up to places resolve alike in files in which names mean the same. -/
theorem agree_resolve (names : KnownNames) {site site' : Site} {type type' : TypeExpr}
    (hscope : site.SameScope site') (htype : type.bare = type'.bare) :
    Agree (resolve names site type) (resolve names site' type') := by
  refine .bind (.refl _) fun n => ?_
  have hbare (t : TypeExpr) (s : Site) (h : s.SameScope site') :
      Agree (typeOf names (stepsWithin names n) s t)
        (typeOf names (stepsWithin names n) site' t.bare) :=
    agree_typeOf_bare (stepsWithin_placeless names n) h t
  have hleft := hbare type site hscope
  rw [htype] at hleft
  exact hleft.trans (hbare type' site' ⟨rfl, rfl⟩).symm

end GoService.Resolution
