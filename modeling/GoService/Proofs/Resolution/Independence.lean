import GoService.Proofs.Resolution.Derivation

/-!
# Independence

Resolving types does not depend on which functions a package declares. A package without its
functions is `bare`; where a name leads to a package, and what is done with it is the same for the
bare one, the name may be looked up in the bare one (`referentOf_bare`). So the functions that
resolve are the same for a package and for the bare one (`stepsWithin_bare`, `resolve_bare`).
-/

namespace GoService.Package

/-- The package without its functions. -/
def bare (p : Package) : Package :=
  { p with
    funcs := []
    placed := fun _ h => absurd h List.not_mem_nil
    ordered := .nil }

end GoService.Package

namespace GoService.Resolution

open Data Package Source

/-- The site in the package without its functions. -/
def Site.bare (site : Site) : Site :=
  ⟨site.package.bare, site.file⟩

/-- The struct with its site in the package without its functions. -/
def StructLiteral.bare (source : StructLiteral) : StructLiteral :=
  ⟨source.site.bare, source.fields⟩

/-- Steps that are the same for a package and for the bare one. -/
structure Steps.Bare (steps : Steps) : Prop where
  decl : ∀ p x place, steps.decl p.bare x place = steps.decl p x place
  fields : ∀ place source, steps.fields place source.bare = steps.fields place source

section

variable (names : KnownNames) {β : Type}

/-- A declared type is found in the bare package too, and its site is bare. -/
lemma plainDecl?_bare (p : Package) (x : String) :
    plainDecl? p.bare x = (plainDecl? p x).map fun d => (d.1.bare, d.2) := by
  have htype : p.bare.type? x = p.type? x := rfl
  rw [plainDecl?, plainDecl?, htype]
  cases p.type? x with
  | none => rfl
  | some d =>
    cases h : d.spec.typeParams.isNone with
    | true => simp only [h, if_true]; rfl
    | false => simp only [h]; rfl

/-- A name may be looked up in the package without its functions. -/
lemma referentOf_bare (site : Site) (qualifier : Option Ident) (ident : Ident)
    (place : SourcePlace) {f : Referent → Resolve β}
    (hf : ∀ p x, f (.declared p.bare x) = f (.declared p x)) :
    (referentOf names site.bare qualifier ident place >>= f) =
      (referentOf names site qualifier ident place >>= f) := by
  cases qualifier with
  | some q => rfl
  | none =>
    have hin : site.bare.package.types.contains ident.name =
      site.package.types.contains ident.name := rfl
    simp only [referentOf, plainReferent, hin]
    by_cases hx : site.package.types.contains ident.name
    · simp only [hx, if_true]
      exact hf site.package ident.name
    · simp only [hx]
      rfl

/-- What follows a search for a literal may be given a bare one. -/
lemma structLiteral?_bare (place : SourcePlace) (n : Nat) (site : Site) (type : TypeExpr)
    {f : Option StructLiteral → Resolve β} (hf : ∀ source, f (some source.bare) = f (some source)) :
    (structLiteral? names place n site.bare type >>= f) =
      (structLiteral? names place n site type >>= f) := by
  induction n generalizing site type with
  | zero => rfl
  | succ n ih =>
    cases type with
    | struct span lBrace fields rBrace => exact hf ⟨site, fields⟩
    | paren span inner => exact ih site inner
    | named span qualifier ident args =>
      cases args with
      | cons arg args => cases qualifier <;> rfl
      | nil =>
        cases qualifier with
        | some q => rfl
        | none =>
          simp only [structLiteral?]
          have hd : plainDecl? site.bare.package ident.name = _ :=
            plainDecl?_bare site.package ident.name
          rw [hd]
          cases plainDecl? site.package ident.name with
          | none => rfl
          | some d => exact ih d.1 d.2
    | _ => rfl

/-- What would come after an error does not count. -/
lemma throw_bind_eq {α : Type} (e : ResolutionError) (f g : α → Resolve β) :
    (throw e >>= f) = (throw e >>= g) :=
  rfl

end

section

variable {names : KnownNames} {steps : Steps} (hs : steps.Bare)
include hs

/-- A type resolves alike in the package without its functions. -/
lemma typeOf_bare (site : Site) (type : TypeExpr) :
    typeOf names steps site.bare type = typeOf names steps site type := by
  induction type using TypeExpr.partsInduction with
  | paren span inner ih =>
    rw [typeOf, typeOf]
    exact ih
  | pointer span star elem ih => rw [typeOf, typeOf, ih]
  | slice span elem ih => rw [typeOf, typeOf, ih]
  | array span len elem ih => rw [typeOf, typeOf, ih]
  | map span key val ihkey ihval =>
    rw [typeOf, typeOf, ihkey, ihval]
    rfl
  | named span qualifier ident args =>
    rw [typeOf, typeOf]
    cases args with
    | cons arg args => rfl
    | nil => exact referentOf_bare names site qualifier ident _ fun p x => hs.decl p x _
  | _ =>
    rw [typeOf, typeOf]
    rfl

/-- A field is added alike in the package without its functions. -/
lemma addField_bare (site : Site) (out : List StructField) (f : Field) :
    addField names steps site.bare out f = addField names steps site out f := by
  rw [addField, addField, addEmbedded, addEmbedded]
  simp only [typeOf_bare hs]
  rfl

/-- A declaration resolves alike in the package without its functions. -/
lemma declOf_bare (p : Package) (x : String) (place : SourcePlace) :
    declOf names steps p.bare x place = declOf names steps p x place := by
  have htype : p.bare.type? x = p.type? x := rfl
  have hpath : p.bare.importPath = p.importPath := rfl
  rw [declOf, declOf, htype, hpath]
  congr 1
  funext structs
  by_cases hkey : structs.contains (declKey p.importPath x)
  · rw [if_pos hkey, if_pos hkey]
  rw [if_neg hkey, if_neg hkey]
  cases p.type? x with
  | none => rfl
  | some d =>
    by_cases hparams : d.spec.typeParams.isSome
    · simp only [hparams, if_true]
      exact throw_bind_eq ..
    simp only [hparams, Bool.false_eq_true, if_false]
    have hsite : Site.mk p.bare d.file = Site.bare ⟨p, d.file⟩ := rfl
    rw [hsite, typeOf_bare hs]
    refine structLiteral?_bare names place nameHopLimit ⟨p, d.file⟩ d.spec.type fun source => ?_
    simp only [structOf, hs.fields]

end

/-- The steps of a resolution do not look at functions. -/
lemma stepsWithin_bare (names : KnownNames) (n : Nat) : (stepsWithin names n).Bare := by
  induction n with
  | zero =>
    refine ⟨fun p x place => ?_, fun place source => ?_⟩
    · show declWithin names 0 p.bare x place = declWithin names 0 p x place
      rw [declWithin, declWithin]
    · show fieldsWithin names 0 place source.bare = fieldsWithin names 0 place source
      rw [fieldsWithin, fieldsWithin]
  | succ n ih =>
    refine ⟨fun p x place => declOf_bare ih p x place, fun place source => ?_⟩
    show source.fields.foldlM (addField names (stepsWithin names n) source.site.bare) [] =
      source.fields.foldlM (addField names (stepsWithin names n) source.site) []
    congr 1
    funext out f
    exact addField_bare ih source.site out f

/-- Types are resolved in a bare package as in the package itself. -/
theorem resolve_bare (names : KnownNames) (site : Site) (type : TypeExpr) :
    resolve names site.bare type = resolve names site type := by
  rw [resolve, resolve]
  congr 1
  funext n
  exact typeOf_bare (stepsWithin_bare names n) site type

end GoService.Resolution
