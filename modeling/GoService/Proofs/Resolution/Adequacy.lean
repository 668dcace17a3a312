import GoService.Proofs.Resolution.Growth

/-!
# Adequacy

What a derivation says the functions do: `Resolves.computes` is the converse of `typeOf_derives` and
of the lemmas beside it. So an answer that has a derivation in a state is what the functions give in
that state, with the same bound on the depth.
-/

namespace GoService.Resolution

open Data Package Source

/-- The functions answer a goal in a state, with a bound on the depth. -/
def Goal.Computes (names : KnownNames) (n : Nat) (k k' : Known) : Goal → Answer → Prop
  | .type site written, .type t =>
    outcome (typeOf names (stepsWithin names n) site written) k = (.ok t, k')
  | .decl p x place, .type t => outcome (declWithin names n p x place) k = (.ok t, k')
  | .literal place source, .fields fs =>
    outcome (fieldsWithin names n place source) k = (.ok fs, k')
  | .fields site written out, .fields fs =>
    outcome (written.foldlM (addField names (stepsWithin names n) site) out) k = (.ok fs, k')
  | .field site f out, .fields fs =>
    outcome (addField names (stepsWithin names n) site out f) k = (.ok fs, k')
  | .embedded key place, .fields fs =>
    outcome (embeddedFields names (stepsWithin names n) key place) k = (.ok fs, k')
  | _, _ => False

section

variable {k k₁ k' : Known} {ε α β : Type}

/-- A sequence goes on with the value that its first part gives. -/
lemma outcome_bind_of_ok {x : ExceptT ε (StateM Known) α} {f : α → ExceptT ε (StateM Known) β}
    {a : α} (hx : outcome x k = (.ok a, k₁)) : outcome (x >>= f) k = outcome (f a) k₁ := by
  rw [outcome_bind, hx]

/-- A sequence that gives a value does so through a value of its first part. -/
lemma exists_of_outcome_bind {x : ExceptT ε (StateM Known) α} {f : α → ExceptT ε (StateM Known) β}
    {b : β} (h : outcome (x >>= f) k = (.ok b, k')) :
    ∃ a k₁, outcome x k = (.ok a, k₁) ∧ outcome (f a) k₁ = (.ok b, k') := by
  obtain ⟨a, k₁, ho⟩ | ⟨e, k₁, ho⟩ := outcome_cases x k
  · rw [outcome_bind_of_ok ho] at h
    exact ⟨a, k₁, ho, h⟩
  · rw [outcome_bind, ho] at h
    cases h

/-- Other errors change nothing where a value is given. -/
lemma outcome_adapt_eq_ok {ε' : Type} {f : ε → ε'} {x : ExceptT ε (StateM Known) α} {a : α} :
    outcome (ExceptT.adapt f x) k = (.ok a, k') ↔ outcome x k = (.ok a, k') := by
  rw [outcome_adapt]
  obtain ⟨b, k₁, ho⟩ | ⟨e, k₁, ho⟩ := outcome_cases x k
  · rw [ho]
    constructor
    · intro h
      cases h
      rfl
    · intro h
      cases h
      rfl
  · rw [ho]
    constructor <;> intro h <;> cases h

/-- Looking at the state leaves it as it is. -/
lemma outcome_get_bind (f : Known → ExceptT ε (StateM Known) β) :
    outcome (get >>= f) k = outcome (f k) k :=
  outcome_bind_of_ok rfl

/-- Looking at the table leaves the state as it is. -/
lemma outcome_structsNow_bind (f : StructTable → Resolve β) :
    outcome (structsNow >>= f) k = outcome (f k.structs) k :=
  outcome_bind_of_ok rfl

/-- Changing the table changes nothing else of the state. -/
lemma outcome_modifyStructs_bind (g : StructTable → StructTable) (f : Unit → Resolve β) :
    outcome (modifyStructs g >>= f) k = outcome (f ⟨⟩) (k.withStructs (g k.structs)) :=
  outcome_bind_of_ok rfl

/-- A computation between entering and leaving ends well if it does after entering. -/
lemma outcome_bracketed_of_ok {enter leave : Known → Known} {x : Resolve α} {a : α}
    (hx : outcome x (enter k) = (.ok a, k₁)) :
    outcome (bracketed enter leave x) k = (.ok a, leave k₁) := by
  rw [outcome_bracketed, hx]

end

section

variable {names : KnownNames} {k k₁ k₂ k' : Known} {steps : Steps}

/-- A declaration that is opened is read as the struct literal behind it says. -/
lemma outcome_declOf_of_opens {p : Package} {x : String} {place : SourcePlace} {d : DeclaredType}
    {source : Option StructLiteral} (ho : Opens names k p x place d source k₁) :
    outcome (declOf names steps p x place) k =
      outcome (match source with
        | some source => do
          structOf steps p x d place source
          return .struct (keyIn p x)
        | none => do
          if keyIn p x ∈ (← get).trail.expanding then
            throw (.unsupported place (.recursive (keyIn p x)))
          bracketed (·.expand (keyIn p x)) Known.leaveExpansion
            (typeOf names steps ⟨p, d.file⟩ d.spec.type)) k₁ := by
  have hfresh : ¬ k.structs.contains (declKey p.importPath x) := ho.fresh
  have hplain : ¬ d.spec.typeParams.isSome := by
    rw [ho.plain]
    exact Bool.false_ne_true
  rw [declOf, outcome_structsNow_bind, if_neg hfresh, ho.declared]
  simp only [hplain, Bool.false_eq_true, if_false]
  rw [outcome_bind_of_ok ho.search]
  rfl

/-- A struct whose fields are had is completed with them. -/
lemma outcome_structOf {p : Package} {x : String} {d : DeclaredType} {place : SourcePlace}
    {source : StructLiteral} {fs : List StructField}
    (hfs : outcome (steps.fields place source) (k.enterStruct (keyIn p x)) = (.ok fs, k₂)) :
    outcome (structOf steps p x d place source) k =
      (.ok ⟨⟩, k₂.completeStruct k (keyIn p x) (declaredStruct p x d fs)) := by
  rw [structOf]
  simp only [outcome_structsNow_bind, outcome_modifyStructs_bind, outcome_get_bind]
  rw [outcome_bind, outcome_tryCatch, outcome_bracketed_of_ok hfs]
  rfl

/-- An embedded struct that is read again has the fields of the literal behind its declaration. -/
lemma outcome_embeddedFields_of_reopens {key : String} {place : SourcePlace}
    {source : StructLiteral} (ho : Reopens names k key place (some source) k₁) :
    outcome (embeddedFields names steps key place) k =
      outcome (bracketed (·.embed key) Known.leaveEmbedding (steps.fields place source)) k₁ := by
  obtain ⟨site, type, hd, hsearch⟩ := ho.search
  rw [embeddedFields, outcome_get_bind, if_neg ho.outside]
  simp only [outcome_structsNow_bind, ho.unfinished, inlineUnfinished, outcome_get_bind, hd]
  rw [outcome_bind_of_ok hsearch]

end

/-- What is derived is what the resolver computes. -/
theorem Resolves.computes {names : KnownNames} {n : Nat} {k k' : Known} {g : Goal} {a : Answer}
    (h : Resolves names n k g a k') : g.Computes names n k k' a := by
  induction h with
  | paren _ ih =>
    rw [Goal.Computes, typeOf]
    exact ih
  | pointer _ ih =>
    rw [Goal.Computes, typeOf]
    exact outcome_bind_of_ok ih
  | slice _ ih =>
    rw [Goal.Computes, typeOf]
    exact outcome_bind_of_ok ih
  | array _ ih =>
    rw [Goal.Computes, typeOf]
    exact outcome_bind_of_ok ih
  | map _ _ ihkey ihval =>
    rw [Goal.Computes, typeOf]
    exact (outcome_bind_of_ok rfl).trans
      ((outcome_bind_of_ok ihkey).trans (outcome_bind_of_ok ihval))
  | any => rfl
  | known hname =>
    rw [Goal.Computes, typeOf]
    exact outcome_bind_of_ok hname
  | declared hname _ ih =>
    rw [Goal.Computes, typeOf]
    exact (outcome_bind_of_ok hname).trans ih
  | @entered n k p x place hkey =>
    have hkey' : k.structs.contains (declKey p.importPath x) := hkey
    rw [Goal.Computes, declWithin, declOf, outcome_structsNow_bind, if_pos hkey']
    rfl
  | struct ho _ ih =>
    rw [Goal.Computes, declWithin, outcome_declOf_of_opens ho]
    exact outcome_bind_of_ok (outcome_structOf ih)
  | expand ho hout _ ih =>
    rw [Goal.Computes, declWithin, outcome_declOf_of_opens ho]
    rw [outcome_get_bind, if_neg hout]
    exact outcome_bracketed_of_ok ih
  | literal _ ih =>
    rw [Goal.Computes, fieldsWithin]
    exact ih
  | nil => rfl
  | cons _ _ ihf ihfs =>
    rw [Goal.Computes, List.foldlM_cons]
    exact (outcome_bind_of_ok ihf).trans ihfs
  | skipped hskip =>
    rw [Goal.Computes, addField, if_pos hskip]
    rfl
  | named hskip hemb _ ih =>
    rw [Goal.Computes, addField, if_neg hskip, if_neg hemb]
    exact outcome_bind_of_ok ih
  | tagged hskip hemb htag _ ih =>
    rw [Goal.Computes, addField, if_neg hskip, if_pos hemb, addEmbedded, if_pos htag]
    exact outcome_bind_of_ok ih
  | inlined hskip hemb htag _ _ ih ihkey =>
    rw [Goal.Computes, addField, if_neg hskip, if_pos hemb, addEmbedded, if_neg htag]
    exact (outcome_bind_of_ok ih).trans (outcome_bind_of_ok ihkey)
  | @wrapped f t site n k k' out hskip hemb htag ht _ ih =>
    rw [Goal.Computes, addField, if_neg hskip, if_pos hemb, addEmbedded, if_neg htag]
    refine (outcome_bind_of_ok ih).trans ?_
    cases t with
    | struct key => exact absurd rfl (ht key)
    | _ => rfl
  | finished hout hs =>
    rw [Goal.Computes, embeddedFields, outcome_get_bind, if_neg hout]
    simp only [outcome_structsNow_bind, hs]
    rfl
  | unfinished ho _ ih =>
    rw [Goal.Computes, outcome_embeddedFields_of_reopens ho]
    exact outcome_bracketed_of_ok ih

end GoService.Resolution
