import GoService.Proofs.Resolution.Outcome
import GoService.Resolution.Types

/-!
# Derivations

A resolution as a derivation. `Resolves` says which answer a goal has, and `Fails` which error, in a
state and with a bound on the depth, and in which state that leaves; there is one rule for each way
in which the functions can end. `typeOf_derives`, `declWithin_derives` and `fieldsWithin_derives`
say that the functions do nothing else. A property of resolutions is an induction on derivations.
-/

namespace GoService.Resolution

open Data Package Source

/-- What a resolution can be asked for. -/
inductive Goal where
  /-- The type that is written in a file. -/
  | type (site : Site) (type : TypeExpr)
  /-- The type that is declared in a package. -/
  | decl (package : Package) (name : String) (place : SourcePlace)
  /-- The fields of a struct literal, one step further down. -/
  | literal (place : SourcePlace) (source : StructLiteral)
  /-- The fields that more fields of a literal add to those there are. -/
  | fields (site : Site) (fields : List Field) (out : List StructField)
  /-- The fields that a field of a literal adds to those there are. -/
  | field (site : Site) (field : Field) (out : List StructField)
  /-- The fields of an embedded struct. -/
  | embedded (key : String) (place : SourcePlace)

/-- What a resolution can answer. -/
inductive Answer where
  | type (type : DataType)
  | fields (fields : List StructField)

/-- The key of a name that a package declares. -/
def keyIn (p : Package) (name : String) : String :=
  declKey p.importPath name

/-- The state in which the fields of a struct are worked out. -/
def Known.enterStruct (k : Known) (key : String) : Known :=
  (k.withStructs (k.structs.enter key)).withEmbedding [key]

/-- The state `k` once a struct that was entered in the state `outer` has its fields. -/
def Known.completeStruct (k outer : Known) (key : String) (s : Struct) : Known :=
  (k.withEmbedding outer.trail.embedding).withStructs (k.structs.complete key s)

/-- The state `k` once a struct that was entered in the state `outer` has failed. -/
def Known.dropStruct (k outer : Known) : Known :=
  (k.withEmbedding outer.trail.embedding).withStructs (k.structs.rewind outer.structs.mark)

section Rules

variable (names : KnownNames)

/-- The types behind which nothing is looked for, with what is wrong with them. -/
inductive Rejected (site : Site) : TypeExpr → ResolutionError → Prop
  | chan : Rejected site (.chan span use elem)
      (.unsupported (site.placeOf span) (.channel (site.text span)))
  | func : Rejected site (.func span signature)
      (.unsupported (site.placeOf span) (.function (site.text span)))
  | interface : elems ≠ [] → Rejected site (.interface span lBrace elems rBrace)
      (.unsupported (site.placeOf span) .methods)
  | struct : Rejected site (.struct span lBrace fields rBrace)
      (.unresolved (site.placeOf span) "struct\x7b...\x7d" .canonicalName)
  | bad : Rejected site (.bad span place)
      (.unresolved (site.placeOf span) (site.text span) .wellFormedType)
  | instantiation : args ≠ [] → Rejected site (.named span qualifier ident args)
      (.unsupported (site.placeOf span) (.instantiation (site.text span)))

/-- How a declaration is read when its key is not in the table: no type parameters, and the struct
literal behind it if there is one. -/
structure Opens (k : Known) (p : Package) (name : String) (place : SourcePlace) (d : DeclaredType)
    (source : Option StructLiteral) (k' : Known) : Prop where
  fresh : ¬ k.structs.contains (keyIn p name)
  declared : p.type? name = some d
  plain : d.spec.typeParams = none
  search : outcome (structLiteral? names place nameHopLimit ⟨p, d.file⟩ d.spec.type) k =
    (.ok source, k')

/-- How an embedded struct is read again: it is not being embedded already, its fields are not
known, and its declaration leads to a struct literal or not. -/
structure Reopens (k : Known) (key : String) (place : SourcePlace)
    (source : Option StructLiteral) (k' : Known) : Prop where
  outside : key ∉ k.trail.embedding
  unfinished : k.structs.get? key = none
  search : ∃ site type, knownDecl? k.packages key = some (site, type) ∧
    outcome (structLiteral? names place nameHopLimit site type) k = (.ok source, k')

/-- A goal has an answer. -/
inductive Resolves : Nat → Known → Goal → Answer → Known → Prop
  | paren (h : Resolves n k (.type site nested) (.type t) k') :
      Resolves n k (.type site (.paren span nested)) (.type t) k'
  | pointer (h : Resolves n k (.type site elem) (.type t) k') :
      Resolves n k (.type site (.pointer span asterisk elem)) (.type (.pointer t)) k'
  | slice (h : Resolves n k (.type site elem) (.type t) k') :
      Resolves n k (.type site (.slice span elem)) (.type (.array t)) k'
  | array (h : Resolves n k (.type site elem) (.type t) k') :
      Resolves n k (.type site (.array span len elem)) (.type (.array t)) k'
  | map (hkey : Resolves n k (.type site key) (.type (.builtin b)) k₁)
      (hval : Resolves n k₁ (.type site val) (.type t) k') :
      Resolves n k (.type site (.map span key val)) (.type (.map b t)) k'
  | any : Resolves n k (.type site (.interface span lBrace [] rBrace)) (.type (.wellKnown .any)) k
  | known (hname : outcome (referentOf names site qualifier ident (site.placeOf span)) k =
        (.ok (.type t), k')) :
      Resolves n k (.type site (.named span qualifier ident [])) (.type t) k'
  | declared (hname : outcome (referentOf names site qualifier ident (site.placeOf span)) k =
        (.ok (.declared p x), k₁))
      (h : Resolves n k₁ (.decl p x (site.placeOf span)) (.type t) k') :
      Resolves n k (.type site (.named span qualifier ident [])) (.type t) k'
  | entered (hkey : k.structs.contains (keyIn p x)) :
      Resolves (n + 1) k (.decl p x place) (.type (.struct (keyIn p x))) k
  | struct (ho : Opens names k p x place d (some source) k₁)
      (h : Resolves n (k₁.enterStruct (keyIn p x)) (.literal place source) (.fields fs) k₂) :
      Resolves (n + 1) k (.decl p x place) (.type (.struct (keyIn p x)))
        (k₂.completeStruct k₁ (keyIn p x) (declaredStruct p x d fs))
  | expand (ho : Opens names k p x place d none k₁) (hout : keyIn p x ∉ k₁.trail.expanding)
      (h : Resolves n (k₁.expand (keyIn p x)) (.type ⟨p, d.file⟩ d.spec.type) (.type t) k₂) :
      Resolves (n + 1) k (.decl p x place) (.type t) k₂.leaveExpansion
  | literal (h : Resolves n k (.fields source.site source.fields []) (.fields fs) k') :
      Resolves (n + 1) k (.literal place source) (.fields fs) k'
  | nil : Resolves n k (.fields site [] out) (.fields out) k
  | cons (hf : Resolves n k (.field site f out) (.fields out₁) k₁)
      (hfs : Resolves n k₁ (.fields site fs out₁) (.fields out₂) k') :
      Resolves n k (.fields site (f :: fs) out) (.fields out₂) k'
  | skipped (hskip : (fieldTags f).isJsonSkipped) : Resolves n k (.field site f out) (.fields out) k
  | named (hskip : ¬ (fieldTags f).isJsonSkipped) (hemb : ¬ f.embedded)
      (h : Resolves n k (.type site f.type) (.type t) k') :
      Resolves n k (.field site f out) (.fields ((namedFields f t).foldl putField out)) k'
  | tagged (hskip : ¬ (fieldTags f).isJsonSkipped) (hemb : f.embedded)
      (htag : (fieldTags f).jsonName?.isSome)
      (h : Resolves n k (.type site f.type) (.type t) k') :
      Resolves n k (.field site f out) (.fields (putField out (embeddedField site f t))) k'
  | inlined (hskip : ¬ (fieldTags f).isJsonSkipped) (hemb : f.embedded)
      (htag : ¬ (fieldTags f).jsonName?.isSome)
      (h : Resolves n k (.type site (behindPointer false f.type).1) (.type (.struct key)) k₁)
      (hkey : Resolves n k₁ (.embedded key (site.placeOf f.span)) (.fields fs) k') :
      Resolves n k (.field site f out) (.fields (fs.foldl putField out)) k'
  | wrapped (hskip : ¬ (fieldTags f).isJsonSkipped) (hemb : f.embedded)
      (htag : ¬ (fieldTags f).jsonName?.isSome) (ht : ∀ key, t ≠ .struct key)
      (h : Resolves n k (.type site (behindPointer false f.type).1) (.type t) k') :
      Resolves n k (.field site f out) (.fields (putField out (embeddedField site f
        (if (behindPointer false f.type).2 then .pointer t else t)))) k'
  | finished (hout : key ∉ k.trail.embedding) (hs : k.structs.get? key = some s) :
      Resolves n k (.embedded key place) (.fields s.fields) k
  | unfinished (ho : Reopens names k key place (some source) k₁)
      (h : Resolves n (k₁.embed key) (.literal place source) (.fields fs) k₂) :
      Resolves n k (.embedded key place) (.fields fs) k₂.leaveEmbedding

/-- A goal ends in an error. -/
inductive Fails : Nat → Known → Goal → ResolutionError → Known → Prop
  | paren (h : Fails n k (.type site nested) e k') :
      Fails n k (.type site (.paren span nested)) e k'
  | pointer (h : Fails n k (.type site elem) e k') :
      Fails n k (.type site (.pointer span asterisk elem)) e k'
  | slice (h : Fails n k (.type site elem) e k') : Fails n k (.type site (.slice span elem)) e k'
  | array (h : Fails n k (.type site elem) e k') :
      Fails n k (.type site (.array span len elem)) e k'
  | mapKey (h : Fails n k (.type site key) e k') : Fails n k (.type site (.map span key val)) e k'
  | mapKeyKind (h : Resolves names n k (.type site key) (.type t) k') (ht : ∀ b, t ≠ .builtin b) :
      Fails n k (.type site (.map span key val)) (.mapKey (site.placeOf span) t)
        (k'.withStructs (k'.structs.rewind k.structs.mark))
  | mapValue (hkey : Resolves names n k (.type site key) (.type (.builtin b)) k₁)
      (hval : Fails n k₁ (.type site val) e k') : Fails n k (.type site (.map span key val)) e k'
  | rejected (h : Rejected site type e) : Fails n k (.type site type) e k
  | nameless (hname : outcome (referentOf names site qualifier ident (site.placeOf span)) k =
        (.error e, k')) :
      Fails n k (.type site (.named span qualifier ident [])) e k'
  | declared (hname : outcome (referentOf names site qualifier ident (site.placeOf span)) k =
        (.ok (.declared p x), k₁))
      (h : Fails n k₁ (.decl p x (site.placeOf span)) e k') :
      Fails n k (.type site (.named span qualifier ident [])) e k'
  | declDepth : Fails 0 k (.decl p x place) (.exhausted place) k
  | undeclared (hfresh : ¬ k.structs.contains (keyIn p x)) (hd : p.type? x = none) :
      Fails (n + 1) k (.decl p x place) (.unresolved place (keyIn p x) .declaration) k
  | generic (hfresh : ¬ k.structs.contains (keyIn p x)) (hd : p.type? x = some d)
      (hparams : d.spec.typeParams.isSome) :
      Fails (n + 1) k (.decl p x place) (.unsupported place (.generic (keyIn p x))) k
  | search (hfresh : ¬ k.structs.contains (keyIn p x)) (hd : p.type? x = some d)
      (hplain : d.spec.typeParams = none)
      (hsearch : outcome (structLiteral? names place nameHopLimit ⟨p, d.file⟩ d.spec.type) k =
        (.error e, k')) :
      Fails (n + 1) k (.decl p x place) e k'
  | struct (ho : Opens names k p x place d (some source) k₁)
      (h : Fails n (k₁.enterStruct (keyIn p x)) (.literal place source) e k₂) :
      Fails (n + 1) k (.decl p x place) e (k₂.dropStruct k₁)
  | recursive (ho : Opens names k p x place d none k') (hin : keyIn p x ∈ k'.trail.expanding) :
      Fails (n + 1) k (.decl p x place) (.unsupported place (.recursive (keyIn p x))) k'
  | expand (ho : Opens names k p x place d none k₁) (hout : keyIn p x ∉ k₁.trail.expanding)
      (h : Fails n (k₁.expand (keyIn p x)) (.type ⟨p, d.file⟩ d.spec.type) e k₂) :
      Fails (n + 1) k (.decl p x place) e k₂.leaveExpansion
  | literalDepth : Fails 0 k (.literal place source) (.exhausted place) k
  | literal (h : Fails n k (.fields source.site source.fields []) e k') :
      Fails (n + 1) k (.literal place source) e k'
  | head (h : Fails n k (.field site f out) e k') : Fails n k (.fields site (f :: fs) out) e k'
  | tail (hf : Resolves names n k (.field site f out) (.fields out₁) k₁)
      (hfs : Fails n k₁ (.fields site fs out₁) e k') : Fails n k (.fields site (f :: fs) out) e k'
  | named (hskip : ¬ (fieldTags f).isJsonSkipped) (hemb : ¬ f.embedded)
      (h : Fails n k (.type site f.type) e k') : Fails n k (.field site f out) e k'
  | tagged (hskip : ¬ (fieldTags f).isJsonSkipped) (hemb : f.embedded)
      (htag : (fieldTags f).jsonName?.isSome)
      (h : Fails n k (.type site f.type) e k') : Fails n k (.field site f out) e k'
  | embeddedType (hskip : ¬ (fieldTags f).isJsonSkipped) (hemb : f.embedded)
      (htag : ¬ (fieldTags f).jsonName?.isSome)
      (h : Fails n k (.type site (behindPointer false f.type).1) e k') :
      Fails n k (.field site f out) e k'
  | inlined (hskip : ¬ (fieldTags f).isJsonSkipped) (hemb : f.embedded)
      (htag : ¬ (fieldTags f).jsonName?.isSome)
      (h : Resolves names n k (.type site (behindPointer false f.type).1) (.type (.struct key)) k₁)
      (hkey : Fails n k₁ (.embedded key (site.placeOf f.span)) e k') :
      Fails n k (.field site f out) e k'
  | cyclic (hin : key ∈ k.trail.embedding) :
      Fails n k (.embedded key place) (.cyclicEmbedding place key) k
  | unknown (hout : key ∉ k.trail.embedding) (hs : k.structs.get? key = none)
      (hd : knownDecl? k.packages key = none) :
      Fails n k (.embedded key place) (.cyclicEmbedding place key) k
  | research (hout : key ∉ k.trail.embedding) (hs : k.structs.get? key = none)
      (hd : knownDecl? k.packages key = some (site, type))
      (hsearch : outcome (structLiteral? names place nameHopLimit site type) k = (.error e, k')) :
      Fails n k (.embedded key place) e k'
  | bodiless (ho : Reopens names k key place none k') :
      Fails n k (.embedded key place) (.cyclicEmbedding place key) k'
  | unfinished (ho : Reopens names k key place (some source) k₁)
      (h : Fails n (k₁.embed key) (.literal place source) e k₂) :
      Fails n k (.embedded key place) e k₂.leaveEmbedding

end Rules

/-! ## The functions follow the rules -/

/-- A computation ends only as derivations for a goal say. -/
def Derives (names : KnownNames) (n : Nat) (x : Resolve α) (g : Goal) (answer : α → Answer) :
    Prop :=
  ∀ k, Ends x k (fun a k' => Resolves names n k g (answer a) k') fun e k' => Fails names n k g e k'

/-- Steps that end only as derivations say. -/
structure Steps.Derive (names : KnownNames) (n : Nat) (steps : Steps) : Prop where
  decl : ∀ p x place, Derives names n (steps.decl p x place) (.decl p x place) .type
  fields : ∀ place source, Derives names n (steps.fields place source) (.literal place source)
    .fields

section Functions

variable {names : KnownNames} {n : Nat} {steps : Steps} (hs : steps.Derive names n)
include hs

/-- Types by recursion on them. -/
lemma typeOf_derives (site : Site) (type : TypeExpr) :
    Derives names n (typeOf names steps site type) (.type site type) .type := by
  intro k
  induction type using TypeExpr.partsInduction generalizing k with
  | paren span inner ih =>
    rw [typeOf]
    exact (ih k).imp .paren .paren
  | pointer span star elem ih =>
    rw [typeOf]
    exact .bind ((ih k).imp (fun h => .pure h.pointer) .pointer)
  | slice span elem ih =>
    rw [typeOf]
    exact .bind ((ih k).imp (fun h => .pure h.slice) .slice)
  | array span len elem ih =>
    rw [typeOf]
    exact .bind ((ih k).imp (fun h => .pure h.array) .array)
  | map span key val ihkey ihval =>
    rw [typeOf]
    refine .bind (.structsNow (.bind ((ihkey k).imp (fun {t k₁} hkey => ?_) .mapKey)))
    -- any other key is an error, told when the table has been rewound
    cases t with
    | builtin b => exact .bind ((ihval k₁).imp (fun h => .pure (hkey.map h)) (.mapValue hkey))
    | _ => exact .bind (.modifyStructs (.throw (.mapKeyKind hkey nofun)))
  | chan span use elem =>
    rw [typeOf]
    exact .throw (.rejected .chan)
  | func span signature =>
    rw [typeOf]
    exact .throw (.rejected .func)
  | interface span lBrace elems rBrace =>
    rw [typeOf]
    cases elems with
    | nil => exact .pure .any
    | cons elem elems => exact .throw (.rejected (.interface (List.cons_ne_nil _ _)))
  | struct span lBrace fields rBrace =>
    rw [typeOf]
    exact .throw (.rejected .struct)
  | bad span place =>
    rw [typeOf]
    exact .throw (.rejected .bad)
  | named span qualifier ident args =>
    rw [typeOf]
    cases args with
    | cons arg args => exact .throw (.rejected (.instantiation (List.cons_ne_nil _ _)))
    | nil =>
      refine .bind ((Ends.of_outcome _ k).imp (fun {r k₁} hname => ?_) .nameless)
      cases r with
      | type t => exact .pure (.known hname)
      | declared p x => exact (hs.decl p x _ k₁).imp (.declared hname) (.declared hname)

/-- Looking for embedded fields is derived. -/
lemma embeddedFields_derives (key : String) (place : SourcePlace) :
    Derives names n (embeddedFields names steps key place) (.embedded key place) .fields := by
  intro k
  rw [embeddedFields]
  refine .bind (.get ?_)
  by_cases hout : key ∈ k.trail.embedding
  · rw [if_pos hout]
    exact .throw (.cyclic hout)
  rw [if_neg hout]
  refine .bind (.structsNow ?_)
  cases hs? : k.structs.get? key with
  | some s => exact .pure (.finished hout hs?)
  | none =>
    simp only [inlineUnfinished]
    refine .bind (.get ?_)
    cases hd : knownDecl? k.packages key with
    | none => exact .throw (.unknown hout hs? hd)
    | some d =>
      obtain ⟨site, type⟩ := d
      refine .bind ((Ends.of_outcome _ k).imp (fun {source k₁} hsearch => ?_)
        (.research hout hs? hd))
      have ho : Reopens names k key place source k₁ := ⟨hout, hs?, site, type, hd, hsearch⟩
      cases source with
      | none => exact .throw (.bodiless ho)
      | some source =>
        exact .bracketed ((hs.fields place source _).imp (.unfinished ho) (.unfinished ho))

/-- Adding a field is derived. -/
lemma addField_derives (site : Site) (f : Field) (out : List StructField) :
    Derives names n (addField names steps site out f) (.field site f out) .fields := by
  intro k
  rw [addField]
  by_cases hskip : (fieldTags f).isJsonSkipped
  · rw [if_pos hskip]
    exact .pure (.skipped hskip)
  rw [if_neg hskip]
  by_cases hemb : f.embedded
  · rw [if_pos hemb, addEmbedded]
    by_cases htag : (fieldTags f).jsonName?.isSome
    · rw [if_pos htag]
      exact .bind ((typeOf_derives hs site f.type k).imp
        (fun h => .pure (.tagged hskip hemb htag h)) (.tagged hskip hemb htag))
    rw [if_neg htag]
    refine .bind ((typeOf_derives hs site _ k).imp (fun {t k₁} h => ?_)
      (.embeddedType hskip hemb htag))
    cases t with
    | struct key =>
      exact .bind ((embeddedFields_derives hs key _ k₁).imp
        (fun hkey => .pure (.inlined hskip hemb htag h hkey)) (.inlined hskip hemb htag h))
    | _ => exact .pure (.wrapped hskip hemb htag nofun h)
  · rw [if_neg hemb]
    exact .bind ((typeOf_derives hs site f.type k).imp
      (fun h => .pure (.named hskip hemb h)) (.named hskip hemb))

/-- Adding fields one after another is derived. -/
lemma addFields_derives (site : Site) (fields : List Field) (out : List StructField) :
    Derives names n (fields.foldlM (addField names steps site) out) (.fields site fields out)
      .fields := by
  intro k
  induction fields generalizing out k with
  | nil => exact .pure .nil
  | cons f fields ih =>
    rw [List.foldlM_cons]
    exact .bind ((addField_derives hs site f out k).imp
      (fun {out₁ k₁} h => (ih out₁ k₁).imp (.cons h) (.tail h)) .head)

/-- Resolving a struct that was opened ends as derived. -/
lemma structOf_ends {k k₁ : Known} {p : Package} {x : String} {place : SourcePlace}
    {d : DeclaredType} {source : StructLiteral}
    (ho : Opens names k p x place d (some source) k₁) :
    Ends (structOf steps p x d place source) k₁
      (fun _ k' => Resolves names (n + 1) k (.decl p x place) (.type (.struct (keyIn p x))) k')
      fun e k' => Fails names (n + 1) k (.decl p x place) e k' := by
  rw [structOf]
  refine .bind (.structsNow (.bind (.modifyStructs (.bind (.get (.bind (.tryCatch ?_)))))))
  refine .bracketed ((hs.fields place source (k₁.enterStruct (keyIn p x))).imp ?_ ?_)
  · intro fs k₂ h
    have hr := Resolves.struct ho h
    exact .modifyStructs hr
  · intro e k₂ h
    have hf := Fails.struct ho h
    exact .bind (.modifyStructs (.throw hf))

/-- Resolving a declaration is derived. -/
lemma declOf_derives (p : Package) (x : String) (place : SourcePlace) :
    Derives names (n + 1) (declOf names steps p x place) (.decl p x place) .type := by
  intro k
  rw [declOf]
  refine .bind (.structsNow ?_)
  by_cases hkey : k.structs.contains (keyIn p x)
  · have hkey' : k.structs.contains (declKey p.importPath x) := hkey
    rw [if_pos hkey']
    exact .pure (.entered hkey)
  have hkey' : ¬ k.structs.contains (declKey p.importPath x) := hkey
  rw [if_neg hkey']
  cases hd : p.type? x with
  | none => exact .throw (.undeclared hkey hd)
  | some d =>
    cases hparams : d.spec.typeParams with
    | some params =>
      have hsome : d.spec.typeParams.isSome := by rw [hparams]; rfl
      simp only [hsome, if_true]
      exact .throw (.generic hkey hd hsome)
    | none =>
      have hnone : ¬ d.spec.typeParams.isSome := by rw [hparams]; exact Bool.false_ne_true
      simp only [hnone]
      refine .bind ((Ends.of_outcome _ k).imp (fun {source k₁} hsearch => ?_)
        (.search hkey hd hparams))
      have ho : Opens names k p x place d source k₁ := ⟨hkey, hd, hparams, hsearch⟩
      cases source with
      | some source => exact .bind ((structOf_ends hs ho).imp (fun h => .pure h) id)
      | none =>
        refine .bind (.get ?_)
        by_cases hin : keyIn p x ∈ k₁.trail.expanding
        · have hin' : declKey p.importPath x ∈ k₁.trail.expanding := hin
          rw [if_pos hin']
          exact .throw (.recursive ho hin)
        have hin' : declKey p.importPath x ∉ k₁.trail.expanding := hin
        rw [if_neg hin']
        exact .bracketed ((typeOf_derives hs _ _ _).imp (.expand ho hin) (.expand ho hin))

end Functions

/-- The steps of every depth end only as derivations say. -/
theorem stepsWithin_derive (names : KnownNames) (n : Nat) :
    (stepsWithin names n).Derive names n := by
  induction n with
  | zero =>
    refine ⟨fun p x place k => ?_, fun place source k => ?_⟩
    · exact .throw .declDepth
    · exact .throw .literalDepth
  | succ n ih =>
    refine ⟨fun p x place k => ?_, fun place source k => ?_⟩
    · exact declOf_derives ih p x place k
    · exact (addFields_derives ih source.site source.fields [] k).imp .literal .literal

end GoService.Resolution
