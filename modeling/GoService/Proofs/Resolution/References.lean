import GoService.Proofs.Resolution.Meaning
import Mathlib.Logic.Relation

/-!
# References

Which declarations refer to which. `Mentions` says what a written type names, `Refers` what a
declaration refers to in its type or in the fields of the struct literal behind it, and `Leads`
follows references as far as some declarations at which it stops. `Supported` are the types and
declarations that are written in forms which have a resolved form.

A type that stands for a struct leads to it through declarations that are no structs
(`Means.reaches`), so embedding a struct is a special case of referring to it (`Embeds.leads`).
-/

namespace GoService.Resolution

open Data Package Source Relation

section

variable (c : Catalog) (names : KnownNames)

/-- A type written in a file names the declared type at a key. -/
inductive Mentions (site : Site) : TypeExpr → String → Prop
  | paren (h : Mentions site nested key) : Mentions site (.paren span nested) key
  | pointer (h : Mentions site elem key) : Mentions site (.pointer span asterisk elem) key
  | slice (h : Mentions site elem key) : Mentions site (.slice span elem) key
  | array (h : Mentions site elem key) : Mentions site (.array span len elem) key
  | mapKey (h : Mentions site dom key) : Mentions site (.map span dom val) key
  | mapValue (h : Mentions site val key) : Mentions site (.map span dom val) key
  | named (hname : referentIn c names site qualifier ident = some (.declared p x)) :
      Mentions site (.named span qualifier ident []) (keyIn p x)

/-- A field that is not skipped mentions a key in its type. -/
def FieldMentions (site : Site) (f : Field) (key : String) : Prop :=
  ¬ (fieldTags f).isJsonSkipped ∧ Mentions c names site f.type key

/-- The declaration at the first key refers to the one at the second: in the type for which it
stands, or in a field of the struct literal behind it. -/
inductive Refers : String → String → Prop
  | type (hd : Declares c names p x d none) (h : Mentions c names ⟨p, d.file⟩ d.spec.type key) :
      Refers (keyIn p x) key
  | field (hd : Declares c names p x d (some source)) (hf : f ∈ source.fields)
      (h : FieldMentions c names source.site f key) : Refers (keyIn p x) key

/-- The struct at the first key embeds the one at the second. -/
inductive Embeds : String → String → Prop
  | field (hd : Declares c names p x d (some source)) (hf : f ∈ source.fields)
      (hskip : ¬ (fieldTags f).isJsonSkipped) (hemb : f.embedded)
      (htag : ¬ (fieldTags f).jsonName?.isSome)
      (h : Means c names source.site (behindPointer false f.type).1 (.struct key)) :
      Embeds (keyIn p x) key

/-- The declaration at a key is a struct. -/
def IsStruct (key : String) : Prop :=
  ∃ p x d source, key = keyIn p x ∧ Declares c names p x d (some source)

/-- The declaration at a key has no struct literal behind it. -/
def IsPlain (key : String) : Prop :=
  ∃ p x d, key = keyIn p x ∧ Declares c names p x d none

/-- The first key refers to the second, and references do not stop at the first. -/
def Leads (stop : String → Prop) (key key' : String) : Prop :=
  ¬ stop key ∧ Refers c names key key'

/-- A type is written in forms that have a resolved form. -/
inductive Supported (site : Site) : TypeExpr → Prop
  | paren (h : Supported site nested) : Supported site (.paren span nested)
  | pointer (h : Supported site elem) : Supported site (.pointer span asterisk elem)
  | slice (h : Supported site elem) : Supported site (.slice span elem)
  | array (h : Supported site elem) : Supported site (.array span len elem)
  | map (hkey : Supported site key) (hb : Means c names site key (.builtin b))
      (hval : Supported site val) : Supported site (.map span key val)
  | any : Supported site (.interface span lBrace [] rBrace)
  | named (hname : referentIn c names site qualifier ident = some r) :
      Supported site (.named span qualifier ident [])

/-- The declaration at a key has no type parameters, and the type for which it stands or the fields
of the struct literal behind it are written in forms that have a resolved form. -/
inductive SupportedAt : String → Prop
  | type (hd : Declares c names p x d none) (hplain : d.spec.typeParams = none)
      (h : Supported c names ⟨p, d.file⟩ d.spec.type) : SupportedAt (keyIn p x)
  | struct (hd : Declares c names p x d (some source)) (hplain : d.spec.typeParams = none)
      (h : ∀ f ∈ source.fields, ¬ (fieldTags f).isJsonSkipped →
        Supported c names source.site f.type) :
      SupportedAt (keyIn p x)

end

variable {c : Catalog} {names : KnownNames}

/-! ## Behind a pointer -/

/-- A type mentions what it mentions without its pointer. -/
lemma mentions_behindPointer {site : Site} {pointer : Bool} {type : TypeExpr} {key : String} :
    Mentions c names site (behindPointer pointer type).1 key ↔ Mentions c names site type key := by
  induction type using TypeExpr.partsInduction generalizing pointer with
  | paren span inner ih =>
    rw [behindPointer, ih]
    constructor
    · exact .paren
    · intro h
      cases h with
      | paren h => exact h
  | pointer span star elem ih =>
    rw [behindPointer]
    split
    · rfl
    · rw [ih]
      constructor
      · exact .pointer
      · intro h
        cases h with
        | pointer h => exact h
  | _ => rfl

/-- A supported type is supported without its pointer. -/
lemma Supported.behindPointer {site : Site} {type : TypeExpr} (h : Supported c names site type)
    (pointer : Bool) : Supported c names site (behindPointer pointer type).1 := by
  induction h generalizing pointer with
  | paren _ ih => exact ih pointer
  | pointer h ih =>
    rw [Resolution.behindPointer]
    split
    · exact .pointer h
    · exact ih true
  | slice h => exact .slice h
  | array h => exact .array h
  | map hkey hb hval => exact .map hkey hb hval
  | any => exact .any
  | named hname => exact .named hname

/-! ## Declarations at keys -/

/-- What is declared without a struct is no struct. -/
lemma IsPlain.not_isStruct {key : String} (h : IsPlain c names key) : ¬ IsStruct c names key := by
  rintro ⟨p', x', d', source, heq, hd'⟩
  obtain ⟨p, x, d, rfl, hd⟩ := h
  obtain ⟨rfl, rfl⟩ := hd.eq_of_key hd' heq
  cases (hd.unique hd').2

/-- What the declaration at a key refers to, read off the declaration. -/
lemma Refers.at_key {p : Package} {x : String} {d : DeclaredType} {source : Option StructLiteral}
    {key : String} (h : Refers c names (keyIn p x) key) (hd : Declares c names p x d source) :
    source = none ∧ Mentions c names ⟨p, d.file⟩ d.spec.type key ∨
      ∃ l, source = some l ∧ ∃ f ∈ l.fields, FieldMentions c names l.site f key := by
  generalize hkey : keyIn p x = key₀ at h
  cases h with
  | type hd' h =>
    obtain ⟨rfl, rfl⟩ := hd.eq_of_key hd' hkey
    obtain ⟨rfl, rfl⟩ := hd.unique hd'
    exact .inl ⟨rfl, h⟩
  | field hd' hf h =>
    obtain ⟨rfl, rfl⟩ := hd.eq_of_key hd' hkey
    obtain ⟨rfl, rfl⟩ := hd.unique hd'
    exact .inr ⟨_, rfl, _, hf, h⟩

/-- A declaration without a struct refers to what its type mentions. -/
lemma mentions_of_refers {p : Package} {x : String} {d : DeclaredType} {key : String}
    (hd : Declares c names p x d none) (h : Refers c names (keyIn p x) key) :
    Mentions c names ⟨p, d.file⟩ d.spec.type key := by
  obtain ⟨-, hm⟩ | ⟨l, hl, -⟩ := h.at_key hd
  · exact hm
  · cases hl

/-- A struct refers to what its fields mention. -/
lemma fieldMentions_of_refers {p : Package} {x : String} {d : DeclaredType}
    {source : StructLiteral} {key : String} (hd : Declares c names p x d (some source))
    (h : Refers c names (keyIn p x) key) :
    ∃ f ∈ source.fields, FieldMentions c names source.site f key := by
  obtain ⟨hnone, -⟩ | ⟨l, hl, hf⟩ := h.at_key hd
  · cases hnone
  · cases hl
    exact hf

namespace SupportedAt

variable {p : Package} {x : String} {d : DeclaredType} (h : SupportedAt c names (keyIn p x))
include h

/-- What is supported at a key, read off the declaration. -/
lemma at_key (hp : c p.importPath = .ok p) (hd : p.type? x = some d) :
    d.spec.typeParams = none ∧
      (Declares c names p x d none ∧ Supported c names ⟨p, d.file⟩ d.spec.type ∨
        ∃ l, Declares c names p x d (some l) ∧
          ∀ f ∈ l.fields, ¬ (fieldTags f).isJsonSkipped → Supported c names l.site f.type) := by
  generalize hkey : keyIn p x = key at h
  cases h with
  | type hd' hplain h =>
    obtain ⟨rfl, rfl⟩ := keyIn_injective hp hd hd'.held hd'.declared hkey
    cases hd.symm.trans hd'.declared
    exact ⟨hplain, .inl ⟨hd', h⟩⟩
  | struct hd' hplain h =>
    obtain ⟨rfl, rfl⟩ := keyIn_injective hp hd hd'.held hd'.declared hkey
    cases hd.symm.trans hd'.declared
    exact ⟨hplain, .inr ⟨_, hd', h⟩⟩

/-- A supported declaration is one with or without a struct. -/
lemma declares (hp : c p.importPath = .ok p) (hd : p.type? x = some d) :
    ∃ source, Declares c names p x d source := by
  obtain ⟨-, ⟨hd', -⟩ | ⟨l, hd', -⟩⟩ := h.at_key hp hd
  · exact ⟨_, hd'⟩
  · exact ⟨_, hd'⟩

/-- The type of a supported declaration without a struct is supported. -/
lemma body (hd : Declares c names p x d none) : Supported c names ⟨p, d.file⟩ d.spec.type := by
  obtain ⟨-, ⟨-, hs⟩ | ⟨l, hd', -⟩⟩ := h.at_key hd.held hd.declared
  · exact hs
  · cases (hd.unique hd').2

/-- The fields of a supported struct are supported unless they are skipped. -/
lemma field {source : StructLiteral} (hd : Declares c names p x d (some source)) {f : Field}
    (hf : f ∈ source.fields) (hskip : ¬ (fieldTags f).isJsonSkipped) :
    Supported c names source.site f.type := by
  obtain ⟨-, ⟨hd', -⟩ | ⟨l, hd', hs⟩⟩ := h.at_key hd.held hd.declared
  · cases (hd.unique hd').2
  · cases (hd.unique hd').2
    exact hs f hf hskip

end SupportedAt

/-! ## Structs that are reached -/

/-- A type that stands for a struct names it, or names a declaration that leads to it through
declarations that are no structs. -/
lemma Means.reaches {site : Site} {type : TypeExpr} {t : DataType} {key : String}
    (h : Means c names site type t) (ht : t = .struct key) :
    ∃ key₀, Mentions c names site type key₀ ∧
      ReflTransGen (Leads c names (IsStruct c names)) key₀ key := by
  induction h with
  | paren _ ih =>
    obtain ⟨key₀, hm, hr⟩ := ih ht
    exact ⟨key₀, .paren hm, hr⟩
  | known hname =>
    have hnone := structKeys_of_referentIn hname
    rw [ht, DataType.structKeys] at hnone
    cases hnone
  | struct hname =>
    cases ht
    exact ⟨_, .named hname, .refl⟩
  | expand hname hd _ _ ih =>
    obtain ⟨key₀, hm, hr⟩ := ih ht
    have hplain : IsPlain c names (keyIn _ _) := ⟨_, _, _, rfl, hd⟩
    exact ⟨_, .named hname, .head ⟨hplain.not_isStruct, .type hd hm⟩ hr⟩
  | _ => cases ht

/-- References that stop earlier lead no further. -/
lemma Leads.mono {stop stop' : String → Prop} (hstop : ∀ key, stop' key → stop key)
    {key key' : String} (h : Leads c names stop key key') : Leads c names stop' key key' :=
  ⟨fun hs => h.1 (hstop key hs), h.2⟩

/-- What a struct embeds it refers to, through declarations that are no structs. -/
lemma Embeds.leads {stop : String → Prop} (hstop : ∀ key, stop key → IsStruct c names key)
    {key key' : String} (h : Embeds c names key key') (hkey : ¬ stop key) :
    TransGen (Leads c names stop) key key' := by
  cases h with
  | field hd hf hskip _ _ h =>
    obtain ⟨key₀, hm, hr⟩ := h.reaches rfl
    have href : Refers c names (keyIn _ _) key₀ :=
      .field hd hf ⟨hskip, mentions_behindPointer.1 hm⟩
    exact .head' ⟨hkey, href⟩ (ReflTransGen.mono (fun _ _ h => h.mono hstop) _ _ hr)

end GoService.Resolution
