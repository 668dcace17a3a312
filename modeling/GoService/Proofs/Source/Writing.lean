import GoService.Proofs.Source.Brackets
import GoService.Proofs.Source.Nesting
import GoService.Source.Parser.Types
import Mathlib.Data.List.Basic

/-!
# How types are written

A type is written as a row of tokens (`TypeExpr.tokens`): the items of a list have separators
between them and none after the last. The tree does not say what the length of an array is, so the
row depends on what stands at the places of lengths. Not every tree is one that Go's grammar has:
`TypeExpr.WellFormed` holds if each type in it is grammatical. Parentheses are a part of the tree,
so the trees that could only be written with more of them are not among these. `TypeExpr.bare` is
what is left of a type when it does not matter where its parts stand.
-/

namespace GoService.Source

/-! ## Trees without places -/

/-- The identifier without its place. -/
def Ident.bare (i : Ident) : Ident :=
  ⟨i.word, default⟩

/-- Identifiers of one word are the same without their places. -/
lemma Ident.bare_eq {i j : Ident} (h : i.word = j.word) : i.bare = j.bare := by
  rw [bare, bare, h]

/-- The string literal without its place. -/
def StringLiteral.bare (l : StringLiteral) : StringLiteral :=
  ⟨l.text, default⟩

mutual

/-- The type without the places of its parts. -/
def TypeExpr.bare : TypeExpr → TypeExpr
  | .named _ pkg name args => .named default (pkg.map Ident.bare) name.bare (TypeExpr.bares args)
  | .pointer _ _ elem => .pointer default default elem.bare
  | .array _ _ elem => .array default default elem.bare
  | .slice _ elem => .slice default elem.bare
  | .map _ key val => .map default key.bare val.bare
  | .chan _ dir elem => .chan default dir elem.bare
  | .struct _ _ fields _ => .struct default default (Field.bares fields) default
  | .interface _ _ elems _ => .interface default default (InterfaceMember.bares elems) default
  | .func _ signature => .func default signature.bare
  | .paren _ inner => .paren default inner.bare
  | .bad _ _ => .bad default default

/-- The types without the places of their parts. -/
def TypeExpr.bares : List TypeExpr → List TypeExpr
  | [] => []
  | t :: ts => t.bare :: TypeExpr.bares ts

/-- The field without the places of its parts. -/
def Field.bare : Field → Field
  | ⟨_, names, ellipsis, type, tag, embedded, doc, comment⟩ =>
    ⟨default, names.map Ident.bare, ellipsis.map fun _ => default, type.bare,
      tag.map StringLiteral.bare, embedded, doc, comment⟩

/-- The fields without the places of their parts. -/
def Field.bares : List Field → List Field
  | [] => []
  | f :: fs => f.bare :: Field.bares fs

/-- The list of fields without the places of its parts. -/
def FieldList.bare : FieldList → FieldList
  | ⟨_, fields, _⟩ => ⟨default, Field.bares fields, default⟩

/-- The signature without the places of its parts. -/
def Signature.bare : Signature → Signature
  | ⟨_, params, none⟩ => ⟨default, params.bare, none⟩
  | ⟨_, params, some results⟩ => ⟨default, params.bare, some results.bare⟩

/-- The results without the places of their parts. -/
def ResultList.bare : ResultList → ResultList
  | .params list => .params list.bare
  | .single type => .single type.bare

/-- The term of a union without the places of its parts. -/
def UnionTerm.bare : UnionTerm → UnionTerm
  | ⟨tilde, type⟩ => ⟨tilde.map fun _ => default, type.bare⟩

/-- The terms of a union without the places of their parts. -/
def UnionTerm.bares : List UnionTerm → List UnionTerm
  | [] => []
  | t :: ts => t.bare :: UnionTerm.bares ts

/-- The element of an interface without the places of its parts. -/
def InterfaceMember.bare : InterfaceMember → InterfaceMember
  | .method name signature => .method name.bare signature.bare
  | .union terms => .union (UnionTerm.bares terms)

/-- The elements of an interface without the places of their parts. -/
def InterfaceMember.bares : List InterfaceMember → List InterfaceMember
  | [] => []
  | e :: es => e.bare :: InterfaceMember.bares es

end

/-- Places are left out type by type. -/
lemma TypeExpr.bares_eq_map (ts : List TypeExpr) : TypeExpr.bares ts = ts.map TypeExpr.bare := by
  induction ts with
  | nil => rfl
  | cons t ts ih => rw [TypeExpr.bares, ih, List.map_cons]

/-- Places are left out field by field. -/
lemma Field.bares_eq_map (fs : List Field) : Field.bares fs = fs.map Field.bare := by
  induction fs with
  | nil => rfl
  | cons f fs ih => rw [Field.bares, ih, List.map_cons]

/-- Places are left out term by term. -/
lemma UnionTerm.bares_eq_map (ts : List UnionTerm) :
    UnionTerm.bares ts = ts.map UnionTerm.bare := by
  induction ts with
  | nil => rfl
  | cons t ts ih => rw [UnionTerm.bares, ih, List.map_cons]

/-- Places are left out element by element. -/
lemma InterfaceMember.bares_eq_map (es : List InterfaceMember) :
    InterfaceMember.bares es = es.map InterfaceMember.bare := by
  induction es with
  | nil => rfl
  | cons e es ih => rw [InterfaceMember.bares, ih, List.map_cons]

/-- Places are left out of a signature part by part. -/
lemma Signature.bare_eq (s : Signature) :
    s.bare = ⟨default, s.params.bare, s.results.map ResultList.bare⟩ := by
  obtain ⟨span, params, results⟩ := s
  cases results <;> rfl

/-! ## Rows of tokens -/

/-- Items between brackets. -/
def enclosed (opening separator closing : Mark) (items : List (List Token)) : List Token :=
  .mark opening :: ([.mark separator].intercalate items ++ [.mark closing])

/-- Type arguments; there are no brackets without them. -/
def argTokens : List (List Token) → List Token
  | [] => []
  | args => enclosed .lBrack .comma .rBrack args

/-- The tokens with which a channel type begins. -/
def ChanDir.tokens : ChanDir → List Token
  | .both => [.keyword .chanKw]
  | .send => [.keyword .chanKw, .mark .arrow]
  | .recv => [.mark .arrow, .keyword .chanKw]

/-- A string literal is raw if it is written in backquotes. -/
def StringLiteral.token (l : StringLiteral) : Token :=
  if l.text.toList.head? = some '\x60' then .rawStringLit l.text else .stringLit l.text

/-- A string literal is a raw one or an interpreted one. -/
lemma StringLiteral.token_eq_or (l : StringLiteral) :
    l.token = .rawStringLit l.text ∨ l.token = .stringLit l.text :=
  ite_eq_or_eq ..

/-- The token of a string literal is a string literal. -/
lemma StringLiteral.isString_token (l : StringLiteral) : l.token.isString = true := by
  rcases l.token_eq_or with h | h
  · rw [h]
    rfl
  · rw [h]
    rfl

/-- A name with the package that qualifies it. -/
def qualifiedTokens (pkg : Option Ident) (name : Ident) : List Token :=
  pkg.toList.flatMap (fun p => [.ident p.word, .mark .dot]) ++ [.ident name.word]

/-- Names with commas between them. -/
def nameTokens (names : List Ident) : List Token :=
  [.mark .comma].intercalate (names.map fun n => [.ident n.word])

/-- Names begin with the first and a comma before the others. -/
lemma nameTokens_cons_cons (name next : Ident) (names : List Ident) :
    nameTokens (name :: next :: names) =
      .ident name.word :: .mark .comma :: nameTokens (next :: names) :=
  List.intercalate_cons_cons

mutual

/-- The tokens of a type. What stands at the place of the length of an array is given. -/
def TypeExpr.tokens (lengths : Span → List Token) : TypeExpr → List Token
  | .named _ pkg name args =>
    qualifiedTokens pkg name ++ argTokens (TypeExpr.tokenRows lengths args)
  | .pointer _ _ elem => .mark .star :: elem.tokens lengths
  | .array _ len elem =>
    .mark .lBrack :: (lengths len ++ .mark .rBrack :: elem.tokens lengths)
  | .slice _ elem => .mark .lBrack :: .mark .rBrack :: elem.tokens lengths
  | .map _ key val =>
    .keyword .mapKw :: .mark .lBrack :: (key.tokens lengths ++ .mark .rBrack :: val.tokens lengths)
  | .chan _ dir elem => dir.tokens ++ elem.tokens lengths
  | .struct _ _ fields _ =>
    .keyword .structKw :: enclosed .lBrace .semi .rBrace (Field.tokenRows lengths fields)
  | .interface _ _ elems _ =>
    .keyword .interfaceKw :: enclosed .lBrace .semi .rBrace (InterfaceMember.tokenRows lengths elems)
  | .func _ signature => .keyword .funcKw :: signature.tokens lengths
  | .paren _ inner => .mark .lParen :: (inner.tokens lengths ++ [.mark .rParen])
  | .bad _ _ => []

/-- The tokens of each of the types. -/
def TypeExpr.tokenRows (lengths : Span → List Token) : List TypeExpr → List (List Token)
  | [] => []
  | t :: ts => t.tokens lengths :: TypeExpr.tokenRows lengths ts

/-- The tokens of a struct field or of a parameter: names, type and what belongs to them. -/
def Field.tokens (lengths : Span → List Token) : Field → List Token
  | ⟨_, names, ellipsis, type, tag, _, _, _⟩ =>
    nameTokens names ++ ((ellipsis.map fun _ => Token.mark .ellipsis).toList ++
      (type.tokens lengths ++ (tag.map StringLiteral.token).toList))

/-- The tokens of each of the fields. -/
def Field.tokenRows (lengths : Span → List Token) : List Field → List (List Token)
  | [] => []
  | f :: fs => f.tokens lengths :: Field.tokenRows lengths fs

/-- The tokens of a list of fields. -/
def FieldList.tokens (lengths : Span → List Token) : FieldList → List Token
  | ⟨_, fields, _⟩ => enclosed .lParen .comma .rParen (Field.tokenRows lengths fields)

/-- The tokens of parameters and results. -/
def Signature.tokens (lengths : Span → List Token) : Signature → List Token
  | ⟨_, params, none⟩ => params.tokens lengths
  | ⟨_, params, some results⟩ => params.tokens lengths ++ results.tokens lengths

/-- The tokens of results. -/
def ResultList.tokens (lengths : Span → List Token) : ResultList → List Token
  | .params list => list.tokens lengths
  | .single type => type.tokens lengths

/-- The tokens of a term of a union. -/
def UnionTerm.tokens (lengths : Span → List Token) : UnionTerm → List Token
  | ⟨tilde, type⟩ => (tilde.map fun _ => Token.mark .tilde).toList ++ type.tokens lengths

/-- The tokens of each of the terms of a union. -/
def UnionTerm.tokenRows (lengths : Span → List Token) : List UnionTerm → List (List Token)
  | [] => []
  | t :: ts => t.tokens lengths :: UnionTerm.tokenRows lengths ts

/-- The tokens of an element of an interface. -/
def InterfaceMember.tokens (lengths : Span → List Token) : InterfaceMember → List Token
  | .method name signature => .ident name.word :: signature.tokens lengths
  | .union terms => [.mark .pipe].intercalate (UnionTerm.tokenRows lengths terms)

/-- The tokens of each of the elements of an interface. -/
def InterfaceMember.tokenRows (lengths : Span → List Token) :
    List InterfaceMember → List (List Token)
  | [] => []
  | e :: es => e.tokens lengths :: InterfaceMember.tokenRows lengths es

end

variable {lengths : Span → List Token}

/-- There is a row for each type. -/
lemma TypeExpr.tokenRows_eq_map (ts : List TypeExpr) :
    TypeExpr.tokenRows lengths ts = ts.map (TypeExpr.tokens lengths) := by
  induction ts with
  | nil => rfl
  | cons t ts ih => rw [TypeExpr.tokenRows, ih, List.map_cons]

/-- There is a row for each field. -/
lemma Field.tokenRows_eq_map (fs : List Field) :
    Field.tokenRows lengths fs = fs.map (Field.tokens lengths) := by
  induction fs with
  | nil => rfl
  | cons f fs ih => rw [Field.tokenRows, ih, List.map_cons]

/-- There is a row for each term of a union. -/
lemma UnionTerm.tokenRows_eq_map (ts : List UnionTerm) :
    UnionTerm.tokenRows lengths ts = ts.map (UnionTerm.tokens lengths) := by
  induction ts with
  | nil => rfl
  | cons t ts ih => rw [UnionTerm.tokenRows, ih, List.map_cons]

/-- There is a row for each element of an interface. -/
lemma InterfaceMember.tokenRows_eq_map (es : List InterfaceMember) :
    InterfaceMember.tokenRows lengths es = es.map (InterfaceMember.tokens lengths) := by
  induction es with
  | nil => rfl
  | cons e es ih => rw [InterfaceMember.tokenRows, ih, List.map_cons]

/-- The tokens of results; there are none where there are no results. -/
def resultTokens (lengths : Span → List Token) : Option ResultList → List Token
  | none => []
  | some results => results.tokens lengths

/-- A signature is written with its parameters before its results. -/
lemma Signature.tokens_eq (s : Signature) :
    s.tokens lengths = s.params.tokens lengths ++ resultTokens lengths s.results := by
  obtain ⟨span, params, results⟩ := s
  cases results with
  | none => exact (List.append_nil _).symm
  | some results => rfl

/-! ## The types in a type -/

/-- The types of the parameters and results. -/
def Signature.parts (s : Signature) : List TypeExpr :=
  s.params.fields.map Field.type ++
    match s.results with
    | none => []
    | some (.params list) => list.fields.map Field.type
    | some (.single type) => [type]

/-- The types within an element of an interface. -/
def InterfaceMember.parts : InterfaceMember → List TypeExpr
  | .method _ signature => signature.parts
  | .union terms => terms.map UnionTerm.type

/-- The types that a type is directly made of. -/
def TypeExpr.parts : TypeExpr → List TypeExpr
  | .named _ _ _ args => args
  | .pointer _ _ elem | .array _ _ elem | .slice _ elem | .chan _ _ elem => [elem]
  | .map _ key val => [key, val]
  | .struct _ _ fields _ => fields.map Field.type
  | .interface _ _ elems _ => elems.flatMap InterfaceMember.parts
  | .func _ signature => signature.parts
  | .paren _ inner => [inner]
  | .bad _ _ => []

/-! ## Grammar -/

/-- Whether the type begins with an arrow. -/
def TypeExpr.isReceive : TypeExpr → Bool
  | .chan _ .recv _ => true
  | _ => false

/-- Whether the type stands in parentheses. -/
def TypeExpr.isParen : TypeExpr → Bool
  | .paren .. => true
  | _ => false

/-- Whether a type can be embedded in a struct. -/
def TypeExpr.isEmbeddable : TypeExpr → Bool
  | .named .. | .pointer .. => true
  | _ => false

/-- Whether the type is a name with type arguments that no package qualifies. -/
def TypeExpr.isLocalInstance : TypeExpr → Bool
  | .named _ none _ (_ :: _) => true
  | _ => false

/-- A field of a struct, without documentation. -/
structure Field.IsStructField (f : Field) : Prop where
  ellipsis : f.ellipsis = none
  doc : f.doc = none
  comment : f.comment = none
  embedded : f.embedded = true → f.names = [] ∧ f.type.isEmbeddable
  named : f.embedded = false → f.names ≠ []

/-- A parameter or result. -/
structure Field.IsParam (f : Field) : Prop where
  tag : f.tag = none
  embedded : f.embedded = false
  doc : f.doc = none
  comment : f.comment = none

/-- Parameters as Go has them: either each of them has a name or none has. A parameter that is
nothing but a local name with type arguments is left out: such a type is taken for a name and an
array. -/
structure FieldList.Grammatical (l : FieldList) : Prop where
  params : ∀ f ∈ l.fields, f.IsParam
  uniform : (∀ f ∈ l.fields, f.names ≠ []) ∨ ∀ f ∈ l.fields, f.names = []
  plain : ∀ f ∈ l.fields, f.names = [] → f.ellipsis = none → f.type.isLocalInstance = false

/-- Parameters with or without results; a single result in parentheses would be a list. -/
structure Signature.Grammatical (s : Signature) : Prop where
  params : s.params.Grammatical
  results : ∀ l, s.results = some (.params l) → l.Grammatical
  single : ∀ t, s.results = some (.single t) → t.isParen = false

/-- What the grammar asks of an element of an interface beyond its types. -/
def InterfaceMember.Grammatical : InterfaceMember → Prop
  | .method _ signature => signature.Grammatical
  | .union terms => terms ≠ []

/-- What Go's grammar asks of a type besides the types in it. -/
def TypeExpr.Grammatical (lengths : Span → List Token) : TypeExpr → Prop
  | .array _ len _ => lengths len ≠ [] ∧ Balanced (lengths len)
  | .chan _ .both elem => elem.isReceive = false
  | .struct _ _ fields _ => ∀ f ∈ fields, f.IsStructField
  | .interface _ _ elems _ => ∀ e ∈ elems, e.Grammatical
  | .func _ signature => signature.Grammatical
  | .bad _ _ => False
  | _ => True

/-- A type of which every type in it is grammatical. -/
inductive TypeExpr.WellFormed (lengths : Span → List Token) : TypeExpr → Prop
  | intro {T : TypeExpr} (grammatical : T.Grammatical lengths)
      (parts : ∀ S ∈ T.parts, S.WellFormed lengths) : T.WellFormed lengths

variable {T S : TypeExpr}

/-- A well-formed type is grammatical. -/
lemma TypeExpr.WellFormed.grammatical (h : T.WellFormed lengths) : T.Grammatical lengths := by
  cases h with
  | intro grammatical parts => exact grammatical

/-- The parts of a well-formed type are well-formed. -/
lemma TypeExpr.WellFormed.parts (h : T.WellFormed lengths) :
    ∀ S ∈ T.parts, S.WellFormed lengths := by
  cases h with
  | intro grammatical parts => exact parts

/-! ## Nesting -/

/-- No type in a list of fields is nested deeper than the list. -/
lemma FieldList.nesting_le {l : FieldList} (h : S ∈ l.fields.map Field.type) :
    S.outline.typeNesting ≤ Outline.typeNestings l.outlines := by
  obtain ⟨opening, fields, closing⟩ := l
  obtain ⟨f, hf, rfl⟩ := List.mem_map.1 h
  rw [← f.typeNesting_outline, FieldList.outlines, Field.outlines_eq_map]
  exact Outline.typeNesting_le_of_mem (List.mem_map_of_mem hf)

/-- No type in a signature is nested deeper than the signature. -/
lemma Signature.nesting_le {s : Signature} (h : S ∈ s.parts) :
    S.outline.typeNesting ≤ s.outline.typeNesting := by
  obtain ⟨span, params, results⟩ := s
  rcases List.mem_append.1 h with h | h
  · have hle := FieldList.nesting_le h
    cases results with
    | none => exact hle
    | some rs =>
      rw [Signature.outline, Outline.typeNesting, if_neg (by decide), Outline.typeNestings_append]
      exact Nat.le_trans hle (Nat.le_max_left ..)
  · cases results with
    | none => cases h
    | some rs =>
      rw [Signature.outline, Outline.typeNesting, if_neg (by decide), Outline.typeNestings_append]
      refine Nat.le_trans ?_ (Nat.le_max_right ..)
      cases rs with
      | params l => exact FieldList.nesting_le h
      | single t =>
        cases List.mem_singleton.1 h
        exact Outline.typeNesting_le_of_mem (List.mem_singleton_self _)

/-- No type in an element of an interface is nested deeper than the element. -/
lemma InterfaceMember.nesting_le {e : InterfaceMember} (h : S ∈ e.parts) :
    S.outline.typeNesting ≤ Outline.typeNestings e.memberOutlines := by
  cases e with
  | method name s =>
    exact Nat.le_trans (Signature.nesting_le h)
      (Outline.typeNesting_le_of_mem (List.mem_singleton_self _))
  | union terms =>
    obtain ⟨⟨tilde, type⟩, ht, rfl⟩ := List.mem_map.1 h
    rw [InterfaceMember.memberOutlines, UnionTerm.outlines_eq_map]
    have hmem := List.mem_map_of_mem (f := UnionTerm.outline) ht
    exact Outline.typeNesting_le_of_mem hmem

/-- The types in a type are nested less deeply. -/
lemma TypeExpr.nesting_lt (h : S ∈ T.parts) : S.outline.typeNesting < T.outline.typeNesting := by
  have hchild {span : Span} {os : List Outline}
      (hle : S.outline.typeNesting ≤ Outline.typeNestings os) :
      S.outline.typeNesting < (Outline.node .type span os).typeNesting := Nat.lt_succ_of_le hle
  cases T with
  | named span pkg name args =>
    apply hchild
    rw [TypeExpr.outlines_eq_map]
    exact Outline.typeNesting_le_of_mem (List.mem_map_of_mem h)
  | pointer | array | slice | chan | paren =>
    cases List.mem_singleton.1 h
    exact hchild (Outline.typeNesting_le_of_mem (List.mem_singleton_self _))
  | map span key val =>
    exact hchild (Outline.typeNesting_le_of_mem (List.mem_map_of_mem h : S.outline ∈ _))
  | struct span lBrace fields rBrace =>
    exact hchild (@FieldList.nesting_le _ ⟨lBrace, fields, rBrace⟩ h)
  | interface span lBrace elems rBrace =>
    obtain ⟨e, he, h⟩ := List.mem_flatMap.1 h
    apply hchild
    rw [InterfaceMember.outlines_eq_flatMap]
    exact Nat.le_trans (InterfaceMember.nesting_le h) (Outline.typeNestings_le_of_mem he)
  | func span signature =>
    exact hchild (Nat.le_trans (Signature.nesting_le h)
      (Outline.typeNesting_le_of_mem (List.mem_singleton_self _)))
  | bad => cases h

/-- A type is one type deep at least. -/
lemma TypeExpr.nesting_pos (T : TypeExpr) : 0 < T.outline.typeNesting := by
  cases T <;> exact Nat.succ_pos _

/-! ## The tokens of a type -/

/-- A type begins with a token that begins types. -/
lemma TypeExpr.Grammatical.exists_tokens (h : T.Grammatical lengths) :
    ∃ t ts, T.tokens lengths = t :: ts ∧ Parser.beginsType t := by
  cases T with
  | named span pkg name args =>
    cases pkg with
    | none => exact ⟨_, _, rfl, rfl⟩
    | some p => exact ⟨_, _, rfl, rfl⟩
  | chan span dir elem => cases dir <;> exact ⟨_, _, rfl, rfl⟩
  | bad => exact h.elim
  | _ => exact ⟨_, _, rfl, rfl⟩

/-- What begins with an identifier is a name; if it is not a local one, a dot comes next. -/
lemma TypeExpr.exists_dot {word : Word} {ts : List Token}
    (hT : ∀ span name args, T ≠ .named span none name args)
    (h : T.tokens lengths = .ident word :: ts) : ∃ us, ts = .mark .dot :: us := by
  cases T with
  | named span pkg name args =>
    cases pkg with
    | none => exact absurd rfl (hT span name args)
    | some p =>
      cases h
      exact ⟨_, rfl⟩
  | chan span dir elem => cases dir <;> cases h
  | _ => cases h

/-- No parenthesis comes after the first name of a type. -/
lemma TypeExpr.head?_ne_lParen {word : Word} {ts rest : List Token}
    (h : T.tokens lengths ++ rest = .ident word :: ts) (hne : T.tokens lengths ≠ [])
    (hrest : rest.head? ≠ some (.mark .lParen)) : ts.head? ≠ some (.mark .lParen) := by
  cases T with
  | named span pkg name args =>
    cases pkg with
    | some p =>
      cases h
      exact nofun
    | none =>
      cases args with
      | nil =>
        cases h
        exact hrest
      | cons arg args =>
        cases h
        exact nofun
  | chan span dir elem => cases dir <;> cases h
  | bad => exact absurd rfl hne
  | _ => cases h

/-- A signature begins with a parenthesis. -/
lemma Signature.exists_tokens (s : Signature) (lengths : Span → List Token) :
    ∃ ts, s.tokens lengths = .mark .lParen :: ts := by
  obtain ⟨span, ⟨opening, fields, closing⟩, results⟩ := s
  rw [Signature.tokens_eq]
  exact ⟨_, rfl⟩

/-- A type that begins with an opening bracket is an array or a slice. -/
lemma TypeExpr.Grammatical.exists_brackets {ts : List Token} (hT : T.Grammatical lengths)
    (h : T.tokens lengths = .mark .lBrack :: ts) : ∃ inner elem, Balanced inner ∧
      elem ∈ T.parts ∧ ts = inner ++ .mark .rBrack :: elem.tokens lengths := by
  cases T with
  | array span len elem =>
    cases h
    exact ⟨_, elem, hT.2, List.mem_singleton_self _, rfl⟩
  | slice span elem =>
    cases h
    exact ⟨[], elem, balanced_nil, List.mem_singleton_self _, rfl⟩
  | named span pkg name args => cases pkg <;> cases h
  | chan span dir elem => cases dir <;> cases h
  | _ => cases h

/-- A type that is no receiving channel does not begin with an arrow. -/
lemma TypeExpr.first_ne_arrow {t : Token} {ts : List Token} (hT : T.isReceive = false)
    (h : T.tokens lengths = t :: ts) : t ≠ .mark .arrow := by
  rintro rfl
  cases T with
  | named span pkg name args => cases pkg <;> cases h
  | chan span dir elem =>
    cases dir with
    | both | send => cases h
    | recv => cases hT
  | _ => cases h

/-- A type that is not in parentheses does not begin with one. -/
lemma TypeExpr.first_ne_lParen {t : Token} {ts : List Token} (hT : T.isParen = false)
    (h : T.tokens lengths = t :: ts) : t ≠ .mark .lParen := by
  rintro rfl
  cases T with
  | named span pkg name args => cases pkg <;> cases h
  | chan span dir elem => cases dir <;> cases h
  | paren => cases hT
  | _ => cases h

/-- A token that may be missing and is no bracket is balanced. -/
lemma balanced_toList {o : Option Token} (h : ∀ t ∈ o, ¬ t.isOpening ∧ ¬ t.isClosing) :
    Balanced o.toList := by
  cases o with
  | none => exact balanced_nil
  | some t =>
    obtain ⟨ho, hc⟩ := h t rfl
    exact balanced_nil.cons (Bool.eq_false_iff.2 ho) (Bool.eq_false_iff.2 hc)

/-- Names are balanced. -/
lemma balanced_nameTokens (names : List Ident) : Balanced (nameTokens names) :=
  .intercalate rfl rfl (List.forall_mem_map.2 fun _ _ => balanced_nil.cons rfl rfl)

/-- Balanced rows between brackets are balanced. -/
lemma balanced_enclosed {opening separator closing : Mark} {rows : List (List Token)}
    (ho : opening.isOpening) (hc : closing.isClosing) (hs : separator.isOpening = false)
    (hs' : separator.isClosing = false) (h : ∀ row ∈ rows, Balanced row) :
    Balanced (enclosed opening separator closing rows) :=
  .bracketed ho hc (.intercalate hs hs' h) balanced_nil

/-- Type arguments are balanced if each is. -/
lemma balanced_argTokens {rows : List (List Token)} (h : ∀ row ∈ rows, Balanced row) :
    Balanced (argTokens rows) := by
  cases rows with
  | nil => exact balanced_nil
  | cons row rows => exact balanced_enclosed rfl rfl rfl rfl h

/-- A field is balanced if its type is. -/
lemma Field.balanced_tokens {f : Field} (h : Balanced (f.type.tokens lengths)) :
    Balanced (f.tokens lengths) := by
  obtain ⟨span, names, ellipsis, type, tag, embedded, doc, comment⟩ := f
  refine (balanced_nameTokens names).append (.append ?_ (h.append ?_))
  · refine balanced_toList ?_
    cases ellipsis <;> simp [Token.isOpening, Token.isClosing, Mark.isOpening, Mark.isClosing]
  · refine balanced_toList ?_
    intro t ht
    obtain ⟨l, -, rfl⟩ := Option.map_eq_some_iff.1 ht
    rw [StringLiteral.token]
    split <;> exact ⟨nofun, nofun⟩

/-- A list of fields is balanced if each type is. -/
lemma FieldList.balanced_tokens {l : FieldList}
    (h : ∀ S ∈ l.fields.map Field.type, Balanced (S.tokens lengths)) :
    Balanced (l.tokens lengths) := by
  obtain ⟨opening, fields, closing⟩ := l
  refine balanced_enclosed rfl rfl rfl rfl ?_
  rw [Field.tokenRows_eq_map]
  exact List.forall_mem_map.2 fun f hf => f.balanced_tokens (h _ (List.mem_map_of_mem hf))

/-- A signature is balanced if each type in it is. -/
lemma Signature.balanced_tokens {s : Signature} (h : ∀ S ∈ s.parts, Balanced (S.tokens lengths)) :
    Balanced (s.tokens lengths) := by
  obtain ⟨span, params, results⟩ := s
  obtain ⟨hparams, hresults⟩ := List.forall_mem_append.1 h
  cases results with
  | none => exact FieldList.balanced_tokens hparams
  | some rs =>
    refine (FieldList.balanced_tokens hparams).append ?_
    cases rs with
    | params l => exact FieldList.balanced_tokens hresults
    | single t => exact hresults t (List.mem_singleton_self t)

/-- An element of an interface is balanced if each type in it is. -/
lemma InterfaceMember.balanced_tokens {e : InterfaceMember}
    (h : ∀ S ∈ e.parts, Balanced (S.tokens lengths)) : Balanced (e.tokens lengths) := by
  cases e with
  | method name s => exact (Signature.balanced_tokens h).cons rfl rfl
  | union terms =>
    refine .intercalate rfl rfl ?_
    rw [UnionTerm.tokenRows_eq_map]
    refine List.forall_mem_map.2 fun t ht => ?_
    have htype := h _ (List.mem_map_of_mem ht)
    obtain ⟨tilde, type⟩ := t
    cases tilde with
    | none => exact htype
    | some span => exact htype.cons rfl rfl

/-- All brackets in the tokens of a type are closed again. -/
lemma TypeExpr.WellFormed.balanced_tokens (h : T.WellFormed lengths) :
    Balanced (T.tokens lengths) := by
  induction h with
  | @intro T hT _ ih =>
  cases T with
  | named span pkg name args =>
    refine .append ?_ (balanced_argTokens ?_)
    · cases pkg with
      | none => exact balanced_nil.cons rfl rfl
      | some p => exact ((balanced_nil.cons rfl rfl).cons rfl rfl).cons rfl rfl
    · rw [TypeExpr.tokenRows_eq_map]
      exact List.forall_mem_map.2 ih
  | pointer span star elem => exact (ih elem (List.mem_singleton_self _)).cons rfl rfl
  | array span len elem => exact .bracketed rfl rfl hT.2 (ih elem (List.mem_singleton_self _))
  | slice span elem =>
    exact .bracketed rfl rfl balanced_nil (ih elem (List.mem_singleton_self _))
  | map span key val =>
    refine (Balanced.bracketed rfl rfl (ih key ?_) (ih val ?_)).cons rfl rfl
    · exact List.mem_cons_self
    · exact List.mem_cons_of_mem _ (List.mem_singleton_self _)
  | chan span dir elem =>
    have helem := ih elem (List.mem_singleton_self _)
    cases dir with
    | both => exact helem.cons rfl rfl
    | send => exact (helem.cons rfl rfl).cons rfl rfl
    | recv => exact (helem.cons rfl rfl).cons rfl rfl
  | struct span lBrace fields rBrace =>
    refine (balanced_enclosed rfl rfl rfl rfl ?_).cons rfl rfl
    rw [Field.tokenRows_eq_map]
    exact List.forall_mem_map.2 fun f hf => f.balanced_tokens (ih _ (List.mem_map_of_mem hf))
  | interface span lBrace elems rBrace =>
    refine (balanced_enclosed rfl rfl rfl rfl ?_).cons rfl rfl
    rw [InterfaceMember.tokenRows_eq_map]
    exact List.forall_mem_map.2 fun e he =>
      InterfaceMember.balanced_tokens fun S hS => ih S (List.mem_flatMap.2 ⟨e, he, hS⟩)
  | func span signature => exact (Signature.balanced_tokens ih).cons rfl rfl
  | paren span inner =>
    exact .bracketed rfl rfl (ih inner (List.mem_singleton_self _)) balanced_nil
  | bad => exact hT.elim

end GoService.Source
