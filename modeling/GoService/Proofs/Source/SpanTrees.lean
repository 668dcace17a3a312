import GoService.Source.Token
import GoService.Source.Tree
import Mathlib.Data.List.Basic
import Mathlib.Tactic.Lemma

/-!
# The places in a tree

A declaration tree keeps the place of each node, and those of many of the tokens of which a node is
made up. `SpanTree` has nothing but these places, in the order in which they are written. Union
terms, members of interfaces, lists of fields and entries of declarations have no place of their
own: their parts belong to the node around them. The initial values of constants and variables are
the one place that is not in the tree of places: values of which nothing is written stand at the end
of the file, wherever their declaration ends (`SourceFile.values`).
-/

namespace GoService.Source

/-- A place in a source and the places of which it is made up. -/
inductive SpanTree where
  /-- A token that is kept by its place, or a name. -/
  | token (t : Token) (span : Span)
  /-- A string literal, with its quotes. -/
  | literal (text : String) (span : Span)
  /-- Tokens that were skipped. -/
  | skipped (span : Span)
  /-- What nothing could be made of. -/
  | recovered (span : Span)
  | node (span : Span) (parts : List SpanTree)

namespace SpanTree

/-- The place of a tree. -/
def span : SpanTree → Span
  | .token _ span | .literal _ span | .skipped span | .recovered span | .node span _ => span

/-- The trees directly below. -/
def parts : SpanTree → List SpanTree
  | .node _ parts => parts
  | _ => []

/-- A part is smaller than the tree. -/
lemma sizeOf_lt_of_mem_parts {s t : SpanTree} (hs : s ∈ t.parts) : sizeOf s < sizeOf t := by
  cases t with
  | node span parts =>
    rw [node.sizeOf_spec]
    exact Nat.lt_of_lt_of_le (List.sizeOf_lt_of_mem hs) (Nat.le_add_left ..)
  | _ => cases hs

/-- Something holds of a place and of all places below it. -/
inductive Everywhere (P : SpanTree → Prop) : SpanTree → Prop
  | intro (h : P t) (hparts : ∀ s ∈ t.parts, Everywhere P s) : Everywhere P t

variable {P Q : SpanTree → Prop} {t : SpanTree}

/-- What holds everywhere holds here. -/
lemma Everywhere.here (h : t.Everywhere P) : P t := by
  cases h with
  | intro h _ => exact h

/-- What holds everywhere holds everywhere in a part. -/
lemma Everywhere.part (h : t.Everywhere P) {s : SpanTree} (hs : s ∈ t.parts) : s.Everywhere P := by
  cases h with
  | intro _ hparts => exact hparts s hs

/-- What follows from something that holds everywhere holds everywhere. -/
lemma Everywhere.imp (h : t.Everywhere P) (himp : ∀ s, P s → Q s) : t.Everywhere Q := by
  induction h with
  | intro h _ ih => exact .intro (himp _ h) ih

/-- Two things that hold everywhere hold together everywhere. -/
lemma Everywhere.and (h : t.Everywhere P) (h' : t.Everywhere Q) :
    t.Everywhere fun s => P s ∧ Q s := by
  induction h with
  | intro h _ ih => exact .intro ⟨h, h'.here⟩ fun s hs => ih s hs (h'.part hs)

end SpanTree

/-! ## Types -/

/-- The places of an identifier. -/
def Ident.spanTree (i : Ident) : SpanTree :=
  .token (.ident i.word) i.span

/-- The places of a string literal. -/
def StringLiteral.spanTree (l : StringLiteral) : SpanTree :=
  .literal l.text l.span

/-- The place of a token that may be missing. -/
def SpanTree.token? (t : Token) (span : Option Span) : List SpanTree :=
  (span.map (.token t)).toList

mutual

/-- The places in a type. -/
def TypeExpr.spanTree : TypeExpr → SpanTree
  | .named span pkg name args =>
    .node span ((pkg.map Ident.spanTree).toList ++ name.spanTree :: TypeExpr.spanTrees args)
  | .pointer span star elem => .node span [.token (.mark .star) star, elem.spanTree]
  | .array span len elem => .node span [.skipped len, elem.spanTree]
  | .slice span elem | .chan span _ elem | .paren span elem => .node span [elem.spanTree]
  | .map span key val => .node span [key.spanTree, val.spanTree]
  | .struct span lBrace fields rBrace =>
    .node span (.token (.mark .lBrace) lBrace ::
      (Field.spanTrees fields ++ [.token (.mark .rBrace) rBrace]))
  | .interface span lBrace elems rBrace =>
    .node span (.token (.mark .lBrace) lBrace ::
      (InterfaceMember.spanTreesOf elems ++ [.token (.mark .rBrace) rBrace]))
  | .func span signature => .node span [signature.spanTree]
  | .bad span place => .node span [.recovered place]

/-- The places in types. -/
def TypeExpr.spanTrees : List TypeExpr → List SpanTree
  | [] => []
  | t :: ts => t.spanTree :: TypeExpr.spanTrees ts

/-- The places in a field. -/
def Field.spanTree : Field → SpanTree
  | ⟨span, names, ellipsis, type, tag, _, _, _⟩ =>
    .node span (names.map Ident.spanTree ++ SpanTree.token? (.mark .ellipsis) ellipsis ++
      type.spanTree :: (tag.map StringLiteral.spanTree).toList)

/-- The places in fields. -/
def Field.spanTrees : List Field → List SpanTree
  | [] => []
  | f :: fs => f.spanTree :: Field.spanTrees fs

/-- The places in a list of fields, with its parentheses. -/
def FieldList.spanTrees : FieldList → List SpanTree
  | ⟨opening, fields, closing⟩ =>
    .token (.mark .lParen) opening :: (Field.spanTrees fields ++ [.token (.mark .rParen) closing])

/-- The places in a signature: parameters, then results. -/
def Signature.spanTree : Signature → SpanTree
  | ⟨span, params, none⟩ => .node span params.spanTrees
  | ⟨span, params, some results⟩ => .node span (params.spanTrees ++ results.spanTrees)

/-- The places in results. -/
def ResultList.spanTrees : ResultList → List SpanTree
  | .params list => list.spanTrees
  | .single type => [type.spanTree]

/-- The places in a term of a union. -/
def UnionTerm.spanTrees : UnionTerm → List SpanTree
  | ⟨tilde, type⟩ => SpanTree.token? (.mark .tilde) tilde ++ [type.spanTree]

/-- The places in the terms of a union. -/
def UnionTerm.spanTreesOf : List UnionTerm → List SpanTree
  | [] => []
  | t :: ts => t.spanTrees ++ UnionTerm.spanTreesOf ts

/-- The places in an element of an interface. -/
def InterfaceMember.spanTrees : InterfaceMember → List SpanTree
  | .method name signature => [name.spanTree, signature.spanTree]
  | .union terms => UnionTerm.spanTreesOf terms

/-- The places in the elements of an interface. -/
def InterfaceMember.spanTreesOf : List InterfaceMember → List SpanTree
  | [] => []
  | e :: es => e.spanTrees ++ InterfaceMember.spanTreesOf es

end

/-! ## Declarations -/

/-- The places in type parameters with one constraint. -/
def TypeParamGroup.spanTree (g : TypeParamGroup) : SpanTree :=
  .node g.span (g.names.map Ident.spanTree ++ UnionTerm.spanTreesOf g.constraint)

/-- The places in type parameters. -/
def TypeParams.spanTree (p : TypeParams) : SpanTree :=
  .node p.span (.token (.mark .lBrack) p.lBrack ::
    (p.params.map TypeParamGroup.spanTree ++ [.token (.mark .rBrack) p.rBrack]))

/-- The places in the name of an import. -/
def ImportLabel.spanTree : ImportLabel → SpanTree
  | .dot span => .token (.mark .dot) span
  | .blank span => .token (.ident .blank) span
  | .name ident => ident.spanTree

/-- The keyword with which a declaration begins. -/
def DeclKind.keyword : DeclKind → Keyword
  | .imports => .importKw
  | .consts => .constKw
  | .types => .typeKw
  | .vars => .varKw

/-- The places in an entry, but for initial values. -/
def Spec.spanTrees : Spec → List SpanTree
  | .importSpec s => (s.name.map ImportLabel.spanTree).toList ++ [s.path.spanTree]
  | .valueSpec s => s.names.map Ident.spanTree ++ (s.type.map TypeExpr.spanTree).toList
  | .typeSpec s =>
    s.name.spanTree :: ((s.typeParams.map TypeParams.spanTree).toList ++
      SpanTree.token? (.mark .assign) s.equals ++ [s.type.spanTree])

/-- The places in a declaration. -/
def Decl.spanTree : Decl → SpanTree
  | .gen d =>
    .node d.span (.token (.keyword d.kind.keyword) d.keyword ::
      (SpanTree.token? (.mark .lParen) d.lParen ++ d.specs.flatMap Spec.spanTrees ++
        SpanTree.token? (.mark .rParen) d.rParen))
  | .func d =>
    .node d.span (.token (.keyword .funcKw) d.keyword ::
      (d.recv.toList.flatMap FieldList.spanTrees ++ [d.name.spanTree] ++
        (d.typeParams.map TypeParams.spanTree).toList ++ [d.signature.spanTree] ++
        (d.body.map .skipped).toList))
  | .bad span => .recovered span

/-- The places in a file, in a row. -/
def SourceFile.spanTrees (f : SourceFile) : List SpanTree :=
  .token (.keyword .packageKw) f.package :: f.name.spanTree :: f.decls.map Decl.spanTree

/-- The initial values of an entry. -/
def Spec.initialValues : Spec → List Span
  | .valueSpec s => s.values.toList
  | _ => []

/-- The initial values in a declaration. -/
def Decl.initialValues : Decl → List Span
  | .gen d => d.specs.flatMap Spec.initialValues
  | _ => []

/-- The initial values in a file. -/
def SourceFile.values (f : SourceFile) : List Span :=
  f.decls.flatMap Decl.initialValues

/-! ## Lists in a tree -/

/-- The places in types are one tree for each. -/
lemma TypeExpr.spanTrees_eq (ts : List TypeExpr) :
    TypeExpr.spanTrees ts = ts.map TypeExpr.spanTree := by
  induction ts with
  | nil => rfl
  | cons t ts ih => rw [TypeExpr.spanTrees, ih, List.map_cons]

/-- The places in fields are one tree for each. -/
lemma Field.spanTrees_eq (fs : List Field) : Field.spanTrees fs = fs.map Field.spanTree := by
  induction fs with
  | nil => rfl
  | cons f fs ih => rw [Field.spanTrees, ih, List.map_cons]

/-- The places in the terms of a union are those of each. -/
lemma UnionTerm.spanTreesOf_eq (ts : List UnionTerm) :
    UnionTerm.spanTreesOf ts = ts.flatMap UnionTerm.spanTrees := by
  induction ts with
  | nil => rfl
  | cons t ts ih => rw [UnionTerm.spanTreesOf, ih, List.flatMap_cons]

/-- Every term has a place. -/
lemma UnionTerm.spanTreesOf_ne_nil {ts : List UnionTerm} (h : ts ≠ []) :
    UnionTerm.spanTreesOf ts ≠ [] := by
  obtain ⟨⟨tilde, type⟩, ts, rfl⟩ := List.exists_cons_of_ne_nil h
  rw [UnionTerm.spanTreesOf, UnionTerm.spanTrees]
  exact List.append_ne_nil_of_left_ne_nil
    (List.append_ne_nil_of_right_ne_nil _ (List.cons_ne_nil _ _)) _

/-- The places in the elements of an interface are those of each. -/
lemma InterfaceMember.spanTreesOf_eq (es : List InterfaceMember) :
    InterfaceMember.spanTreesOf es = es.flatMap InterfaceMember.spanTrees := by
  induction es with
  | nil => rfl
  | cons e es ih => rw [InterfaceMember.spanTreesOf, ih, List.flatMap_cons]

/-- A list of fields has its parentheses at least. -/
lemma FieldList.spanTrees_ne_nil (l : FieldList) : l.spanTrees ≠ [] := by
  cases l
  exact List.cons_ne_nil _ _

end GoService.Source
