import GoService.Source.Tree

/-!
# The nodes of a file and their outline

`NodeKind` names the kinds of nodes that a reader of a file can be told about. The outline of a file
is the tree of these nodes: each with its kind and place, and with the nodes below it in the order
in which they are written. `Outline.visits` lists an outline from the root down, each node before
the nodes below it.
-/

namespace GoService.Source

/-- The kinds of nodes. -/
inductive NodeKind where
  | sourceFile
  | decl
  | importSpec
  | typeSpec
  | funcDecl
  | type
  | field
  | signature
  | typeParams
  | typeParamDecl
  | commentGroup
  deriving DecidableEq, Inhabited

/-- The name of the kind. -/
def NodeKind.name : NodeKind → String
  | .sourceFile => "source_file"
  | .decl => "decl"
  | .importSpec => "import_spec"
  | .typeSpec => "type_spec"
  | .funcDecl => "func_decl"
  | .type => "type"
  | .field => "field"
  | .signature => "signature"
  | .typeParams => "type_params"
  | .typeParamDecl => "type_param_decl"
  | .commentGroup => "comment_group"

/-- A node by its kind and its place. -/
structure NodeLabel where
  kind : NodeKind
  span : Span
  deriving DecidableEq, Inhabited

/-- A node with the nodes below it. -/
inductive Outline where
  | node (kind : NodeKind) (span : Span) (children : List Outline)

/-- A node as it is met on the way down. -/
structure Visit where
  depth : Nat
  kind : NodeKind
  span : Span
  deriving DecidableEq, Inhabited

/-- The label of the node that is visited. -/
def Visit.label (v : Visit) : NodeLabel :=
  ⟨v.kind, v.span⟩

mutual

/-- The nodes of an outline at a depth, parents first. -/
def Outline.visits (depth : Nat) : Outline → List Visit
  | .node kind span children => ⟨depth, kind, span⟩ :: Outline.visitsAll (depth + 1) children

/-- The visits to trees one after another. -/
def Outline.visitsAll (depth : Nat) : List Outline → List Visit
  | [] => []
  | o :: os => o.visits depth ++ Outline.visitsAll depth os

end

mutual

/-- The tree of a type. -/
def TypeExpr.outline : TypeExpr → Outline
  | .named span _ _ args => .node .type span (TypeExpr.outlines args)
  | .pointer span _ elem | .array span _ elem | .slice span elem | .chan span _ elem =>
    .node .type span [elem.outline]
  | .map span key val => .node .type span [key.outline, val.outline]
  | .struct span _ fields _ => .node .type span (Field.outlines fields)
  | .interface span _ elems _ => .node .type span (InterfaceMember.outlines elems)
  | .func span signature => .node .type span [signature.outline]
  | .paren span inner => .node .type span [inner.outline]
  | .bad span _ => .node .type span []

/-- The outlines of types in a row. -/
def TypeExpr.outlines : List TypeExpr → List Outline
  | [] => []
  | t :: ts => t.outline :: TypeExpr.outlines ts

/-- The tree of a field. -/
def Field.outline : Field → Outline
  | ⟨span, _, _, type, _, _, _, _⟩ => .node .field span [type.outline]

/-- The trees of fields. -/
def Field.outlines : List Field → List Outline
  | [] => []
  | f :: fs => f.outline :: Field.outlines fs

/-- The trees in a list of fields. -/
def FieldList.outlines : FieldList → List Outline
  | ⟨_, fields, _⟩ => Field.outlines fields

/-- The outline of a signature: parameters, then results. -/
def Signature.outline : Signature → Outline
  | ⟨span, params, none⟩ => .node .signature span params.outlines
  | ⟨span, params, some results⟩ => .node .signature span (params.outlines ++ results.outlines)

/-- The trees in results. -/
def ResultList.outlines : ResultList → List Outline
  | .params list => list.outlines
  | .single type => [type.outline]

/-- The tree of a term of a union. -/
def UnionTerm.outline : UnionTerm → Outline
  | ⟨_, type⟩ => type.outline

/-- The trees of the terms of a union. -/
def UnionTerm.outlines : List UnionTerm → List Outline
  | [] => []
  | t :: ts => t.outline :: UnionTerm.outlines ts

/-- The trees in an element of an interface. -/
def InterfaceMember.memberOutlines : InterfaceMember → List Outline
  | .method _ signature => [signature.outline]
  | .union terms => UnionTerm.outlines terms

/-- The trees in the elements of an interface. -/
def InterfaceMember.outlines : List InterfaceMember → List Outline
  | [] => []
  | e :: es => e.memberOutlines ++ InterfaceMember.outlines es

end

/-- The tree of type parameters with one constraint. -/
def TypeParamGroup.outline (d : TypeParamGroup) : Outline :=
  .node .typeParamDecl d.span (UnionTerm.outlines d.constraint)

/-- The tree of type parameters. -/
def TypeParams.outline (p : TypeParams) : Outline :=
  .node .typeParams p.span (p.params.map TypeParamGroup.outline)

/-- The outline of type parameters that may be missing. -/
def TypeParams.outline? (p : Option TypeParams) : List Outline :=
  (p.map TypeParams.outline).toList

/-- The outlines of an entry: constants and variables show only their type. -/
def Spec.outlines : Spec → List Outline
  | .importSpec s => [.node .importSpec s.path.span []]
  | .valueSpec s => (s.type.map TypeExpr.outline).toList
  | .typeSpec s =>
    [.node .typeSpec s.name.span (TypeParams.outline? s.typeParams ++ [s.type.outline])]

/-- The tree of a declaration. -/
def Decl.outline : Decl → Outline
  | .gen d => .node .decl d.span (d.specs.flatMap Spec.outlines)
  | .func d =>
    .node .funcDecl d.span
      ((d.recv.map FieldList.outlines).getD [] ++ TypeParams.outline? d.typeParams ++
        [d.signature.outline])
  | .bad span => .node .decl span []

/-- The outline of a file: the declarations, then every comment group. -/
def SourceFile.outline (f : SourceFile) : Outline :=
  .node .sourceFile f.package
    (f.decls.map Decl.outline ++ f.comments.map fun g => .node .commentGroup g.span [])

end GoService.Source
