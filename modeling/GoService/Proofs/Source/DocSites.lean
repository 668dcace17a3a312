import GoService.Proofs.Source.Placement
import GoService.Source.Parser.Cursor

/-!
# Where documentation stands

The places in a tree that can have documentation: the file, its declarations, the entries of
declarations in parentheses, and the fields of structs, however deep in a type. Parameters, results
and receivers are fields too, but they have none.
-/

namespace GoService.Source

/-- What stands in a tree as documentation, and the offset at which the documented node begins. -/
structure DocSite where
  doc : Option CommentGroup
  start : Nat

mutual

/-- The fields of the structs in a type. -/
def TypeExpr.docSites : TypeExpr → List DocSite
  | .named _ _ _ args => TypeExpr.docSitesOf args
  | .pointer _ _ elem | .array _ _ elem | .slice _ elem | .chan _ _ elem | .paren _ elem =>
    elem.docSites
  | .map _ key val => key.docSites ++ val.docSites
  | .struct _ _ fields _ => Field.structSites fields
  | .interface _ _ elems _ => InterfaceMember.docSitesOf elems
  | .func _ signature => signature.docSites
  | .bad .. => []

/-- The documented places within types. -/
def TypeExpr.docSitesOf : List TypeExpr → List DocSite
  | [] => []
  | t :: ts => t.docSites ++ TypeExpr.docSitesOf ts

/-- The fields of a struct, each with those in its type. -/
def Field.structSites : List Field → List DocSite
  | [] => []
  | ⟨span, _, _, type, _, _, doc, _⟩ :: fs =>
    ⟨doc, span.start⟩ :: (type.docSites ++ Field.structSites fs)

/-- The fields in the types of parameters. -/
def Field.paramSites : List Field → List DocSite
  | [] => []
  | ⟨_, _, _, type, _, _, _, _⟩ :: fs => type.docSites ++ Field.paramSites fs

/-- The documented places within a list of fields. -/
def FieldList.docSites : FieldList → List DocSite
  | ⟨_, fields, _⟩ => Field.paramSites fields

/-- The documented places within a signature. -/
def Signature.docSites : Signature → List DocSite
  | ⟨_, params, none⟩ => params.docSites
  | ⟨_, params, some results⟩ => params.docSites ++ results.docSites

/-- The documented places within results. -/
def ResultList.docSites : ResultList → List DocSite
  | .params list => list.docSites
  | .single type => type.docSites

/-- The documented places within the terms of a union. -/
def UnionTerm.docSitesOf : List UnionTerm → List DocSite
  | [] => []
  | ⟨_, type⟩ :: ts => type.docSites ++ UnionTerm.docSitesOf ts

/-- The documented places within an element of an interface. -/
def InterfaceMember.docSites : InterfaceMember → List DocSite
  | .method _ signature => signature.docSites
  | .union terms => UnionTerm.docSitesOf terms

/-- The documented places within the elements of an interface. -/
def InterfaceMember.docSitesOf : List InterfaceMember → List DocSite
  | [] => []
  | e :: es => e.docSites ++ InterfaceMember.docSitesOf es

end

/-- The documented places within type parameters. -/
def TypeParams.docSites (p : TypeParams) : List DocSite :=
  p.params.flatMap fun g => UnionTerm.docSitesOf g.constraint

/-- The documentation of an entry. -/
def Spec.doc : Spec → Option CommentGroup
  | .importSpec s => s.doc
  | .valueSpec s => s.doc
  | .typeSpec s => s.doc

/-- The place of the name of an import. -/
def ImportLabel.span : ImportLabel → Span
  | .dot span | .blank span => span
  | .name ident => ident.span

/-- The offset at which an entry begins. -/
def Spec.start : Spec → Nat
  | .importSpec s => ((s.name.map ImportLabel.span).getD s.path.span).start
  | .valueSpec s => ((s.names.head?.map Ident.span).getD default).start
  | .typeSpec s => s.name.span.start

/-- The fields of structs in the types of an entry. -/
def Spec.docSites : Spec → List DocSite
  | .importSpec _ => []
  | .valueSpec s => (s.type.map TypeExpr.docSites).getD []
  | .typeSpec s => (s.typeParams.map TypeParams.docSites).getD [] ++ s.type.docSites

/-- A declaration, its entries if they stand in parentheses, and the fields of structs in it. -/
def Decl.docSites : Decl → List DocSite
  | .gen d =>
    ⟨d.doc, d.keyword.start⟩ ::
      ((if d.lParen.isSome then d.specs.map fun s => ⟨s.doc, s.start⟩ else []) ++
        d.specs.flatMap Spec.docSites)
  | .func d =>
    ⟨d.doc, d.keyword.start⟩ ::
      ((d.recv.map FieldList.docSites).getD [] ++ (d.typeParams.map TypeParams.docSites).getD [] ++
        d.signature.docSites)
  | .bad _ => []

/-- The documented places of a file: its package line, and those of its declarations. -/
def SourceFile.docSites (f : SourceFile) : List DocSite :=
  ⟨f.doc, f.package.start⟩ :: f.decls.flatMap Decl.docSites

/-! ## Lists in a tree -/

/-- The places within types are those of each. -/
lemma TypeExpr.docSitesOf_eq (ts : List TypeExpr) :
    TypeExpr.docSitesOf ts = ts.flatMap TypeExpr.docSites := by
  induction ts with
  | nil => rfl
  | cons t ts ih => rw [TypeExpr.docSitesOf, ih, List.flatMap_cons]

/-- The places within parameters are those of their types. -/
lemma Field.paramSites_eq (fs : List Field) :
    Field.paramSites fs = fs.flatMap fun f => f.type.docSites := by
  induction fs with
  | nil => rfl
  | cons f fs ih =>
    cases f
    rw [Field.paramSites, ih, List.flatMap_cons]

/-- The places within the terms of a union are those of their types. -/
lemma UnionTerm.docSitesOf_eq (ts : List UnionTerm) :
    UnionTerm.docSitesOf ts = ts.flatMap fun t => t.type.docSites := by
  induction ts with
  | nil => rfl
  | cons t ts ih =>
    cases t
    rw [UnionTerm.docSitesOf, ih, List.flatMap_cons]

/-- The places within the elements of an interface are those of each. -/
lemma InterfaceMember.docSitesOf_eq (es : List InterfaceMember) :
    InterfaceMember.docSitesOf es = es.flatMap InterfaceMember.docSites := by
  induction es with
  | nil => rfl
  | cons e es ih => rw [InterfaceMember.docSitesOf, ih, List.flatMap_cons]

/-! ## Sites that were read -/

/-- The documented node begins at a token that is written, and its documentation is the group that
belongs to that token. -/
def DocSite.IsRead (ctx : Context) (tokens : List Placed) (s : DocSite) : Prop :=
  ∃ i p, tokens[i]? = some p ∧ p.isInserted = false ∧ p.span.start = s.start ∧
    s.doc = CommentGroup.lead? ctx.groups i (ctx.lines.line s.start)

end GoService.Source
