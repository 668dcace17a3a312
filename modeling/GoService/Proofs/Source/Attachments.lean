import GoService.Source.Tree
import Mathlib.Tactic.Lemma

/-!
# The comment groups that a tree refers to

Every comment group that stands in a tree as documentation or beside a field, in the order in which
the tree is written.
-/

namespace GoService.Source

mutual

/-- The groups in a type. -/
def TypeExpr.attached : TypeExpr → List CommentGroup
  | .named _ _ _ args => TypeExpr.attachedAll args
  | .pointer _ _ elem | .array _ _ elem | .slice _ elem | .chan _ _ elem | .paren _ elem =>
    elem.attached
  | .map _ key val => key.attached ++ val.attached
  | .struct _ _ fields _ => Field.attachedAll fields
  | .interface _ _ elems _ => InterfaceMember.attachedAll elems
  | .func _ signature => signature.attached
  | .bad .. => []

/-- The groups of comments attached within types. -/
def TypeExpr.attachedAll : List TypeExpr → List CommentGroup
  | [] => []
  | t :: ts => t.attached ++ TypeExpr.attachedAll ts

/-- The groups above and beside a field, and those in its type. -/
def Field.attached : Field → List CommentGroup
  | ⟨_, _, _, type, _, _, doc, comment⟩ => doc.toList ++ type.attached ++ comment.toList

/-- The groups of comments attached to fields and within them. -/
def Field.attachedAll : List Field → List CommentGroup
  | [] => []
  | f :: fs => f.attached ++ Field.attachedAll fs

/-- The groups of comments attached within a list of fields. -/
def FieldList.attached : FieldList → List CommentGroup
  | ⟨_, fields, _⟩ => Field.attachedAll fields

/-- The groups of comments attached within a signature. -/
def Signature.attached : Signature → List CommentGroup
  | ⟨_, params, none⟩ => params.attached
  | ⟨_, params, some results⟩ => params.attached ++ results.attached

/-- The groups of comments attached within results. -/
def ResultList.attached : ResultList → List CommentGroup
  | .params list => list.attached
  | .single type => type.attached

/-- The groups of comments attached within a term of a union. -/
def UnionTerm.attached : UnionTerm → List CommentGroup
  | ⟨_, type⟩ => type.attached

/-- The groups of comments attached within the terms of a union. -/
def UnionTerm.attachedAll : List UnionTerm → List CommentGroup
  | [] => []
  | t :: ts => t.attached ++ UnionTerm.attachedAll ts

/-- The groups of comments attached within an element of an interface. -/
def InterfaceMember.attached : InterfaceMember → List CommentGroup
  | .method _ signature => signature.attached
  | .union terms => UnionTerm.attachedAll terms

/-- The groups of comments attached within the elements of an interface. -/
def InterfaceMember.attachedAll : List InterfaceMember → List CommentGroup
  | [] => []
  | e :: es => e.attached ++ InterfaceMember.attachedAll es

end

/-- The groups of comments attached within type parameters with one constraint. -/
def TypeParamGroup.attached (g : TypeParamGroup) : List CommentGroup :=
  UnionTerm.attachedAll g.constraint

/-- The groups of comments attached within type parameters. -/
def TypeParams.attached (p : TypeParams) : List CommentGroup :=
  p.params.flatMap TypeParamGroup.attached

/-- The groups in an entry, with its documentation. -/
def Spec.attached : Spec → List CommentGroup
  | .importSpec s => s.doc.toList
  | .valueSpec s => s.doc.toList ++ (s.type.map TypeExpr.attached).getD []
  | .typeSpec s =>
    s.doc.toList ++ (s.typeParams.map TypeParams.attached).getD [] ++ s.type.attached

/-- The groups in a declaration, with its documentation. -/
def Decl.attached : Decl → List CommentGroup
  | .gen d => d.doc.toList ++ d.specs.flatMap Spec.attached
  | .func d =>
    d.doc.toList ++ (d.recv.map FieldList.attached).getD [] ++
      (d.typeParams.map TypeParams.attached).getD [] ++ d.signature.attached
  | .bad _ => []

/-- All groups that a file refers to. -/
def SourceFile.attached (f : SourceFile) : List CommentGroup :=
  f.doc.toList ++ f.decls.flatMap Decl.attached

/-! ## Lists in a tree -/

/-- The groups within types are those of each. -/
lemma TypeExpr.attachedAll_eq (ts : List TypeExpr) :
    TypeExpr.attachedAll ts = ts.flatMap TypeExpr.attached := by
  induction ts with
  | nil => rfl
  | cons t ts ih => rw [TypeExpr.attachedAll, ih, List.flatMap_cons]

/-- The groups within fields are those of each. -/
lemma Field.attachedAll_eq (fs : List Field) :
    Field.attachedAll fs = fs.flatMap Field.attached := by
  induction fs with
  | nil => rfl
  | cons f fs ih => rw [Field.attachedAll, ih, List.flatMap_cons]

/-- The groups within the terms of a union are those of each. -/
lemma UnionTerm.attachedAll_eq (ts : List UnionTerm) :
    UnionTerm.attachedAll ts = ts.flatMap UnionTerm.attached := by
  induction ts with
  | nil => rfl
  | cons t ts ih => rw [UnionTerm.attachedAll, ih, List.flatMap_cons]

/-- The groups within the elements of an interface are those of each. -/
lemma InterfaceMember.attachedAll_eq (es : List InterfaceMember) :
    InterfaceMember.attachedAll es = es.flatMap InterfaceMember.attached := by
  induction es with
  | nil => rfl
  | cons e es ih => rw [InterfaceMember.attachedAll, ih, List.flatMap_cons]

end GoService.Source
