import GoService.Source.Comment
import GoService.Source.StringLiteral
import GoService.Source.Word

/-!
# The declaration tree of a source file

The parts of a source file that describe shape: the package clause, imports, constant, variable and
type declarations, and the signatures of functions. Function bodies, initial values and array
lengths are kept as spans only. Nodes own their children, so the tree is finite by construction.
-/

namespace GoService.Source

/-- An identifier at its place. -/
structure Ident where
  word : Word
  span : Span
  deriving DecidableEq, Inhabited

/-- The text of the identifier. -/
def Ident.name (i : Ident) : String :=
  i.word.text

/-- A string literal at its place. `text` is that of the token, with the quotes. It is what the
source has at the span unless the span is cut off; there the source would give another text or
none. -/
structure StringLiteral where
  text : String
  span : Span
  deriving DecidableEq, Inhabited

/-- The string that the literal denotes. -/
def StringLiteral.value (l : StringLiteral) : Except LiteralError String :=
  unquote l.text

/-- The ways in which a channel may be used. -/
inductive ChanDir where
  | both
  | send
  | recv
  deriving DecidableEq, Inhabited

mutual

/-- A type as it is written, with the span of the whole. -/
inductive TypeExpr where
  /-- A name, qualified or not, perhaps with type arguments. -/
  | named (span : Span) (pkg : Option Ident) (name : Ident) (args : List TypeExpr)
  | pointer (span : Span) (star : Span) (elem : TypeExpr)
  /-- An array; `len` covers the brackets. -/
  | array (span : Span) (len : Span) (elem : TypeExpr)
  | slice (span : Span) (elem : TypeExpr)
  | map (span : Span) (key : TypeExpr) (val : TypeExpr)
  | chan (span : Span) (dir : ChanDir) (elem : TypeExpr)
  | struct (span : Span) (lBrace : Span) (fields : List Field) (rBrace : Span)
  | interface (span : Span) (lBrace : Span) (elems : List InterfaceMember) (rBrace : Span)
  | func (span : Span) (signature : Signature)
  | paren (span : Span) (inner : TypeExpr)
  /-- No type could be read at `place`. -/
  | bad (span : Span) (place : Span)

/-- A struct field, parameter, result or receiver; without names it is embedded or unnamed. -/
structure Field where
  span : Span
  names : List Ident
  ellipsis : Option Span
  type : TypeExpr
  tag : Option StringLiteral
  embedded : Bool
  doc : Option CommentGroup
  comment : Option CommentGroup

/-- Parameters or results between parentheses. -/
structure FieldList where
  opening : Span
  fields : List Field
  closing : Span

/-- The parameters and results of a function. -/
structure Signature where
  span : Span
  params : FieldList
  results : Option ResultList

/-- The results of a function: a list in parentheses or a single type. -/
inductive ResultList where
  | params (list : FieldList)
  | single (type : TypeExpr)

/-- A type in a union, with its tilde if it has one. -/
structure UnionTerm where
  tilde : Option Span
  type : TypeExpr

/-- A method of an interface, or an embedded union of types. -/
inductive InterfaceMember where
  | method (name : Ident) (signature : Signature)
  | union (terms : List UnionTerm)

end

instance : Inhabited TypeExpr := ⟨.bad default default⟩

/-- The place of a type expression. -/
def TypeExpr.span : TypeExpr → Span
  | .named s .. | .pointer s .. | .array s .. | .slice s .. | .map s .. | .chan s ..
  | .struct s .. | .interface s .. | .func s .. | .paren s .. | .bad s .. => s

/-- Induction on the types of which a type is directly made up. Type arguments, fields, signatures
and channel elements do not count. -/
@[elab_as_elim]
theorem TypeExpr.partsInduction {motive : TypeExpr → Prop}
    (named : ∀ span pkg name args, motive (.named span pkg name args))
    (pointer : ∀ span star elem, motive elem → motive (.pointer span star elem))
    (array : ∀ span len elem, motive elem → motive (.array span len elem))
    (slice : ∀ span elem, motive elem → motive (.slice span elem))
    (map : ∀ span key val, motive key → motive val → motive (.map span key val))
    (chan : ∀ span dir elem, motive (.chan span dir elem))
    (struct : ∀ span lBrace fields rBrace, motive (.struct span lBrace fields rBrace))
    (interface : ∀ span lBrace elems rBrace, motive (.interface span lBrace elems rBrace))
    (func : ∀ span signature, motive (.func span signature))
    (paren : ∀ span inner, motive inner → motive (.paren span inner))
    (bad : ∀ span place, motive (.bad span place)) (type : TypeExpr) : motive type :=
  match type with
  | .named .. => named ..
  | .pointer _ _ elem =>
    pointer _ _ elem (partsInduction named pointer array slice map chan struct interface func paren
      bad elem)
  | .array _ _ elem =>
    array _ _ elem (partsInduction named pointer array slice map chan struct interface func paren
      bad elem)
  | .slice _ elem =>
    slice _ elem (partsInduction named pointer array slice map chan struct interface func paren
      bad elem)
  | .map _ key val =>
    map _ key val
      (partsInduction named pointer array slice map chan struct interface func paren bad key)
      (partsInduction named pointer array slice map chan struct interface func paren bad val)
  | .chan .. => chan ..
  | .struct .. => struct ..
  | .interface .. => interface ..
  | .func .. => func ..
  | .paren _ inner =>
    paren _ inner (partsInduction named pointer array slice map chan struct interface func paren
      bad inner)
  | .bad .. => bad ..

/-- Type parameters with one constraint. -/
structure TypeParamGroup where
  span : Span
  names : List Ident
  constraint : List UnionTerm

/-- A list of type parameters between brackets. -/
structure TypeParams where
  span : Span
  lBrack : Span
  params : List TypeParamGroup
  rBrack : Span

/-- The name that an import gives to its package. -/
inductive ImportLabel where
  | dot (span : Span)
  | blank (span : Span)
  | name (ident : Ident)
  deriving DecidableEq

/-- One imported package. -/
structure ImportSpec where
  doc : Option CommentGroup
  name : Option ImportLabel
  path : StringLiteral

/-- Constants or variables; `values` covers the initial values. -/
structure ValueSpec where
  doc : Option CommentGroup
  names : List Ident
  type : Option TypeExpr
  values : Option Span

/-- A declared type; with an equals sign it is an alias. -/
structure TypeSpec where
  doc : Option CommentGroup
  name : Ident
  typeParams : Option TypeParams
  equals : Option Span
  type : TypeExpr

/-- Whether the declaration is an alias. -/
def TypeSpec.isAlias (s : TypeSpec) : Bool :=
  s.equals.isSome

/-- What one entry of a declaration declares. -/
inductive Spec where
  | importSpec (spec : ImportSpec)
  | valueSpec (spec : ValueSpec)
  | typeSpec (spec : TypeSpec)

/-- The keyword of a declaration other than a function. -/
inductive DeclKind where
  | imports
  | consts
  | types
  | vars
  deriving DecidableEq, Inhabited

/-- The name of the declaration's keyword. -/
def DeclKind.name : DeclKind → String
  | .imports => "import"
  | .consts => "const"
  | .types => "type"
  | .vars => "var"

/-- An import, constant, type or variable declaration, single or in parentheses. -/
structure GenDecl where
  span : Span
  doc : Option CommentGroup
  kind : DeclKind
  keyword : Span
  lParen : Option Span
  specs : List Spec
  rParen : Option Span

/-- A function or method; `body` covers the braces. -/
structure FuncDecl where
  span : Span
  doc : Option CommentGroup
  keyword : Span
  recv : Option FieldList
  name : Ident
  typeParams : Option TypeParams
  signature : Signature
  body : Option Span

/-- A declaration at the top level. -/
inductive Decl where
  | gen (decl : GenDecl)
  | func (decl : FuncDecl)
  /-- No declaration could be read here. -/
  | bad (span : Span)

/-- A source file. -/
structure SourceFile where
  package : Span
  name : Ident
  decls : List Decl
  comments : List CommentGroup
  doc : Option CommentGroup

/-- The text of a comment group that may be missing. -/
def docContent (doc : Option CommentGroup) : String :=
  (doc.map CommentGroup.content).getD ""

end GoService.Source
