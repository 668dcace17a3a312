import GoService.Source.Tree

/-!
# The shape of a service function

A service function takes a context and perhaps one value, and gives perhaps one value and an error.
Whether a signature has this shape is judged by what is written, before any name is looked up: each
of these types has to be a name, and for the values it may be a pointer to a name.
-/

namespace GoService.Service

open Source (TypeExpr FieldList ResultList FuncDecl)

/-- What keeps a function from being a service function; `found` is the type that is in the way. -/
inductive ShapeFault where
  | method
  | typeParams
  | variadic
  | paramCount (n : Nat)
  | resultCount (n : Nat)
  | context (found : String)
  | param (found : String)
  | result (found : String)
  | error (found : String)
  deriving DecidableEq, Inhabited

/-- What is told of the fault. -/
def ShapeFault.message : ShapeFault → String
  | .method => "methods cannot be annotated @fn"
  | .typeParams => "type parameters are not supported"
  | .variadic => "variadic parameters are not supported"
  | .paramCount n => s!"expected 1 or 2 parameters, found {n}"
  | .resultCount n => s!"expected 1 or 2 results, found {n}"
  | .context found => s!"first parameter must be the framework context, found {found}"
  | .param found => s!"parameter must be a struct or a pointer to one, found {found}"
  | .result found => s!"result must be a struct or a pointer to one, found {found}"
  | .error found => s!"last result must be the framework error, found {found}"

/-- A single parameter or result. -/
structure Operand where
  name : Option String
  type : TypeExpr
  variadic : Bool

/-- The operands that a field declares: one for each name, or one without a name. A blank is no
name. -/
def fieldOperands (f : Source.Field) : List Operand :=
  let operand (name : Option String) : Operand := ⟨name, f.type, f.ellipsis.isSome⟩
  match f.names with
  | [] => [operand none]
  | names => names.map fun n => operand (if n.name = "_" then none else some n.name)

/-- The operands that a list of fields declares. -/
def operands (l : FieldList) : List Operand :=
  l.fields.flatMap fieldOperands

/-- The operands of results. -/
def resultOperands : Option ResultList → List Operand
  | none => []
  | some (.single type) => [⟨none, type, false⟩]
  | some (.params list) => operands list

/-- Whether a type is a name without type arguments, possibly in parentheses; with `pointer` it may
also be a pointer to one. -/
def isPlainName (pointer : Bool) : TypeExpr → Bool
  | .paren _ inner => isPlainName pointer inner
  | .pointer _ _ elem => pointer && isPlainName false elem
  | .named _ _ _ args => args.isEmpty
  | _ => false

/-- The operands of a service function. -/
structure Shape where
  context : Operand
  param : Option Operand
  result : Option Operand
  error : Operand

namespace Shape

/-- The operands of a function in their places, if there are as many as there have to be. -/
def ofOperands (d : FuncDecl) : Except ShapeFault Shape := do
  if d.recv.isSome then throw .method
  if d.typeParams.isSome then throw .typeParams
  let params := operands d.signature.params
  if params.any (·.variadic) then throw .variadic
  let (context, param) ←
    match params with
    | [c] => pure (c, none)
    | [c, p] => pure (c, some p)
    | _ => throw (.paramCount params.length)
  let results := resultOperands d.signature.results
  match results with
  | [e] => return ⟨context, param, none, e⟩
  | [r, e] => return ⟨context, param, some r, e⟩
  | _ => throw (.resultCount results.length)

/-- The first operand whose type is not written as it has to be; `text` is the text of a type. -/
def fault? (text : TypeExpr → String) (s : Shape) : Option ShapeFault :=
  if !isPlainName false s.context.type then some (.context (text s.context.type))
  else
    match s.param.filter (!isPlainName true ·.type), s.result.filter (!isPlainName true ·.type) with
    | some p, _ => some (.param (text p.type))
    | none, some r => some (.result (text r.type))
    | none, none =>
      if !isPlainName false s.error.type then some (.error (text s.error.type)) else none

/-- The shape of a declaration, or what is wrong with it. -/
def ofDecl (text : TypeExpr → String) (d : FuncDecl) : Except ShapeFault Shape := do
  let shape ← ofOperands d
  match shape.fault? text with
  | some fault => throw fault
  | none => return shape

end Shape

end GoService.Service
