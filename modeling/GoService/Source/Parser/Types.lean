import GoService.Source.Parser.Cursor

/-!
# Reading types

Every function here that meets a type inside another construct takes the reader of that inner type
as its argument `type`. `typeWithin n` ties the knot: it reads a type whose nesting is at most `n`,
so recursion is on the nesting that is left, and nothing else recurs but loops over the tokens
ahead.
-/

namespace GoService.Source.Parser

/-- The deepest nesting of types that is read. -/
def typeDepthLimit : Nat := 512

/-- The tokens with which a type begins. -/
def beginsType : Token → Bool
  | .ident _ => true
  | .mark m => (m matches .star | .lBrack | .lParen | .arrow)
  | .keyword k => (k matches .mapKw | .chanKw | .funcKw | .structKw | .interfaceKw)
  | _ => false

/-- A name that turns out to be a type. -/
def nameAsType (name : Ident) : Parser TypeExpr := do
  note .type name.span
  return .named name.span none name []

/-! ## Parameters -/

/-- An entry of a parameter list before names and types are told apart; one without a type is a
single identifier. -/
structure ParamEntry where
  names : List Ident
  ellipsis : Option Span
  type : Option TypeExpr
  span : Span

/-- Gives the identifiers that wait for a type to the next entry that has one. `waiting` are those
identifiers and `from_` is the start of the first of them; identifiers for which no type comes are
types themselves. -/
def attachNames (waiting : List Ident) (from_ : Option Nat) : List ParamEntry → List ParamEntry
  | [] => waiting.map fun name => ⟨[name], none, none, name.span⟩
  | e :: es =>
    match e.type with
    | some type =>
      ⟨waiting ++ e.names, e.ellipsis, some type, ⟨from_.getD e.span.start, e.span.stop⟩⟩ ::
        attachNames [] none es
    | none =>
      let from_ := if waiting.isEmpty then some e.span.start else from_
      attachNames (waiting ++ e.names) from_ es

/-- Settles which identifiers of a parameter list are names: all lone ones, as soon as one entry has
both a name and a type. -/
def groupParams (entries : List ParamEntry) : List ParamEntry :=
  if entries.any fun e => e.type.isSome && !e.names.isEmpty then attachNames [] none entries
  else entries

/-- The parameter that a settled entry stands for; an entry without a type is a type by its name. -/
def paramField (e : ParamEntry) : Parser (Option Field) := do
  let build (names : List Ident) (type : TypeExpr) (span : Span) : Parser (Option Field) := do
    note .field span
    return some ⟨span, names, e.ellipsis, type, none, false, none, none⟩
  match e.type, e.names with
  | some type, names => build names type e.span
  | none, name :: _ => build [] (← nameAsType name) name.span
  | none, [] => return none

/-- The parameters that settled entries stand for. -/
def paramFields : List ParamEntry → Parser (List Field)
  | [] => return []
  | e :: es => do
    let field ← paramField e
    return field.toList ++ (← paramFields es)

/-- Reads one entry of a parameter list. -/
def paramEntry (type : Parser TypeExpr) : Parser ParamEntry := do
  let start ← nextSpan
  let unnamed : Parser ParamEntry := do
    let t ← type
    return ⟨[], none, some t, ← spanSince start⟩
  match ← peek, ← peekAt 1 with
  | some (.mark .ellipsis), _ =>
    let dots ← take
    let t ← type
    return ⟨[], some dots, some t, ← spanSince start⟩
  | some (.ident _), some next =>
    -- a lone identifier is a name or a type; `groupParams` settles which
    if next = .mark .comma ∨ next = .mark .rParen then
      let name ← requireIdent "parameter"
      return ⟨[name], none, none, ← spanSince start⟩
    else if next = .mark .ellipsis then
      let name ← requireIdent "parameter"
      let dots ← take
      let t ← type
      return ⟨[name], some dots, some t, ← spanSince start⟩
    else if beginsType next then
      let name ← requireIdent "parameter"
      let t ← type
      return ⟨[name], none, some t, ← spanSince start⟩
    else unnamed
  | _, _ => unnamed

/-- Reads one entry of a parameter list. An entry that reads no token is reported and costs the next
token. -/
def paramEntryOrSkip (type : Parser TypeExpr) : Parser ParamEntry := do
  let before ← position
  let entry ← paramEntry type
  complainIfStuck before "parameter"
  skipIfStuck before
  return entry

/-- Reads parameters between parentheses. -/
def params (type : Parser TypeExpr) : Parser FieldList := do
  let opening ← requireSpan (.mark .lParen) "`(`"
  let entries ← separatedBy (atEndOr .rParen) .comma (paramEntryOrSkip type)
  let closing ← requireSpan (.mark .rParen) "`)`"
  let fields ← paramFields (groupParams entries)
  return ⟨opening, fields, closing⟩

/-- Reads the results of a function, if there are any. -/
def results (type : Parser TypeExpr) : Parser (Option ResultList) := do
  if ← nextIs (· == .mark .lParen) then return some (.params (← params type))
  else if ← nextIs beginsType then return some (.single (← type))
  else return none

/-- Reads the parameters and results of a function. -/
def signature (type : Parser TypeExpr) : Parser Signature := do
  let start ← nextSpan
  let ps ← params type
  let rs ← results type
  return ⟨← noteSince .signature start, ps, rs⟩

/-! ## Named types, unions and lists of names -/

/-- Reads a name with the package that qualifies it, if there is one. -/
def qualifiedName : Parser (Option Ident × Ident) := do
  let first ← requireIdent "type name"
  match ← accept (.mark .dot) with
  | some _ => return (some first, ← requireIdent "type name")
  | none => return (none, first)

/-- Reads type arguments between brackets, if there are any. -/
def typeArgs (type : Parser TypeExpr) : Parser (List TypeExpr) := do
  match ← accept (.mark .lBrack) with
  | some _ =>
    let args ← separatedBy (atEndOr .rBrack) .comma type
    let _ ← require (.mark .rBrack) "`]`"
    return args
  | none => return []

/-- Reads a name, qualified or not, with its type arguments. -/
def namedType (type : Parser TypeExpr) : Parser TypeExpr := do
  let start ← nextSpan
  let (pkg, name) ← qualifiedName
  let args ← typeArgs type
  return .named (← noteSince .type start) pkg name args

/-- A term of a union: a type, with a tilde perhaps. -/
def unionTerm (type : Parser TypeExpr) : Parser UnionTerm := do
  let tilde ← accept (.mark .tilde)
  return ⟨tilde, ← type⟩

/-- Reads a union of types. -/
def union (type : Parser TypeExpr) : Parser (List UnionTerm) :=
  separatedBy (return false) .pipe (unionTerm type)

/-- Reads the identifiers that follow commas, at most `fuel` of them. -/
def moreIdents (what : String) : Nat → Parser (List Ident)
  | 0 => giveUp
  | fuel + 1 => do
    match ← peek, ← peekAt 1 with
    | some (.mark .comma), some (.ident _) =>
      let _ ← take
      let name ← requireIdent what
      return name :: (← moreIdents what fuel)
    | _, _ => return []

/-- Reads identifiers with commas between them. -/
def identList (what : String) : Parser (List Ident) := do
  let first ← requireIdent what
  return first :: (← moreIdents what ((← remaining) + 1))

/-! ## Structs and interfaces -/

/-- Whether a struct field that begins here is embedded: a type without a name before it. After a
name, brackets belong to an embedded generic type if a field can end after them. -/
def atEmbedded : Parser Bool := do
  match ← peek, ← peekAt 1 with
  | some (.mark .star), _ => return true
  | some (.ident _), none => return true
  | some (.ident _), some (.mark .dot) | some (.ident _), some (.mark .semi)
  | some (.ident _), some (.mark .rBrace) => return true
  | some (.ident _), some (.mark .lBrack) =>
    match tokenAfterRun? 0 ((← get).rest.drop 1) with
    | none => return true
    | some t => return t = .mark .semi ∨ t = .mark .rBrace ∨ t.isString
  | some (.ident _), some t => return t.isString
  | _, _ => return false

/-- Reads the tag of a struct field, if there is one. -/
def fieldTag : Parser (Option StringLiteral) := do
  match ← peek with
  | some (.stringLit s) | some (.rawStringLit s) => return some ⟨s, ← take⟩
  | _ => return none

/-- A field of a struct: names with their type, or an embedded type. -/
def structField (type : Parser TypeExpr) : Parser Field := do
  let start ← nextSpan
  let doc ← docAbove
  let embedded ← atEmbedded
  let names ← (if embedded then return [] else identList "field name" : Parser (List Ident))
  let t ← type
  let tag ← fieldTag
  let comment ← commentBeside
  return ⟨← noteSince .field start, names, none, t, tag, embedded, doc, comment⟩

/-- Reads the end of a struct field, or skips to where it may be. -/
def finishField : Parser Unit := do
  match ← peek with
  | some (.mark .semi) => let _ ← take
  | some (.mark .rBrace) | none => return ()
  | some _ =>
    complain "`;` or `\x7d` after field"
    let _ ← skipStatement

/-- Reads a struct field and what ends it. -/
def structMember (type : Parser TypeExpr) : Parser Field := do
  let field ← structField type
  finishField
  return field

/-- A struct type, at its keyword. -/
def structType (type : Parser TypeExpr) : Parser TypeExpr := do
  let start ← take
  let lBrace ← requireSpan (.mark .lBrace) "`\x7b`"
  let fields ← membersUpTo .rBrace (structMember type)
  let rBrace ← requireSpan (.mark .rBrace) "`\x7d`"
  return .struct (← noteSince .type start) lBrace fields rBrace

/-- Reads a method or a union of an interface. -/
def interfaceElement (type : Parser TypeExpr) : Parser InterfaceMember := do
  match ← peek, ← peekAt 1 with
  | some (.ident _), some (.mark .lParen) =>
    let name ← requireIdent "method name"
    return .method name (← signature type)
  | _, _ => return .union (← union type)

/-- Reads the end of an element of an interface; a closing brace or the end of the tokens will
do. -/
def finishElement : Parser Unit := do
  if ← atEndOr .rBrace then return () else finishStatement

/-- Reads an element of an interface and what ends it. -/
def interfaceMember (type : Parser TypeExpr) : Parser InterfaceMember := do
  let element ← interfaceElement type
  finishElement
  return element

/-- An interface type, at its keyword. -/
def interfaceType (type : Parser TypeExpr) : Parser TypeExpr := do
  let start ← take
  let lBrace ← requireSpan (.mark .lBrace) "`\x7b`"
  let elems ← membersUpTo .rBrace (interfaceMember type)
  let rBrace ← requireSpan (.mark .rBrace) "`\x7d`"
  return .interface (← noteSince .type start) lBrace elems rBrace

/-! ## Types -/

/-- Reads an array or slice type. -/
def bracketType (type : Parser TypeExpr) : Parser TypeExpr := do
  let start ← nextSpan
  if (← peekAt 1) = some (.mark .rBrack) then
    let _ ← take
    let _ ← take
    let elem ← type
    return .slice (← noteSince .type start) elem
  else
    let len ← skipRun
    let elem ← type
    return .array (← noteSince .type start) len elem

/-- A map type, at its keyword. -/
def mapType (type : Parser TypeExpr) : Parser TypeExpr := do
  let start ← take
  let _ ← require (.mark .lBrack) "`[`"
  let key ← type
  let _ ← require (.mark .rBrack) "`]`"
  let val ← type
  return .map (← noteSince .type start) key val

/-- Reads the arrow after `chan`, if there is one. -/
def chanDir : Parser ChanDir := do
  match ← accept (.mark .arrow) with
  | some _ => return .send
  | none => return .both

/-- Reads a channel type that begins with `chan`. -/
def chanType (type : Parser TypeExpr) : Parser TypeExpr := do
  let start ← take
  let dir ← chanDir
  let elem ← type
  return .chan (← noteSince .type start) dir elem

/-- Reads a channel type that begins with an arrow. -/
def recvType (type : Parser TypeExpr) : Parser TypeExpr := do
  let start ← take
  let _ ← require (.keyword .chanKw) "`chan`"
  let elem ← type
  return .chan (← noteSince .type start) .recv elem

/-- Reads one type; `type` reads the types inside it. -/
def typeBody (type : Parser TypeExpr) : Parser TypeExpr := do
  match ← peek with
  | some (.ident _) => namedType type
  | some (.mark .star) =>
    let star ← take
    let elem ← type
    return .pointer (← noteSince .type star) star elem
  | some (.mark .lBrack) => bracketType type
  | some (.keyword .mapKw) => mapType type
  | some (.keyword .chanKw) => chanType type
  | some (.mark .arrow) => recvType type
  | some (.keyword .funcKw) =>
    let start ← take
    let sig ← signature type
    return .func (← noteSince .type start) sig
  | some (.keyword .structKw) => structType type
  | some (.keyword .interfaceKw) => interfaceType type
  | some (.mark .lParen) =>
    let start ← take
    let inner ← type
    let _ ← require (.mark .rParen) "`)`"
    return .paren (← noteSince .type start) inner
  | _ =>
    let start ← nextSpan
    complain "type"
    return .bad (← noteSince .type start) start

/-- Reports a type that is nested too deeply; it is not read. -/
def tooDeep : Parser TypeExpr := do
  let span ← nextSpan
  report span .nestedTooDeeply
  note .type span
  return .bad span span

/-- Reads a type nested at most `n` deep. -/
def typeWithin : Nat → Parser TypeExpr
  | 0 => tooDeep
  | n + 1 => typeBody (typeWithin n)

/-- A type that is within no other. -/
def topType : Parser TypeExpr :=
  typeWithin typeDepthLimit

end GoService.Source.Parser
