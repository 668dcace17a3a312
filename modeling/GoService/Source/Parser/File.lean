import GoService.Source.Parser.Types

/-!
# Reading a file

Declarations and the file as a whole. After an error in a declaration the reader goes on at the next
keyword that begins one, so a file with errors still has a tree.
-/

namespace GoService.Source

namespace Parser

/-- Whether brackets after a type's name hold type parameters, and no array length. -/
def atTypeParams : Parser Bool := do
  match ← peekAt 1, ← peekAt 2 with
  | some (.ident _), some t =>
    return match t with
      | .ident _ => true
      | .mark m => (m matches .comma | .tilde | .lBrack)
      | .keyword k => (k matches .interfaceKw | .mapKw | .chanKw | .funcKw | .structKw)
      | _ => false
  | _, _ => return false

/-- Reads type parameters with one constraint. -/
def typeParamGroup : Parser TypeParamGroup := do
  let start ← nextSpan
  let names ← separatedBy (return false) .comma (requireIdent "type parameter")
  let constraint ← union topType
  return ⟨← noteSince .typeParamDecl start, names, constraint⟩

/-- Whether no type parameter begins here. -/
def atNoTypeParam : Parser Bool :=
  return !(← nextIs (· matches .ident _))

/-- Reads type parameters between brackets. -/
def typeParams : Parser TypeParams := do
  let lBrack ← take
  let decls ← separatedBy atNoTypeParam .comma typeParamGroup
  let rBrack ← requireSpan (.mark .rBrack) "`]`"
  note .typeParams (lBrack.cover rBrack)
  return ⟨lBrack.cover rBrack, lBrack, decls, rBrack⟩

/-- Reads the name that an import gives to its package, if there is one. -/
def importLabel : Parser (Option ImportLabel) := do
  match ← peek with
  | some (.mark .dot) => return some (.dot (← take))
  | some (.ident word) =>
    let span ← take
    return some (if word = .blank then .blank span else .name ⟨word, span⟩)
  | _ => return none

/-- Reads one import; without a path there is none. -/
def importSpec (doc : Option CommentGroup) : Parser (Option ImportSpec) := do
  let name ← importLabel
  match ← peek with
  | some (.stringLit s) | some (.rawStringLit s) =>
    let span ← take
    note .importSpec span
    return some ⟨doc, name, ⟨s, span⟩⟩
  | _ =>
    complain "import path"
    let _ ← skipStatement
    return none

/-- Skips the initial values of constants or variables, if there are any. -/
def initialValues : Parser (Option Span) := do
  match ← accept (.mark .assign) with
  | some _ => return some (← skipStatement)
  | none => return none

/-- Reads constants or variables. -/
def valueSpec (doc : Option CommentGroup) : Parser ValueSpec := do
  let names ← identList "identifier"
  let type ← whenever (nextIs beginsType) topType
  return ⟨doc, names, type, ← initialValues⟩

/-- Whether the type parameters of a declared type follow. -/
def isGeneric : Parser Bool := do
  if ← nextIs (· == .mark .lBrack) then atTypeParams else return false

/-- Reads one declared type. -/
def typeSpec (doc : Option CommentGroup) : Parser TypeSpec := do
  let name ← requireIdent "type name"
  let tps ← whenever isGeneric typeParams
  let equals ← accept (.mark .assign)
  let type ← topType
  note .typeSpec name.span
  return ⟨doc, name, tps, equals, type⟩

/-- Reads one entry of a declaration. -/
def spec (kind : DeclKind) (doc : Option CommentGroup) : Parser (Option Spec) := do
  match kind with
  | .imports => return (← importSpec doc).map .importSpec
  | .consts | .vars => return some (.valueSpec (← valueSpec doc))
  | .types => return some (.typeSpec (← typeSpec doc))

/-- Reads an entry of a declaration in parentheses and what ends it. -/
def specMember (kind : DeclKind) : Parser (Option Spec) := do
  let entry ← spec kind (← docAbove)
  finishStatement
  return entry

/-- Reads the entries of a declaration after its opening parenthesis, or else its one entry. The
entry of a declaration without parentheses has the documentation of the declaration. -/
def specs (kind : DeclKind) (doc : Option CommentGroup) (grouped : Bool) :
    Parser (List (Option Spec) × Option Span) := do
  if grouped then
    let entries ← membersUpTo .rParen (specMember kind)
    return (entries, ← require (.mark .rParen) "`)`")
  else return ([← spec kind doc], none)

/-- Reads an import, constant, type or variable declaration. -/
def genDecl (kind : DeclKind) : Parser GenDecl := do
  let doc ← docAbove
  let keyword ← take
  let lParen ← accept (.mark .lParen)
  let (entries, rParen) ← specs kind doc lParen.isSome
  finishDecl
  return ⟨← noteSince .decl keyword, doc, kind, keyword, lParen, entries.filterMap id, rParen⟩

/-- Reads a function or method. -/
def funcDecl : Parser FuncDecl := do
  let doc ← docAbove
  let keyword ← take
  let recv ← whenever (nextIs (· == .mark .lParen)) (params topType)
  let name ← requireIdent "function name"
  let tps ← whenever (nextIs (· == .mark .lBrack)) typeParams
  let sig ← signature topType
  let body ← whenever (nextIs (· == .mark .lBrace)) skipRun
  let span ← spanSince keyword
  finishDecl
  note .funcDecl span
  return ⟨span, doc, keyword, recv, name, tps, sig, body⟩

/-- Reads one declaration, or reports that none begins here. -/
def decl (first : Token) : Parser Decl := do
  match first with
  | .keyword .importKw => return .gen (← genDecl .imports)
  | .keyword .constKw => return .gen (← genDecl .consts)
  | .keyword .varKw => return .gen (← genDecl .vars)
  | .keyword .typeKw => return .gen (← genDecl .types)
  | .keyword .funcKw => return .func (← funcDecl)
  | _ =>
    complain "declaration"
    let start ← nextSpan
    skipToDecl
    return .bad (← noteSince .decl start)

/-- Reads declarations to the end of the tokens, in at most `fuel` steps. -/
def decls : Nat → Parser (List Decl)
  | 0 => giveUp
  | fuel + 1 => do
    match ← peek with
    | none => return []
    | some (.mark .semi) =>
      let _ ← take
      decls fuel
    | some t =>
      let d ← decl t
      return d :: (← decls fuel)

/-- A file: the package line, and declarations up to the end of the tokens. -/
def sourceFile : Parser SourceFile := do
  let doc ← docAbove
  let package ← requireSpan (.keyword .packageKw) "`package`"
  let name ← requireIdent "package name"
  finishDecl
  let ds ← decls ((← remaining) + 1)
  note .sourceFile package
  return ⟨package, name, ds, (← read).groups, doc⟩

end Parser

/-- A source text that was read: its tree, its lines, and the nodes that were built for the tree, in
the order in which they were finished. -/
structure Document where
  source : String
  lines : LineTable
  file : SourceFile
  built : List NodeLabel

namespace Document

/-- The text at a span. -/
def text (f : Document) (span : Span) : String :=
  textAt f.source.toList span

/-- The name in the package line. -/
def packageName (f : Document) : String :=
  f.file.name.name

/-- The line on which a place begins. -/
def lineOf (f : Document) (span : Span) : Nat :=
  f.lines.line span.start

end Document

/-- What reading a source text gives: the tree, complete or not, and the diagnostics in the order of
their places. -/
structure Parsed where
  file : Document
  diagnostics : List Diagnostic

/-- Whether nothing was wrong with the text. -/
def Parsed.isClean (p : Parsed) : Bool :=
  p.diagnostics.isEmpty

/-- What is known about a source text whose lexemes are given. -/
def Context.ofLexed (cs : List Char) (lexed : Lexed) : Context :=
  let lines := LineTable.ofChars cs
  let tokens := lexed.tokens.toArray
  let tokenEndLine (i : Nat) : Option Nat :=
    tokens[i]?.map fun t => lines.line (wrapped (t.span.stop - 1))
  ⟨lines, CommentGroup.ofComments lines tokenEndLine lexed.comments,
    min (byteSize cs) Span.maxOffset⟩

/-- Reads the tokens of a source text, and leaves the cursor where the reading ends. -/
def readTokens (cs : List Char) (lexed : Lexed) : SourceFile × Cursor :=
  Parser.sourceFile.run (.ofLexed cs lexed) |>.run (.start lexed.clampedTokens)

/-- Reads a source text. -/
def parse (source : String) : Parsed :=
  let cs := source.toList
  let lexed := lex cs
  let ctx := Context.ofLexed cs lexed
  let (file, cursor) := readTokens cs lexed
  let built := ctx.groups.map (fun g => ⟨.commentGroup, g.span⟩) ++ cursor.built.reverse
  ⟨⟨source, ctx.lines, file, built⟩,
    Diagnostic.sorted (lexed.diagnostics ++ cursor.diagnostics.reverse)⟩

end GoService.Source
