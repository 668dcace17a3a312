import GoService.Source.Lexeme
import GoService.Source.Node

/-!
# Reading tokens

The state of a parser is a cursor in the list of tokens, the diagnostics so far and the nodes built
so far. A parser never fails: it reports a diagnostic and goes on. The skipping
functions pass over bracketed runs whose content is not modelled; each is a plain function on the
tokens ahead. The loops over items are the same throughout the grammar: `separated` for items with
separators, `members` for items between brackets. They count down a number of steps, and a cursor
remembers whether such a number was ever used up.
-/

namespace GoService.Source

/-- What a parser knows about its source: the lines, the comment groups and the offset of the
end. -/
structure Context where
  lines : LineTable
  groups : List CommentGroup
  endOffset : Nat

/-- The tokens ahead, the index of the first of them, the offset at which the last token before
them ends, and, newest first, the diagnostics and the nodes built. `gaveUp` says whether a loop was
cut short because its number of steps was used up. -/
structure Cursor where
  rest : List Placed
  pos : Nat
  prevEnd : Nat
  diagnostics : List Diagnostic
  built : List NodeLabel
  gaveUp : Bool

/-- Before the first token. -/
def Cursor.start (tokens : List Placed) : Cursor :=
  ⟨tokens, 0, 0, [], [], false⟩

/-- The cursor after the next token; at the end it stays. -/
def Cursor.next (c : Cursor) : Cursor :=
  match c.rest with
  | [] => c
  | t :: ts => { c with rest := ts, pos := c.pos + 1, prevEnd := t.span.stop }

/-- The cursor `n` tokens further on. -/
def Cursor.advance : Nat → Cursor → Cursor
  | 0, c => c
  | n + 1, c => Cursor.advance n c.next

/-- A parser looks at what is known of the source, and moves the cursor. -/
abbrev Parser := ReaderT Context (StateM Cursor)

namespace Parser

/-- The token some places ahead. -/
def peekAt (n : Nat) : Parser (Option Token) :=
  return (← get).rest[n]?.map Placed.token

/-- The next token. -/
def peek : Parser (Option Token) :=
  peekAt 0

/-- The number of tokens ahead. -/
def remaining : Parser Nat :=
  return (← get).rest.length

/-- The index of the next token. -/
def position : Parser Nat :=
  return (← get).pos

/-- The span of the next token; at the end, the empty span there. -/
def nextSpan : Parser Span := do
  match (← get).rest with
  | t :: _ => return t.span
  | [] => return .emptyAt (← read).endOffset

/-- The place from a start to the end of the last token read. -/
def spanSince (start : Span) : Parser Span :=
  return ⟨start.start, max (← get).prevEnd start.start⟩

/-- Reads the next token, whatever it is, and gives its span. -/
def take : Parser Span := do
  let span ← nextSpan
  modify Cursor.next
  return span

/-- Reports a problem at a place. -/
def report (span : Span) (problem : Problem) : Parser Unit :=
  modify fun c => { c with diagnostics := ⟨span, problem⟩ :: c.diagnostics }

/-- Notes a node. -/
def note (kind : NodeKind) (span : Span) : Parser Unit :=
  modify fun c => { c with built := ⟨kind, span⟩ :: c.built }

/-- Notes a node that begins where `start` does and ends where the last token read ends. -/
def noteSince (kind : NodeKind) (start : Span) : Parser Span := do
  let span ← spanSince start
  note kind span
  return span

/-- What stands at the cursor, for a message. -/
def found : Parser Found := do
  match ← peek with
  | none => return .endOfFile
  -- an empty semicolon is one that a line end stands for
  | some t => return if t = .mark .semi ∧ (← nextSpan).isEmpty then .newline else .token t

/-- Reports that something else was expected than is found. -/
def complain (what : String) : Parser Unit := do
  report (← nextSpan) (.expected what (← found))

/-- Reads the given token if it is the next one. -/
def accept (t : Token) : Parser (Option Span) := do
  if (← peek) = some t then return some (← take) else return none

/-- Reads the given token, or reports that it is missing. -/
def require (t : Token) (what : String) : Parser (Option Span) := do
  match ← accept t with
  | some span => return some span
  | none => complain what; return none

/-- Reads the given token and gives its span; where it is missing, that of the next token. -/
def requireSpan (t : Token) (what : String) : Parser Span := do
  match ← require t what with
  | some span => return span
  | none => nextSpan

/-- Reads an identifier; where it is missing, `_` stands for it. -/
def requireIdent (what : String) : Parser Ident := do
  match ← peek with
  | some (.ident word) => return ⟨word, ← take⟩
  | _ =>
    complain what
    return ⟨.blank, .emptyAt (← nextSpan).start⟩

/-- Reads the end of a statement, which may be missing before a closing bracket and at the end. -/
def endStatement : Parser Bool := do
  match ← peek with
  | some (.mark .semi) => let _ ← take; return true
  | none | some (.mark .rParen) | some (.mark .rBrace) => return true
  | some _ => complain "`;` or newline"; return false

/-- The length of the run up to and with the closer that brings the bracket depth to zero, and the
depth that is left where the tokens end before that. -/
def balancedLength (depth : Nat) : List Placed → Nat × Nat
  | [] => (0, depth)
  | t :: ts =>
    if t.token.isOpening then
      let (n, left) := balancedLength (depth + 1) ts
      (n + 1, left)
    else if t.token.isClosing then
      if depth ≤ 1 then (1, 0)
      else
        let (n, left) := balancedLength (depth - 1) ts
        (n + 1, left)
    else
      let (n, left) := balancedLength depth ts
      (n + 1, left)

/-- The number of tokens before a semicolon or an unmatched closer. -/
def terminatorDistance (depth : Nat) : List Placed → Nat
  | [] => 0
  | t :: ts =>
    if depth = 0 ∧ (t.token = .mark .semi ∨ t.token.isClosing) then 0
    else if t.token.isOpening then terminatorDistance (depth + 1) ts + 1
    else if t.token.isClosing then terminatorDistance (depth - 1) ts + 1
    else terminatorDistance depth ts + 1

/-- The keywords with which a declaration begins. -/
def beginsDecl (t : Token) : Bool :=
  t matches .keyword .funcKw | .keyword .typeKw | .keyword .varKw | .keyword .constKw
    | .keyword .importKw

/-- The number of tokens before the next keyword outside brackets that begins a declaration. -/
def declDistance (depth : Nat) : List Placed → Nat
  | [] => 0
  | t :: ts =>
    if depth = 0 ∧ beginsDecl t.token then 0
    else if t.token.isOpening then declDistance (depth + 1) ts + 1
    else if t.token.isClosing then declDistance (depth - 1) ts + 1
    else declDistance depth ts + 1

/-- How deep in brackets one is after a first token. -/
def depthAfter (t : Token) : Nat :=
  if t.isOpening then 1 else 0

/-- The token after the bracketed run at the start of the tokens, if the run ends and a token
follows. -/
def tokenAfterRun? (depth : Nat) : List Placed → Option Token
  | [] => none
  | t :: ts =>
    if t.token.isOpening then tokenAfterRun? (depth + 1) ts
    else if t.token.isClosing then
      if depth ≤ 1 then ts.head?.map Placed.token else tokenAfterRun? (depth - 1) ts
    else tokenAfterRun? depth ts

/-- Skips a bracketed run, closer included. -/
def skipRun : Parser Span := do
  let start ← nextSpan
  let (n, left) := balancedLength 0 (← get).rest
  modify (Cursor.advance n)
  if left > 0 then report start .unbalancedBrackets
  spanSince start

/-- Skips up to a semicolon or an unmatched closer. -/
def skipStatement : Parser Span := do
  let start ← nextSpan
  modify fun c => c.advance (terminatorDistance 0 c.rest)
  spanSince start

/-- Skips at least one token, and on to the next declaration. -/
def skipToDecl : Parser Unit :=
  modify fun c =>
    match c.rest with
    | [] => c
    | t :: ts => c.advance (1 + declDistance (depthAfter t.token) ts)

/-- Reads the end of a declaration, or skips to the next one. -/
def finishDecl : Parser Unit := do
  if !(← endStatement) then skipToDecl

/-- Reads the end of a statement, or skips to where it may be. -/
def finishStatement : Parser Unit := do
  if !(← endStatement) then
    let _ ← skipStatement

/-- Complains if no token has been read since the cursor stood at `before`. -/
def complainIfStuck (before : Nat) (what : String) : Parser Unit := do
  if (← position) = before then complain what

/-- Takes the next token if none has been read since the cursor stood at `before`. -/
def skipIfStuck (before : Nat) : Parser Unit := do
  if (← position) = before then
    let _ ← take

/-- The comment group that ends on the line directly above the next token. -/
def docAbove : Parser (Option CommentGroup) := do
  let ctx ← read
  return CommentGroup.lead? ctx.groups (← position) (ctx.lines.line (← nextSpan).start)

/-- The comment on the line of the token before, if it trails that token. -/
def commentBeside : Parser (Option CommentGroup) :=
  return CommentGroup.trailing? (← read).groups (← position)

/-- Whether the next token satisfies `p`; at the end it does not. -/
def nextIs (p : Token → Bool) : Parser Bool :=
  return (← peek).any p

/-- Whether the tokens have ended or the next one is the given mark. -/
def atEndOr (m : Mark) : Parser Bool :=
  return match ← peek with
    | none => true
    | some t => t == .mark m

/-! ## Loops -/

variable {α : Type}

/-- Reads what comes only under a condition. -/
def whenever (cond : Parser Bool) (item : Parser α) : Parser (Option α) := do
  if ← cond then return some (← item) else return none

/-- Cuts a loop short. -/
def giveUp : Parser (List α) := do
  modify fun c => { c with gaveUp := true }
  return []

/-- Reads items with separators between them, at most `fuel` of them; where `stop` holds there are
no more. -/
def separated (stop : Parser Bool) (separator : Mark) (item : Parser α) : Nat → Parser (List α)
  | 0 => giveUp
  | fuel + 1 => do
    if ← stop then return []
    let a ← item
    match ← accept (.mark separator) with
    | some _ => return a :: (← separated stop separator item fuel)
    | none => return [a]

/-- Reads items with separators between them. Every step of the loop but the last reads a
separator. -/
def separatedBy (stop : Parser Bool) (separator : Mark) (item : Parser α) : Parser (List α) := do
  separated stop separator item ((← remaining) + 1)

/-- Reads items up to the given closing bracket or the end, in at most `fuel` steps; between them
there may be semicolons. An item that reads no token costs the next token. -/
def members (closer : Mark) (item : Parser α) : Nat → Parser (List α)
  | 0 => giveUp
  | fuel + 1 => do
    match ← peek with
    | none => return []
    | some t =>
      if t = .mark closer then return []
      else if t = .mark .semi then
        let _ ← take
        members closer item fuel
      else
        let before ← position
        let a ← item
        -- without this the same token would be met for as long as the fuel lasts
        skipIfStuck before
        return a :: (← members closer item fuel)

/-- Reads items up to the given closing bracket or the end. -/
def membersUpTo (closer : Mark) (item : Parser α) : Parser (List α) := do
  members closer item ((← remaining) + 1)

end Parser

end GoService.Source
