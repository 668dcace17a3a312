import GoService.Source.Comment
import GoService.Source.Diagnostic

/-!
# From text to tokens

`munch` takes the longest lexeme at the start of a text. `itemsFrom` runs it over a whole text and
inserts semicolons: where a line ends, and at the end of the text, when the last token can end a
statement. Tokens, comments and diagnostics are three views of the resulting items.
-/

namespace GoService.Source

/-- What a lexeme is, before semicolons are inserted. -/
inductive Lexeme where
  | blank | lineEnd | lineComment | blockComment | unclosedComment | byteOrderMark
  | word | number | runeLit | stringLit | rawStringLit
  | mark (m : Mark)
  | stray
  deriving DecidableEq, Inhabited

/-- White space that neither ends a line nor separates statements. -/
def isGap (c : Char) : Bool :=
  c == ' ' || c == '\t' || c == '\x0c'

/-- A character that ends a line. -/
def isLineBreak (c : Char) : Bool :=
  c == '\n' || c == '\r'

/-- A digit of a number, or an underscore between digits. -/
def isDigitOf (hex : Bool) (c : Char) : Bool :=
  c.isDigit || c == '_' ||
    (hex && (('a' ≤ c && c ≤ 'f') || ('A' ≤ c && c ≤ 'F')))

/-- The number of digits at the start of a text. -/
def digitRun (hex : Bool) (cs : List Char) : Nat :=
  (cs.takeWhile (isDigitOf hex)).length

/-- How many of the characters `cs` belong to the digits and the point of a number that begins with
`c`, and whether its digits are hexadecimal. A point before another point is not taken. -/
def mantissaLength (c : Char) (cs : List Char) : Nat × Bool :=
  if c = '.' then (digitRun false cs, false)
  else
    let base := if c = '0' then cs.head?.filter (· ∈ ['x', 'X', 'o', 'O', 'b', 'B']) else none
    let hex := base == some 'x' || base == some 'X'
    let lead := if base.isSome then 1 else 0
    let whole := lead + digitRun hex (cs.drop lead)
    -- `1..` is a number and two points
    let fraction := match cs.drop whole with
      | '.' :: '.' :: _ => 0
      | '.' :: r => 1 + digitRun hex r
      | _ => 0
    (whole + fraction, hex)

/-- The number of characters of an exponent, with its letter and its sign. -/
def exponentLength (hex : Bool) : List Char → Nat
  | [] => 0
  | e :: r =>
    if (!hex && (e == 'e' || e == 'E')) || e == 'p' || e == 'P' then
      match r with
      | '+' :: s | '-' :: s => 2 + digitRun false s
      | _ => 1 + digitRun false r
    else 0

/-- How many of the characters `cs` belong to the number that begins with `c`. -/
def numberLength (c : Char) (cs : List Char) : Nat :=
  let (mantissa, hex) := mantissaLength c cs
  let n := mantissa + exponentLength hex (cs.drop mantissa)
  -- the suffix of an imaginary number
  if (cs.drop n).head? = some 'i' then n + 1 else n

/-- The number of characters up to and with the closing quote `q`; a backslash protects the next
character, and no line may end inside. -/
def quotedLength? (q : Char) : List Char → Option Nat
  | [] => none
  | '\\' :: [] => none
  | '\\' :: c :: r => if c = '\n' then none else (quotedLength? q r).map (· + 2)
  | c :: r =>
    if c = q then some 1
    else if isLineBreak c then none
    else (quotedLength? q r).map (· + 1)

/-- The number of characters up to and with the next `*/`. -/
def blockLength? : List Char → Option Nat
  | [] => none
  | '*' :: '/' :: _ => some 2
  | _ :: r => (blockLength? r).map (· + 1)

/-- The number of characters up to and with the next backquote. -/
def rawLength? (cs : List Char) : Option Nat :=
  let n := (cs.takeWhile (· != '\x60')).length
  if n < cs.length then some (n + 1) else none

/-- The lexeme that begins with a slash, and how many characters it has after the slash. -/
def munchSlash (cs : List Char) : Lexeme × Nat :=
  match cs with
  | '/' :: r => (.lineComment, 1 + (r.takeWhile (!isLineBreak ·)).length)
  | '*' :: r =>
    match blockLength? r with
    | some n => (.blockComment, 1 + n)
    | none => (.unclosedComment, cs.length)
  | '=' :: _ => (.mark .divAssign, 1)
  | _ => (.mark .slash, 0)

/-- A literal of known length, or a stray character. -/
def munchLiteral (lexeme : Lexeme) (length? : Option Nat) : Lexeme × Nat :=
  match length? with
  | some n => (lexeme, n)
  | none => (.stray, 0)

/-- The longest lexeme that begins with `c`, and how many of the characters `cs` after it belong
to it. -/
def munch (c : Char) (cs : List Char) : Lexeme × Nat :=
  if isGap c then (.blank, (cs.takeWhile isGap).length)
  else if c = '\n' then (.lineEnd, 0)
  else if c = '\r' then (.lineEnd, if cs.head? = some '\n' then 1 else 0)
  else if isWordStart c then (.word, (cs.takeWhile isWordPart).length)
  else if c.isDigit || (c == '.' && cs.head?.any Char.isDigit) then (.number, numberLength c cs)
  else if c = '/' then munchSlash cs
  else if c = '"' then munchLiteral .stringLit (quotedLength? '"' cs)
  else if c = '\'' then
    munchLiteral .runeLit (if cs.head? = some '\'' then none else quotedLength? '\'' cs)
  else if c = '\x60' then munchLiteral .rawStringLit (rawLength? cs)
  else if c = '\uFEFF' then (.byteOrderMark, 0)
  else match Mark.atStart? (c :: cs) with
    | some m => (.mark m, m.spelling.length - 1)
    | none => (.stray, 0)

/-- The token that a lexeme is, if it is one. -/
def Lexeme.token? (text : String) : Lexeme → Option Token
  | .word =>
    match Keyword.ofSpelling? text with
    | some k => some (.keyword k)
    | none => (Word.ofText? text).map .ident
  | .number => some (.number text)
  | .runeLit => some (.runeLit text)
  | .stringLit => some (.stringLit text)
  | .rawStringLit => some (.rawStringLit text)
  | .mark m => some (.mark m)
  | _ => none

/-- What the lexer finds: a token, a semicolon that a line end stands for, a comment, or text that
is no token. -/
inductive Item where
  | token (p : Placed)
  | semicolon (offset : Nat)
  | comment (kind : CommentKind) (span : Span) (text : String)
  | fault (span : Span) (fault : LexFault)
  deriving DecidableEq, Inhabited

/-- The fault in a character with which nothing begins. -/
def strayFault (c : Char) : LexFault :=
  if c = '"' ∨ c = '\'' then .unterminatedString else .strayCharacter

/-- The offset of the first line break in a text that starts at an offset. -/
def firstLineBreak? (offset : Nat) : List Char → Option Nat
  | [] => none
  | c :: cs => if isLineBreak c then some offset else firstLineBreak? (offset + c.utf8Size) cs

/-- The items of one lexeme, and whether a line end after it stands for a semicolon. `armed` says
that of the lexeme before. -/
def itemsOf (armed : Bool) (lexeme : Lexeme) (offset : Nat) (text : List Char) :
    List Item × Bool :=
  let span : Span := ⟨offset, offset + byteSize text⟩
  let s := String.ofList text
  match lexeme with
  | .blank => ([], armed)
  | .lineEnd => (if armed then [.semicolon offset] else [], false)
  | .lineComment => ([.comment .line span s], armed)
  | .blockComment =>
    -- a comment over a line end counts as one: the semicolon stands where the line ends
    match armed, firstLineBreak? offset text with
    | true, some at_ => ([.comment .block span s, .semicolon at_], false)
    | _, _ => ([.comment .block span s], armed)
  | .unclosedComment => ([.comment .block span s, .fault span .unterminatedComment], false)
  | .byteOrderMark => if offset = 0 then ([], armed) else ([.fault span .strayCharacter], false)
  | .stray => ([.fault span (strayFault (text.headD ' '))], false)
  | _ =>
    match lexeme.token? s with
    | some t => ([.token ⟨span, t⟩], t.endsStatement)
    | none => ([], armed)

/-- The items of the characters from an offset on; `armed` says whether a line end stands for a
semicolon. -/
def itemsFrom (armed : Bool) (offset : Nat) : List Char → List Item
  | [] => if armed then [.semicolon offset] else []
  | c :: cs =>
    let (lexeme, n) := munch c cs
    let text := c :: cs.take n
    let (items, armed') := itemsOf armed lexeme offset text
    items ++ itemsFrom armed' (offset + byteSize text) (cs.drop n)
  termination_by cs => cs.length
  decreasing_by simp only [List.length_cons, List.length_drop]; omega

/-- The token that an item stands for. -/
def Item.placed? : Item → Option Placed
  | .token p => some p
  | .semicolon offset => some ⟨.emptyAt offset, .mark .semi⟩
  | .fault span _ => some ⟨span, .error⟩
  | .comment .. => none

/-- What is reported of an item. -/
def Item.diagnostic? : Item → Option Diagnostic
  | .fault span f => some ⟨span, .lexical f⟩
  | _ => none

/-- The comments among items; `next` counts the tokens before them. -/
def commentsOf (next : Nat) : List Item → List Comment
  | [] => []
  | .comment kind span text :: is => ⟨kind, span, text, next⟩ :: commentsOf next is
  | _ :: is => commentsOf (next + 1) is

/-- A source text as its tokens, comments and lexical diagnostics. -/
structure Lexed where
  tokens : List Placed
  comments : List Comment
  diagnostics : List Diagnostic
  deriving DecidableEq, Inhabited

/-- What there is in a source text, at its exact places. -/
def findings (src : List Char) : Lexed :=
  let items := itemsFrom false 0 src
  ⟨items.filterMap Item.placed?, commentsOf 0 items, items.filterMap Item.diagnostic?⟩

/-- Reads a source text. Tokens are given with their exact places, comments and diagnostics as they
are kept. -/
def lex (src : List Char) : Lexed :=
  let found := findings src
  ⟨found.tokens, found.comments.map (Comment.kept src), found.diagnostics.map Diagnostic.clamp⟩

/-- The tokens with the places that a parser sees. -/
def Lexed.clampedTokens (l : Lexed) : List Placed :=
  l.tokens.map Placed.clamp

end GoService.Source
