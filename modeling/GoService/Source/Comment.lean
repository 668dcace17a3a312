import GoService.Source.Span
import GoService.Text.Blank
import GoService.Text.Lines

/-!
# Comments

A comment belongs to the token that follows it. Neighbouring comments form groups: a group that
starts on the line where the token before it ends is *trailing* and takes only comments on its own
line, any other group takes comments that start at most one line below it. `CommentGroup.content`
is the text of a group without comment marks.
-/

namespace GoService.Source

/-- The two forms of comments. -/
inductive CommentKind where
  | line
  | block
  deriving DecidableEq, Inhabited

/-- The name of the kind. -/
def CommentKind.name : CommentKind → String
  | .line => "Line"
  | .block => "Block"

/-- A comment with its marks; `next` is the index of the first token after it, of which there may be
more than 32 bits count only in a text of 4 GiB or more. -/
structure Comment where
  kind : CommentKind
  span : Span
  text : String
  next : Nat
  deriving DecidableEq, Inhabited

/-- The comment as it is kept of a source: its text is read again at the clamped span. -/
def Comment.kept (src : List Char) (c : Comment) : Comment :=
  { c with span := c.span.clamp, text := textAt src c.span.clamp }

/-- Comments with no token between them; `endLine` is the line on which the last one ends. -/
structure CommentGroup where
  first : Comment
  others : List Comment
  trailing : Bool
  endLine : Nat
  deriving DecidableEq, Inhabited

namespace CommentGroup

/-- The comments of the group in order. -/
def comments (g : CommentGroup) : List Comment :=
  g.first :: g.others

/-- The index of the first token after the group. -/
def next (g : CommentGroup) : Nat :=
  g.first.next

/-- From the first comment of the group to the last. -/
def span (g : CommentGroup) : Span :=
  g.first.span.cover (g.others.getLastD g.first).span

/-- Takes the comments that continue a group whose last line is `endLine`; the answer has them, the
last line of the group with them, and the remaining comments. -/
def extend (ix : LineTable) (trailing : Bool) (next : Nat) :
    Nat → List Comment → List Comment × Nat × List Comment
  | endLine, [] => ([], endLine, [])
  | endLine, c :: cs =>
    let line := ix.line c.span.start
    let adjacent :=
      if trailing then line == endLine else decide (line ≤ LineTable.lineBelow endLine)
    if c.next == next && adjacent then
      let (taken, last, rest) := extend ix trailing next (ix.linesOf c.span).2 cs
      (c :: taken, last, rest)
    else ([], endLine, c :: cs)

/-- What is left is no longer than what was there. -/
theorem extend_length (ix : LineTable) (trailing : Bool) (next endLine : Nat)
    (cs : List Comment) : (extend ix trailing next endLine cs).2.2.length ≤ cs.length := by
  fun_induction extend ix trailing next endLine cs with
  | case1 => simp
  | case2 endLine c cs line adjacent h taken last rest heq ih =>
    rw [heq] at ih
    exact Nat.le_succ_of_le ih
  | case3 => simp

/-- Cuts the comments of a source into groups. `tokenEndLine i` is the line on which token `i`
ends. -/
def ofComments (ix : LineTable) (tokenEndLine : Nat → Option Nat) :
    List Comment → List CommentGroup
  | [] => []
  | c :: cs =>
    let trailing := c.next > 0 && tokenEndLine (c.next - 1) == some (ix.line c.span.start)
    let taken := extend ix trailing c.next (ix.linesOf c.span).2 cs
    ⟨c, taken.1, trailing, taken.2.1⟩ :: ofComments ix tokenEndLine taken.2.2
  termination_by cs => cs.length
  decreasing_by exact Nat.lt_succ_of_le (extend_length ..)

/-- The group that ends on the line directly above token `next`, which starts on `line`. -/
def lead? (groups : List CommentGroup) (next line : Nat) : Option CommentGroup :=
  match groups.reverse.find? fun g => !g.trailing && g.next == next with
  | some g => if LineTable.lineBelow g.endLine = line then some g else none
  | none => none

/-- The first group that starts on the line where the token before `next` ends. -/
def trailing? (groups : List CommentGroup) (next : Nat) : Option CommentGroup :=
  groups.find? fun g => g.trailing && g.next == next

end CommentGroup

/-- A lower-case letter or a digit, in ASCII. -/
def isDirectiveChar (c : Char) : Bool :=
  c.isLower || c.isDigit

/-- Whether the text after `//` addresses a tool: `line`, `extern` or `export` with a space, or a
word and a colon as in `go:build`. -/
def isToolDirective (body : List Char) : Bool :=
  ["line ", "extern ", "export "].any (·.toList.isPrefixOf body) ||
    match body.span isDirectiveChar with
    | (_ :: _, ':' :: c :: _) => isDirectiveChar c
    | _ => false

/-- The lines of a comment without its marks; a directive has none. -/
def Comment.contentLines (c : Comment) : List (List Char) :=
  let body := c.text.toList.drop 2
  match c.kind with
  | .line =>
    if isToolDirective body then []
    else match body with
      | ' ' :: r => [r]
      | _ => [body]
  | .block =>
    let inner := if ['*', '/'].isSuffixOf body then body.take (body.length - 2) else body
    Text.split '\n' inner

/-- Joins lines into a text: blank lines at either end are dropped and runs of them become one.
`started` says whether a line was written and `gap` whether a blank line is due. -/
def joinParagraphs (started gap : Bool) : List (List Char) → List Char
  | [] => []
  | l :: ls =>
    if l.isEmpty then joinParagraphs started started ls
    else (if gap then ['\n'] else []) ++ l ++ '\n' :: joinParagraphs true false ls

/-- The text of a group: the content of its comments, each line trimmed at its end. -/
def CommentGroup.content (g : CommentGroup) : String :=
  String.ofList <| joinParagraphs false false <|
    (g.comments.flatMap Comment.contentLines).map Text.trimEnd

end GoService.Source
