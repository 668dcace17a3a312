import GoService.Source.Token

/-!
# Diagnostics

What can be wrong with a source text, each fault with the span where it shows. The causes are
constructors of `Problem`; `Problem.message` words them.
-/

namespace GoService.Source

/-- Why a piece of text is no token. -/
inductive LexFault where
  | strayCharacter
  | unterminatedString
  | unterminatedComment
  deriving DecidableEq, Inhabited

/-- The wording of a lexical fault. -/
def LexFault.message : LexFault → String
  | .strayCharacter => "invalid token"
  | .unterminatedString => "unterminated string"
  | .unterminatedComment => "unterminated comment"

/-- What stands where something else was expected. -/
inductive Found where
  | newline
  | endOfFile
  | token (t : Token)
  deriving DecidableEq, Inhabited

/-- What is told of what was found. -/
def Found.message : Found → String
  | .newline => "newline"
  | .endOfFile => "end of file"
  | .token t => "`" ++ t.shown ++ "`"

/-- The cause of a diagnostic. -/
inductive Problem where
  | lexical (fault : LexFault)
  | expected (what : String) (found : Found)
  | unbalancedBrackets
  | nestedTooDeeply
  deriving DecidableEq, Inhabited

namespace Problem

/-- What is told of the problem. -/
def message : Problem → String
  | .lexical f => f.message
  | .expected what found => "expected " ++ what ++ ", found " ++ found.message
  | .unbalancedBrackets => "unbalanced brackets at end of file"
  | .nestedTooDeeply => "type nested too deeply"

/-- Which of the two, lexer or parser, tells of the problem. -/
def stage : Problem → String
  | .lexical _ => "Lex"
  | _ => "Parse"

end Problem

/-- A problem and the span where it shows. -/
structure Diagnostic where
  span : Span
  problem : Problem
  deriving DecidableEq, Inhabited

namespace Diagnostic

/-- The diagnostic with its place as it is kept. -/
def clamp (d : Diagnostic) : Diagnostic :=
  { d with span := d.span.clamp }

/-- What is told, with the place. -/
def message (d : Diagnostic) : String :=
  s!"{d.problem.stage} error at {d.span.start}..{d.span.stop}: {d.problem.message}"

/-- The first diagnostic on one line, with the number of further ones. -/
def summary : List Diagnostic → String
  | [] => "parse failed"
  | [d] => d.message
  | d :: ds => s!"{d.message} (and {ds.length} more)"

/-- The diagnostics in the order of the places where they begin; those that begin together keep
their order. -/
def sorted (ds : List Diagnostic) : List Diagnostic :=
  ds.mergeSort fun a b => decide (a.span.start ≤ b.span.start)

end Diagnostic

end GoService.Source
