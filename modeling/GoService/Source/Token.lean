import GoService.Source.Span
import GoService.Source.Word

/-!
# Tokens

The lexical units of Go source: keywords and marks (operators and delimiters), each with its
spelling, and the classes of tokens with a text of their own. `Token.endsStatement` is the class
after which a line end stands for a semicolon.
-/

namespace GoService.Source

/-- The reserved words. -/
inductive Keyword where
  | breakKw | caseKw | chanKw | constKw | continueKw | defaultKw | deferKw | elseKw
  | fallthroughKw | forKw | funcKw | goKw | gotoKw | ifKw | importKw | interfaceKw | mapKw
  | packageKw | rangeKw | returnKw | selectKw | structKw | switchKw | typeKw | varKw
  deriving DecidableEq, Inhabited

namespace Keyword

/-- All keywords. -/
def all : List Keyword := [
  .breakKw, .caseKw, .chanKw, .constKw, .continueKw, .defaultKw, .deferKw, .elseKw,
  .fallthroughKw, .forKw, .funcKw, .goKw, .gotoKw, .ifKw, .importKw, .interfaceKw, .mapKw,
  .packageKw, .rangeKw, .returnKw, .selectKw, .structKw, .switchKw, .typeKw, .varKw]

/-- How the keyword is written. -/
def spelling : Keyword → String
  | .breakKw => "break"
  | .caseKw => "case"
  | .chanKw => "chan"
  | .constKw => "const"
  | .continueKw => "continue"
  | .defaultKw => "default"
  | .deferKw => "defer"
  | .elseKw => "else"
  | .fallthroughKw => "fallthrough"
  | .forKw => "for"
  | .funcKw => "func"
  | .goKw => "go"
  | .gotoKw => "goto"
  | .ifKw => "if"
  | .importKw => "import"
  | .interfaceKw => "interface"
  | .mapKw => "map"
  | .packageKw => "package"
  | .rangeKw => "range"
  | .returnKw => "return"
  | .selectKw => "select"
  | .structKw => "struct"
  | .switchKw => "switch"
  | .typeKw => "type"
  | .varKw => "var"

/-- The name of the keyword. -/
def name : Keyword → String
  | .breakKw => "KwBreak"
  | .caseKw => "KwCase"
  | .chanKw => "KwChan"
  | .constKw => "KwConst"
  | .continueKw => "KwContinue"
  | .defaultKw => "KwDefault"
  | .deferKw => "KwDefer"
  | .elseKw => "KwElse"
  | .fallthroughKw => "KwFallthrough"
  | .forKw => "KwFor"
  | .funcKw => "KwFunc"
  | .goKw => "KwGo"
  | .gotoKw => "KwGoto"
  | .ifKw => "KwIf"
  | .importKw => "KwImport"
  | .interfaceKw => "KwInterface"
  | .mapKw => "KwMap"
  | .packageKw => "KwPackage"
  | .rangeKw => "KwRange"
  | .returnKw => "KwReturn"
  | .selectKw => "KwSelect"
  | .structKw => "KwStruct"
  | .switchKw => "KwSwitch"
  | .typeKw => "KwType"
  | .varKw => "KwVar"

/-- The keyword with a spelling. -/
def ofSpelling? (s : String) : Option Keyword :=
  all.find? (·.spelling == s)

end Keyword

/-- The operators and delimiters. -/
inductive Mark where
  | ellipsis | shlAssign | shrAssign | andNotAssign | addAssign | subAssign | mulAssign
  | divAssign | modAssign | andAssign | orAssign | xorAssign | shl | shr | andNot | lAnd | lOr
  | eqEq | notEq | le | ge | inc | dec | define | arrow | assign | plus | minus | star | slash
  | percent | amp | pipe | caret | tilde | bang | lt | gt | lParen | rParen | lBrack | rBrack
  | lBrace | rBrace | comma | semi | colon | dot
  deriving DecidableEq, Inhabited

namespace Mark

/-- Every mark, the longer spellings first, so that the first one that fits is the longest. -/
def all : List Mark := [
  .ellipsis, .shlAssign, .shrAssign, .andNotAssign, .addAssign, .subAssign, .mulAssign,
  .divAssign, .modAssign, .andAssign, .orAssign, .xorAssign, .shl, .shr, .andNot, .lAnd, .lOr,
  .eqEq, .notEq, .le, .ge, .inc, .dec, .define, .arrow, .assign, .plus, .minus, .star, .slash,
  .percent, .amp, .pipe, .caret, .tilde, .bang, .lt, .gt, .lParen, .rParen, .lBrack, .rBrack,
  .lBrace, .rBrace, .comma, .semi, .colon, .dot]

/-- How the mark is written. -/
def spelling : Mark → List Char
  | .ellipsis => ['.', '.', '.']
  | .shlAssign => ['<', '<', '=']
  | .shrAssign => ['>', '>', '=']
  | .andNotAssign => ['&', '^', '=']
  | .addAssign => ['+', '=']
  | .subAssign => ['-', '=']
  | .mulAssign => ['*', '=']
  | .divAssign => ['/', '=']
  | .modAssign => ['%', '=']
  | .andAssign => ['&', '=']
  | .orAssign => ['|', '=']
  | .xorAssign => ['^', '=']
  | .shl => ['<', '<']
  | .shr => ['>', '>']
  | .andNot => ['&', '^']
  | .lAnd => ['&', '&']
  | .lOr => ['|', '|']
  | .eqEq => ['=', '=']
  | .notEq => ['!', '=']
  | .le => ['<', '=']
  | .ge => ['>', '=']
  | .inc => ['+', '+']
  | .dec => ['-', '-']
  | .define => [':', '=']
  | .arrow => ['<', '-']
  | .assign => ['=']
  | .plus => ['+']
  | .minus => ['-']
  | .star => ['*']
  | .slash => ['/']
  | .percent => ['%']
  | .amp => ['&']
  | .pipe => ['|']
  | .caret => ['^']
  | .tilde => ['~']
  | .bang => ['!']
  | .lt => ['<']
  | .gt => ['>']
  | .lParen => ['(']
  | .rParen => [')']
  | .lBrack => ['[']
  | .rBrack => [']']
  | .lBrace => ['{']
  | .rBrace => ['}']
  | .comma => [',']
  | .semi => [';']
  | .colon => [':']
  | .dot => ['.']

/-- The name of the mark. -/
def name : Mark → String
  | .ellipsis => "Ellipsis"
  | .shlAssign => "ShlAssign"
  | .shrAssign => "ShrAssign"
  | .andNotAssign => "AndNotAssign"
  | .addAssign => "AddAssign"
  | .subAssign => "SubAssign"
  | .mulAssign => "MulAssign"
  | .divAssign => "DivAssign"
  | .modAssign => "ModAssign"
  | .andAssign => "AndAssign"
  | .orAssign => "OrAssign"
  | .xorAssign => "XorAssign"
  | .shl => "Shl"
  | .shr => "Shr"
  | .andNot => "AndNot"
  | .lAnd => "LAnd"
  | .lOr => "LOr"
  | .eqEq => "EqEq"
  | .notEq => "NotEq"
  | .le => "Le"
  | .ge => "Ge"
  | .inc => "Inc"
  | .dec => "Dec"
  | .define => "Define"
  | .arrow => "Arrow"
  | .assign => "Assign"
  | .plus => "Plus"
  | .minus => "Minus"
  | .star => "Star"
  | .slash => "Slash"
  | .percent => "Percent"
  | .amp => "Amp"
  | .pipe => "Pipe"
  | .caret => "Caret"
  | .tilde => "Tilde"
  | .bang => "Bang"
  | .lt => "Lt"
  | .gt => "Gt"
  | .lParen => "LParen"
  | .rParen => "RParen"
  | .lBrack => "LBrack"
  | .rBrack => "RBrack"
  | .lBrace => "LBrace"
  | .rBrace => "RBrace"
  | .comma => "Comma"
  | .semi => "Semi"
  | .colon => "Colon"
  | .dot => "Dot"

/-- The longest mark with which a text begins. -/
def atStart? (cs : List Char) : Option Mark :=
  all.find? (·.spelling.isPrefixOf cs)

/-- Whether the mark opens a bracketed run. -/
def isOpening : Mark → Bool
  | .lParen | .lBrack | .lBrace => true
  | _ => false

/-- Whether the mark closes a bracketed run. -/
def isClosing : Mark → Bool
  | .rParen | .rBrack | .rBrace => true
  | _ => false

end Mark

/-- What a token is; a literal keeps its text, quotes included. -/
inductive Token where
  | ident (word : Word)
  | number (text : String)
  | runeLit (text : String)
  | stringLit (text : String)
  | rawStringLit (text : String)
  | keyword (k : Keyword)
  | mark (m : Mark)
  | error
  deriving DecidableEq, Inhabited

namespace Token

/-- The name of the token's class, or of the keyword or mark. -/
def name : Token → String
  | .ident _ => "Ident"
  | .number _ => "Number"
  | .runeLit _ => "RuneLit"
  | .stringLit _ => "StringLit"
  | .rawStringLit _ => "RawStringLit"
  | .keyword k => k.name
  | .mark m => m.name
  | .error => "Error"

/-- The text of a token that has one of its own. -/
def text? : Token → Option String
  | .ident w => some w.text
  | .number s | .runeLit s | .stringLit s | .rawStringLit s => some s
  | .keyword _ | .mark _ | .error => none

/-- The token as it is shown in messages: its text if it has one, else its name. -/
def shown (t : Token) : String :=
  t.text?.getD t.name

/-- Whether the token opens a bracketed run. -/
def isOpening : Token → Bool
  | .mark m => m.isOpening
  | _ => false

/-- Whether the token closes a bracketed run. -/
def isClosing : Token → Bool
  | .mark m => m.isClosing
  | _ => false

/-- Whether the token is a string literal of either form. -/
def isString : Token → Bool
  | .stringLit _ | .rawStringLit _ => true
  | _ => false

/-- The tokens after which a line end stands for a semicolon. -/
def endsStatement : Token → Bool
  | .ident _ | .number _ | .runeLit _ | .stringLit _ | .rawStringLit _ => true
  | .keyword k => (k matches .breakKw | .continueKw | .fallthroughKw | .returnKw)
  | .mark m => (m matches .inc | .dec | .rParen | .rBrack | .rBrace)
  | .error => false

end Token

/-- A token with its place in the source. -/
structure Placed where
  span : Span
  token : Token
  deriving DecidableEq, Inhabited

/-- The token with its place as it is kept. -/
def Placed.clamp (p : Placed) : Placed :=
  { p with span := p.span.clamp }

end GoService.Source
