import GoService.Dict
import GoService.Source.StringLiteral
import GoService.Text.Lines

/-!
# Struct tags

A tag is a sequence of pairs `key:"value"` with spaces between them; a value is a string literal
whose parts are separated by commas. What follows the first malformed pair is ignored. Of two pairs
with one key the first one holds.
-/

namespace GoService

/-- The comma-separated parts of the values by key, in the order of the tag. -/
abbrev Tags := Dict (List String)

namespace Tags

/-- A character of a key: no control, space, colon or quote. -/
def isKeyChar (c : Char) : Bool :=
  c > ' ' && c != ':' && c != '"' && c != '\x7f'

/-- The number of characters up to and with the quote that closes a string; a backslash protects the
character after it. -/
def quoteEnd? : List Char → Option Nat
  | [] => none
  | '"' :: _ => some 1
  | '\\' :: [] => none
  | '\\' :: _ :: r => (quoteEnd? r).map (· + 2)
  | _ :: r => (quoteEnd? r).map (· + 1)

/-- The first pair of a tag and the text after it. -/
def pair? (cs : List Char) : Option ((String × List String) × List Char) :=
  let key := cs.takeWhile isKeyChar
  match cs.dropWhile isKeyChar with
  | ':' :: '"' :: r => do
    if key.isEmpty then none
    let n ← quoteEnd? r
    let value ← (Source.unquote (String.ofList ('"' :: r.take n))).toOption
    return ((String.ofList key, Text.splitString ',' value), r.drop n)
  | _ => none

/-- Reads at most `fuel` pairs and adds those with new keys. -/
def readPairs (found : Tags) : Nat → List Char → Tags
  | 0, _ => found
  | fuel + 1, cs =>
    match pair? (cs.dropWhile (· == ' ')) with
    | none => found
    | some ((key, values), rest) =>
      readPairs (if found.contains key then found else found.insert key values) fuel rest

/-- Reads the pairs of a tag. -/
def ofText (tag : String) : Tags :=
  readPairs .empty tag.length tag.toList

/-- The name for JSON: the first part at `json`, unless it is empty. -/
def jsonName? (t : Tags) : Option String :=
  ((t.get? "json").bind List.head?).filter (!·.isEmpty)

/-- Whether the field is left out of JSON: the value at `json` is a lone dash. -/
def isJsonSkipped (t : Tags) : Bool :=
  t.get? "json" == some ["-"]

/-- The parts at `json` after the name. -/
def jsonFlags (t : Tags) : List String :=
  ((t.get? "json").map List.tail).getD []

end Tags

end GoService
