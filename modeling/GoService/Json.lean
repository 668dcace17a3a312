/-!
# JSON values

A JSON value whose objects keep the order of their members, and its text over several lines:
members and elements are indented by two spaces a level, and what is empty stays on one line.
-/

namespace GoService

/-- A JSON value. -/
inductive Json where
  | null
  | bool (b : Bool)
  | number (n : Int)
  /-- A number of which the last `places + 1` digits stand behind the point. -/
  | decimal (digits : Int) (places : Nat)
  | string (s : String)
  | array (elems : List Json)
  | object (members : List (String × Json))

namespace Json

instance : Inhabited Json := ⟨null⟩

/-- The member of an object with a name, the first one if there are several. -/
def member? (name : String) : Json → Option Json
  | object ms => ms.lookup name
  | _ => none

/-- The text of a string value. -/
def string? : Json → Option String
  | string s => some s
  | _ => none

/-- A truth value. -/
def bool? : Json → Option Bool
  | bool b => some b
  | _ => none

/-- The elements of an array. -/
def array? : Json → Option (List Json)
  | array es => some es
  | _ => none

/-- The members of an object. -/
def object? : Json → Option (List (String × Json))
  | object ms => some ms
  | _ => none

mutual

/-- How deep arrays and objects are nested in a value. -/
def nesting : Json → Nat
  | array es => nestingElems es + 1
  | object ms => nestingMembers ms + 1
  | _ => 0

/-- The greatest nesting of elements. -/
def nestingElems : List Json → Nat
  | [] => 0
  | e :: es => max (nesting e) (nestingElems es)

/-- How deep the values of members are nested. -/
def nestingMembers : List (String × Json) → Nat
  | [] => 0
  | (_, v) :: ms => max (nesting v) (nestingMembers ms)

end

/-- A control character by its number, in four hexadecimal digits. -/
def controlEscape (c : Char) : List Char :=
  let n := c.toNat
  ['\\', 'u', '0', '0', Nat.digitChar (n / 16), Nat.digitChar (n % 16)]

/-- A character as it stands in a JSON string. -/
def escapeChar (c : Char) : List Char :=
  if c = '"' then ['\\', '"']
  else if c = '\\' then ['\\', '\\']
  else if c = '\x08' then ['\\', 'b']
  else if c = '\x0c' then ['\\', 'f']
  else if c = '\n' then ['\\', 'n']
  else if c = '\r' then ['\\', 'r']
  else if c = '\t' then ['\\', 't']
  else if c.toNat < 32 then controlEscape c
  else [c]

/-- A string as it stands in JSON text. -/
def quoted (s : String) : List Char :=
  '"' :: s.toList.flatMap escapeChar ++ ['"']

/-- A number with digits behind the point, and one or more before it. -/
def decimalText (digits : Int) (places : Nat) : List Char :=
  let written := (toString digits.natAbs).toList
  let padded := List.replicate (places + 2 - written.length) '0' ++ written
  let whole := padded.length - (places + 1)
  (if digits < 0 then ['-'] else []) ++ padded.take whole ++ '.' :: padded.drop whole

/-- The start of a line at a depth. -/
def newline (depth : Nat) : List Char :=
  '\n' :: List.replicate (2 * depth) ' '

mutual

/-- The text of a value whose lines begin at a depth. -/
def render (depth : Nat) : Json → List Char
  | null => ['n', 'u', 'l', 'l']
  | bool true => ['t', 'r', 'u', 'e']
  | bool false => ['f', 'a', 'l', 's', 'e']
  | number n => (toString n).toList
  | decimal digits places => decimalText digits places
  | string s => quoted s
  | array [] => ['[', ']']
  | array (e :: es) =>
    '[' :: newline (depth + 1) ++ render (depth + 1) e ++ renderElems (depth + 1) es ++
      newline depth ++ [']']
  | object [] => ['\x7b', '\x7d']
  | object ((k, v) :: ms) =>
    '\x7b' :: newline (depth + 1) ++ quoted k ++ [':', ' '] ++ render (depth + 1) v ++
      renderMembers (depth + 1) ms ++ newline depth ++ ['\x7d']

/-- The text of further elements, each after a comma. -/
def renderElems (depth : Nat) : List Json → List Char
  | [] => []
  | e :: es => ',' :: newline depth ++ render depth e ++ renderElems depth es

/-- The text of further members, each after a comma. -/
def renderMembers (depth : Nat) : List (String × Json) → List Char
  | [] => []
  | (k, v) :: ms =>
    ',' :: newline depth ++ quoted k ++ [':', ' '] ++ render depth v ++ renderMembers depth ms

end

/-- The text of a value. -/
def pretty (j : Json) : String :=
  String.ofList (render 0 j)

end Json

end GoService
