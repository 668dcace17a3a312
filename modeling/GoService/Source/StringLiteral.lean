import GoService.Source.Span

/-!
# The value of a string literal

Between backquotes a text stands for itself, less its carriage returns. Between double quotes a
backslash begins an escape that denotes one character or, by number, one byte; the bytes of the
whole must be UTF-8.
-/

namespace GoService.Source

/-- Why a text has no value as a string literal. -/
inductive LiteralError where
  | notQuoted
  | badEscape (offset : Nat)
  | invalidUtf8
  /-- The text begins or ends with a character of several bytes, which cannot be cut off as a
  quote. -/
  | splitCharacter
  deriving DecidableEq, Inhabited

/-- What is told of the error. -/
def LiteralError.message : LiteralError → String
  | .notQuoted => "not a string literal"
  | .badEscape offset => s!"invalid escape sequence at byte {offset}"
  | .invalidUtf8 => "literal is not valid UTF-8"
  | .splitCharacter => "literal begins or ends inside a character"

/-- The value of a hexadecimal digit. -/
def hexDigit? (c : Char) : Option Nat :=
  if c.isDigit then some (c.toNat - '0'.toNat)
  else if 'a' ≤ c ∧ c ≤ 'f' then some (c.toNat - 'a'.toNat + 10)
  else if 'A' ≤ c ∧ c ≤ 'F' then some (c.toNat - 'A'.toNat + 10)
  else none

/-- The value of an octal digit. -/
def octalDigit? (c : Char) : Option Nat :=
  if '0' ≤ c ∧ c ≤ '7' then some (c.toNat - '0'.toNat) else none

/-- The number that digits denote in a base, the most significant first. -/
def digitsValue? (base : Nat) (digit? : Char → Option Nat) (cs : List Char) : Option Nat :=
  cs.foldl (fun v c => do return (← v) * base + (← digit? c)) (some 0)

/-- The value of the first `n` characters, which must be hexadecimal digits. -/
def hexPrefix? (n : Nat) (cs : List Char) : Option Nat :=
  if cs.length < n then none else digitsValue? 16 hexDigit? (cs.take n)

/-- The bytes of the character with a given code point. -/
def scalarBytes? (n : Nat) : Option (List UInt8) :=
  if h : n.isValidChar then some (String.utf8EncodeChar (Char.ofNatAux n h)) else none

/-- The byte of an escape with a single letter or mark. -/
def simpleEscape? : Char → Option UInt8
  | 'a' => some 0x07
  | 'b' => some 0x08
  | 'f' => some 0x0c
  | 'n' => some 0x0a
  | 'r' => some 0x0d
  | 't' => some 0x09
  | 'v' => some 0x0b
  | '\\' => some 0x5c
  | '"' => some 0x22
  | _ => none

/-- The bytes that an escape denotes, and its length without the backslash. -/
def escape? : List Char → Option (List UInt8 × Nat)
  | [] => none
  | c :: cs =>
    match simpleEscape? c with
    | some b => some ([b], 1)
    | none =>
      if c = 'x' then do return ([(← hexPrefix? 2 cs).toUInt8], 3)
      else if c = 'u' then do return (← scalarBytes? (← hexPrefix? 4 cs), 5)
      else if c = 'U' then do return (← scalarBytes? (← hexPrefix? 8 cs), 9)
      else if cs.length < 2 then none
      else do
        let v ← digitsValue? 8 octalDigit? (c :: cs.take 2)
        if v ≤ 255 then return ([v.toUInt8], 3) else none

/-- The bytes that the text between double quotes denotes; `offset` is the place of the text in the
literal. -/
def escapedBytes (offset : Nat) : List Char → Except LiteralError (List UInt8)
  | [] => .ok []
  | c :: cs =>
    if c = '\\' then
      match escape? cs with
      | none => .error (.badEscape offset)
      | some (bytes, n) => (bytes ++ ·) <$> escapedBytes (offset + 1 + n) (cs.drop n)
    else (String.utf8EncodeChar c ++ ·) <$> escapedBytes (offset + c.utf8Size) cs
  termination_by cs => cs.length
  decreasing_by all_goals (simp only [List.length_cons, List.length_drop]; omega)

/-- The string with the given bytes, when they are UTF-8. -/
def decodeBytes (bytes : List UInt8) : Except LiteralError String :=
  match String.fromUTF8? ⟨bytes.toArray⟩ with
  | some s => .ok s
  | none => .error .invalidUtf8

/-- The value of a string literal, given with its quotes. -/
def unquote (literal : String) : Except LiteralError String :=
  let cs := literal.toList
  if byteSize cs < 2 then .error .notQuoted
  else if cs.head?.any (·.utf8Size != 1) || cs.getLast?.any (·.utf8Size != 1) then
    .error .splitCharacter
  else
    let body := cs.tail.dropLast
    match cs.head?, cs.getLast? with
    | some '\x60', some '\x60' => .ok (String.ofList (body.filter (· != '\r')))
    | some '"', some '"' => (escapedBytes 1 body).bind decodeBytes
    | _, _ => .error .notQuoted

end GoService.Source
