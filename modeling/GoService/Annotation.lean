import GoService.Dict
import GoService.Text.Alphanumeric
import GoService.Text.Blank
import GoService.Text.Lines

/-!
# Annotations in documentation

A line `@name value` of a documentation text annotates what the text documents. The value `>>>`
opens a fence: the lines up to one that is `<<<` are the value, as they are written. Of two values
for a name the later one holds, at the place of the first.
-/

namespace GoService

/-- The annotations whose names have a meaning here. -/
inductive KnownAnnotation where
  | service
  | title
  | description
  | terms
  | internal
  | function
  | validate
  | authorization
  | permission
  | openapi
  | proxy
  deriving DecidableEq, Inhabited

namespace KnownAnnotation

/-- The annotations that are known, in the order of their list. -/
def all : List KnownAnnotation :=
  [.service, .title, .description, .terms, .internal, .function, .validate, .authorization,
    .permission, .openapi, .proxy]

/-- The name as it is written after the sign. -/
def name : KnownAnnotation → String
  | .service => "service"
  | .title => "title"
  | .description => "description"
  | .terms => "terms"
  | .internal => "internal"
  | .function => "fn"
  | .validate => "validate"
  | .authorization => "authorization"
  | .permission => "permission"
  | .openapi => "openapi"
  | .proxy => "proxy"

/-- The known annotation with a name. -/
def ofName? (s : String) : Option KnownAnnotation :=
  all.find? (·.name == s)

end KnownAnnotation

/-- The values of annotations by name. -/
abbrev Annotations := Dict String

namespace Annotations

/-- The value of a known annotation, if it was written. -/
def value? (a : Annotations) (k : KnownAnnotation) : Option String :=
  a.get? k.name

/-- Whether a known annotation is set: it is there and its value is not `false`. -/
def isSet (a : Annotations) (k : KnownAnnotation) : Bool :=
  (a.value? k).any (· != "false")

/-- A character that can begin the name of an annotation. -/
def isNameStart (c : Char) : Bool :=
  Text.isAlphabetic c || c == '_'

/-- A character that can continue the name of an annotation. -/
def isNamePart (c : Char) : Bool :=
  Text.isAlphanumeric c || c == '_'

/-- The name and the value on a line that annotates: nothing but white space may follow the name
directly. -/
def ofLine? (line : List Char) : Option (List Char × List Char) :=
  match Text.trim line with
  | '@' :: c :: rest =>
    if isNameStart c then
      let tail := rest.dropWhile isNamePart
      if tail.isEmpty || tail.head?.any Text.isBlank then
        some (c :: rest.takeWhile isNamePart, Text.trim tail)
      else none
    else none
  | _ => none

/-- The text that opens a fence. -/
def fenceStart : List Char := ['>', '>', '>']

/-- The text that closes a fence. -/
def fenceEnd : List Char := ['<', '<', '<']

/-- What a reader of lines is doing: looking for annotations, or collecting for a name the lines
inside a fence, newest first. -/
inductive Reading where
  | prose
  | fenced (name : List Char) (body : List (List Char))

/-- The value of a fence with the given lines, newest first. -/
def fenceValue (body : List (List Char)) : String :=
  String.ofList (Text.joinWith ['\n'] body.reverse)

/-- Reads lines and writes the annotations on them over those already found. A fence that is not
closed takes all the lines that are left. -/
def readLines (found : Annotations) : Reading → List (List Char) → Annotations
  | .prose, [] => found
  | .fenced name body, [] => found.insert (String.ofList name) (fenceValue body)
  | .prose, l :: ls =>
    match ofLine? l with
    | none => readLines found .prose ls
    | some (name, value) =>
      if value = fenceStart then readLines found (.fenced name []) ls
      else readLines (found.insert (String.ofList name) (String.ofList value)) .prose ls
  | .fenced name body, l :: ls =>
    if Text.trim l = fenceEnd then
      readLines (found.insert (String.ofList name) (fenceValue body)) .prose ls
    else readLines found (.fenced name (l :: body)) ls

/-- The annotations in a text. -/
def ofText (text : String) : Annotations :=
  readLines .empty .prose (Text.lines text.toList)

end Annotations

end GoService
