import GoService.Text.Alphanumeric
import GoService.Text.Lines

/-!
# Names assumed from import paths

The name that a package most likely has, by its import path alone: the last element, or the one
before it if the last is a major version, without a version after a dot and without what stands
before a hyphen.
-/

namespace GoService.Project

/-- Whether a text is `v` and a number. -/
def isVersion (s : List Char) : Bool :=
  match s with
  | 'v' :: digits => !digits.isEmpty && digits.all Char.isDigit
  | _ => false

/-- The text without a version after its last dot. -/
def dropDottedVersion (s : List Char) : List Char :=
  let tail := (s.reverse.takeWhile (· != '.')).reverse
  match s.reverse.dropWhile (· != '.') with
  | _ :: head => if isVersion tail then head.reverse else s
  | [] => s

/-- The part of a text after its last hyphen. -/
def afterHyphen (s : List Char) : List Char :=
  (s.reverse.takeWhile (· != '-')).reverse

/-- The element of an import path that names its package; `elements` are the elements of the path,
the last one first. -/
def namingElement : List (List Char) → List Char
  | last :: previous :: _ => if isVersion last then previous else last
  | [last] => last
  | [] => []

/-- The name that an import path suggests for its package. -/
def suggestedName (importPath : String) : String :=
  let element := namingElement (Text.split '/' importPath.toList).reverse
  String.ofList <| (afterHyphen (dropDottedVersion element)).takeWhile fun c =>
    Text.isAlphanumeric c || c == '_'

end GoService.Project
