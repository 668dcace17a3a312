import GoService.Text.Lines

/-!
# File paths

A path is its text. Joining keeps the text as it is written, so `a/../b` stays distinct from `b`;
`normalize` takes out the components `.` and `..` without a look at any file.
-/

namespace GoService.Project

/-- A file path. -/
structure FilePath where
  text : String
  deriving DecidableEq, Inhabited

/-- A component of a path. -/
inductive Component where
  | root
  | current
  | parent
  | name (s : String)
  deriving DecidableEq, Inhabited

/-- The text of a component. -/
def Component.text : Component → String
  | .root => "/"
  | .current => "."
  | .parent => ".."
  | .name s => s

namespace FilePath

/-- Whether the path begins at the root. -/
def isAbsolute (p : FilePath) : Bool :=
  p.text.toList.head? == some '/'

/-- The path followed from `p`: appended with a slash, unless it is absolute. -/
def join (p : FilePath) (rel : String) : FilePath :=
  if rel.toList.head? == some '/' then ⟨rel⟩
  else if p.text.isEmpty || p.text.toList.getLast? == some '/' then ⟨p.text ++ rel⟩
  else ⟨p.text ++ "/" ++ rel⟩

/-- The path with the non-empty pieces of a slash-separated text joined to it one by one. -/
def joinPieces (p : FilePath) (rel : String) : FilePath :=
  ((Text.splitString '/' rel).filter (!·.isEmpty)).foldl join p

/-- The component that a piece between slashes stands for; an empty piece and a dot are none. -/
def componentOf? (piece : String) : Option Component :=
  if piece = "" ∨ piece = "." then none
  else if piece = ".." then some .parent
  else some (.name piece)

/-- The components of the path; a dot counts only where a relative path begins with it. -/
def components (p : FilePath) : List Component :=
  let pieces := Text.splitString '/' p.text
  let start : List Component :=
    if p.isAbsolute then [.root] else if pieces.head? == some "." then [.current] else []
  start ++ pieces.filterMap componentOf?

/-- The path with components, with a slash between any two of them. -/
def ofComponents : List Component → FilePath
  | [] => ⟨""⟩
  | .root :: cs => ⟨"/" ++ String.intercalate "/" (cs.map Component.text)⟩
  | cs => ⟨String.intercalate "/" (cs.map Component.text)⟩

/-- The components after one more, `stack` holding those so far with the last one in front: `..`
takes away a name or another `..`, and stays where there is nothing to take away. -/
def normalizeStep (stack : List Component) (c : Component) : List Component :=
  match c, stack with
  | .current, _ => stack
  | .parent, .name _ :: rest => rest
  | .parent, .parent :: rest => rest
  | _, _ => c :: stack

/-- The path without `.`, and with `..` resolved by the text alone. -/
def normalize (p : FilePath) : FilePath :=
  ofComponents (p.components.foldl normalizeStep []).reverse

end FilePath

end GoService.Project
