import GoService.Project.FileTree

/-!
# Walking a directory

The entries below a directory, in the order of their names, each directory before what is in it.
Links are followed; a link to a directory on the way from the start to the link is reported as a
loop, and other links that lead nowhere are reported as errors.
-/

namespace GoService.Project

/-- What goes wrong in a walk. -/
inductive WalkError where
  | file (path : FilePath) (error : FileError)
  | loop (path : FilePath) (ancestor : FilePath)
  deriving DecidableEq, Inhabited

namespace WalkError

/-- The text of an error, with the path at which the walk met it. -/
def message : WalkError → String
  | .file path e => s!"IO error for operation on {path.text}: {e.message}"
  | .loop path ancestor =>
    s!"File system loop found: {path.text} points to an ancestor {ancestor.text}"

/-- The path at which the walk met an error. -/
def path : WalkError → FilePath
  | .file path _ => path
  | .loop path _ => path

/-- Whether an error is a link that leads back into a directory which the walk is in. -/
def isLoop : WalkError → Bool
  | .loop .. => true
  | .file .. => false

end WalkError

/-- An entry met on a walk: its path, its own name, the names of the directories between the start
and it, and whether it is a directory. -/
structure WalkEntry where
  path : FilePath
  name : String
  under : List String
  isDir : Bool
  deriving DecidableEq, Inhabited

/-- A directory that a walk is in: where it is, what path led there, and the names below the
start. -/
structure OpenDir where
  names : List String
  path : FilePath
  under : List String
  entries : List (String × FileTree)

namespace OpenDir

/-- The entries of a directory in the order of their names. -/
def sortedEntries (d : OpenDir) : List (String × FileTree) :=
  d.entries.mergeSort fun a b => decide (a.1 ≤ b.1)

/-- Looks at an entry: the entry and, for a directory, the directory. A link is followed, and must
not lead to one of `ancestors`, the directories around it with the innermost first. -/
def visit (files : FileTree) (ancestors : List OpenDir) (d : OpenDir) (e : String × FileTree) :
    Except WalkError (WalkEntry × Option OpenDir) :=
  let path := d.path.join e.1
  let entry (isDir : Bool) : WalkEntry := ⟨path, e.1, d.under, isDir⟩
  match e.2 with
  | .file _ => .ok (entry false, none)
  | .dir es => .ok (entry true, some ⟨d.names ++ [e.1], path, d.under ++ [e.1], es⟩)
  | .link _ =>
    match files.lookup path with
    | .error error => .error (.file path error)
    | .ok ⟨names, .dir es⟩ =>
      match ancestors.find? (·.names == names) with
      | some ancestor => .error (.loop path ancestor.path)
      | none => .ok (entry true, some ⟨names, path, d.under ++ [e.1], es⟩)
    | .ok _ => .ok (entry false, none)

/-- Everything below a directory, at most `fuel` directories deep; `skip` says which entries to
leave out together with what is below them. -/
def below (files : FileTree) (skip : WalkEntry → Bool) :
    Nat → List OpenDir → OpenDir → List (Except WalkError WalkEntry)
  | 0, _, _ => []
  | fuel + 1, ancestors, d =>
    d.sortedEntries.flatMap fun e =>
      match visit files (d :: ancestors) d e with
      | .error error => [.error error]
      | .ok (entry, inner) =>
        if skip entry then []
        else
          match inner with
          | none => [.ok entry]
          | some inner =>
            .ok entry ::
              if FileTree.isTooLong inner.path then [.error (.file inner.path .nameTooLong)]
              else below files skip fuel (d :: ancestors) inner

end OpenDir

namespace FileTree

/-- The directory at which a walk starts; none when the path leads to a file. -/
def walkStart (files : FileTree) (start : FilePath) : Except WalkError (Option OpenDir) :=
  match files.lookup start with
  | .error error => .error (.file start error)
  | .ok ⟨names, .dir es⟩ => .ok (some ⟨names, start, [], es⟩)
  | .ok _ => .ok none

/-- Everything below a path. A walk cannot go deeper than the directories there are, each of them at
most once for every link on the way. -/
def walk (files : FileTree) (skip : WalkEntry → Bool) (start : FilePath) :
    List (Except WalkError WalkEntry) :=
  match files.walkStart start with
  | .error error => [.error error]
  | .ok none => []
  | .ok (some d) => d.below files skip ((files.weight + 1) * (files.weight + 1)) []

/-- The entries directly in the directory to which a path leads. -/
def list (files : FileTree) (start : FilePath) : Except WalkError (List WalkEntry) := do
  match ← files.walkStart start with
  | none => return []
  | some d => return (← d.sortedEntries.mapM (OpenDir.visit files [d] d)).map Prod.fst

end FileTree

end GoService.Project
