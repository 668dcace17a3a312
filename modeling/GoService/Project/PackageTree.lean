import GoService.Project.ImportPath
import GoService.Project.Walk

/-!
# The packages of a project

The directories of a project as a tree of packages. Test files are left out, and so are directories
for vendored modules and test data, and everything whose name begins with a dot or an underscore.
-/

namespace GoService.Project

/-- Why the files of a project or a directory cannot be listed. -/
inductive ListingError where
  | notADirectory (path : FilePath)
  | walk (path : FilePath) (error : WalkError)
  deriving DecidableEq, Inhabited

/-- The text of an error, with the path that it is about. -/
def ListingError.message : ListingError → String
  | .notADirectory path => s!"{path.text} is not a directory"
  | .walk path e => s!"walking {path.text}: {e.message}"

/-- A directory of a project with its source files, in the order of their names. -/
inductive PackageDir where
  | node (importPath shortName : String) (dir : FilePath) (files : List FilePath)
    (children : List PackageDir)

namespace PackageDir

instance : Inhabited PackageDir := ⟨node "" "" ⟨""⟩ [] []⟩

/-- The import path of a directory. -/
def importPath : PackageDir → String
  | node p _ _ _ _ => p

/-- The name that the import path of a directory suggests. -/
def shortName : PackageDir → String
  | node _ s _ _ _ => s

/-- The directory. -/
def dir : PackageDir → FilePath
  | node _ _ d _ _ => d

/-- The source files directly in a directory. -/
def files : PackageDir → List FilePath
  | node _ _ _ fs _ => fs

/-- The directories below. -/
def children : PackageDir → List PackageDir
  | node _ _ _ _ cs => cs

/-- Whether the directory has source files. -/
def hasSources (n : PackageDir) : Bool :=
  !n.files.isEmpty

mutual

/-- The number of directories in a tree. -/
def size : PackageDir → Nat
  | node _ _ _ _ cs => sizeAll cs + 1

/-- The number of directories in several trees. -/
def sizeAll : List PackageDir → Nat
  | [] => 0
  | n :: ns => size n + sizeAll ns

end

/-- The directories in two lists are those in the one and those in the other. -/
theorem sizeAll_append (ns ms : List PackageDir) :
    sizeAll (ns ++ ms) = sizeAll ns + sizeAll ms := by
  induction ns with
  | nil => rw [List.nil_append, sizeAll, Nat.zero_add]
  | cons n ns ih => rw [List.cons_append, sizeAll, sizeAll, ih, Nat.add_assoc]

/-- The directories with source files in the trees on a stack. The directories in a directory are
put on the stack when it is taken off. -/
def packagesOn : List PackageDir → List PackageDir
  | [] => []
  | node p s d fs cs :: stack =>
    let rest := packagesOn (cs ++ stack)
    if fs.isEmpty then rest else node p s d fs cs :: rest
  termination_by stack => sizeAll stack
  decreasing_by rw [sizeAll_append, sizeAll, size]; omega

/-- The directories with source files, each before those below it. -/
def packages (n : PackageDir) : List PackageDir :=
  packagesOn [n]

mutual

/-- The directory with an import path, in preorder the first one. -/
def find? (importPath : String) : PackageDir → Option PackageDir
  | node p s d fs cs =>
    if p = importPath then some (node p s d fs cs) else findAny? importPath cs

/-- The directory with an import path in one of several trees. -/
def findAny? (importPath : String) : List PackageDir → Option PackageDir
  | [] => none
  | n :: ns => (find? importPath n).or (findAny? importPath ns)

end

/-- Whether one directory stands before another one beside it: by assumed name, then by path. -/
def before (a b : PackageDir) : Bool :=
  let pieces (n : PackageDir) : List String := n.dir.components.map Component.text
  decide (a.shortName < b.shortName) ||
    (a.shortName == b.shortName && !(pieces b).lex (pieces a) fun x y => decide (x < y))

end PackageDir

/-- Source files by the names of the directories that lead to them, in the order of these names. -/
abbrev FilesByDir := List (List String × List FilePath)

namespace FilesByDir

/-- Adds a file to a directory, behind the files that it has. -/
def add (dir : List String) (file : FilePath) : FilesByDir → FilesByDir
  | [] => [(dir, [file])]
  | e :: es =>
    if e.1 = dir then (dir, e.2 ++ [file]) :: es
    else if dir < e.1 then (dir, [file]) :: e :: es
    else e :: add dir file es

/-- The greatest number of directories on the way to a file. -/
def depth (m : FilesByDir) : Nat :=
  m.foldl (fun n e => max n e.1.length) 0

/-- The directories directly in a directory in or below which there are files. All files below one
of them stand next to each other. -/
def inner (m : FilesByDir) (dir : List String) : List (List String) :=
  ((m.filterMap fun e => (dir.isPrefixOf? e.1).bind List.head?).map (dir ++ [·])).eraseReps

/-- Takes the files of a directory. -/
def takeFiles (dir : List String) : StateM FilesByDir (List FilePath) := fun m =>
  ((m.lookup dir).getD [], m.filter (·.1 != dir))

/-- Makes the tree of a directory, at most `fuel` directories deep, from the files that are still
there; `dir` are the names from the root of the project to it. -/
def takeTree (root : FilePath) (importRoot : String) :
    Nat → List String → StateM FilesByDir PackageDir
  | fuel, dir => do
    let importPath := dir.foldl (fun p name => p ++ "/" ++ name) importRoot
    let files ← takeFiles dir
    let inner := (← get).inner dir
    let children ← match fuel with
      | 0 => pure []
      | fuel + 1 => inner.mapM (takeTree root importRoot fuel)
    return .node importPath (suggestedName importPath) (dir.foldl FilePath.join root) files
      (children.mergeSort PackageDir.before)

/-- The tree of a project. -/
def toTree (root : FilePath) (importRoot : String) (m : FilesByDir) : PackageDir :=
  (takeTree root importRoot m.depth [] m).1

end FilesByDir

/-- Whether a file with this name is a source file, and not one of tests. -/
def isSourceName (name : String) : Bool :=
  ".go".toList.isSuffixOf name.toList && !"_test.go".toList.isSuffixOf name.toList

/-- Whether a name hides its entry. -/
def isHiddenName (name : String) : Bool :=
  name.toList.head? == some '.' || name.toList.head? == some '_'

namespace WalkEntry

/-- Whether an entry is a source file. -/
def isSource (e : WalkEntry) : Bool :=
  !e.isDir && isSourceName e.name

/-- Whether an entry below a project is left out together with everything in it. -/
def isLeftOut (e : WalkEntry) : Bool :=
  isHiddenName e.name || (e.isDir && (e.name == "testdata" || e.name == "vendor"))

end WalkEntry

/-- Collects the source files that a walk meets, up to the first error that is no loop. -/
def collectSources (m : FilesByDir) :
    List (Except WalkError WalkEntry) → Except ListingError FilesByDir
  | [] => .ok m
  | .error e :: rest => if e.isLoop then collectSources m rest else .error (.walk e.path e)
  | .ok e :: rest => collectSources (if e.isSource then m.add e.under e.path else m) rest

/-- The packages of a project whose module has the import path `importRoot`. -/
def packageTree (files : FileTree) (root : FilePath) (importRoot : String) :
    Except ListingError PackageDir :=
  if files.isDir root then do
    let m ← collectSources [] (files.walk WalkEntry.isLeftOut root)
    return m.toTree root importRoot
  else .error (.notADirectory root)

/-- The source files in a directory, in the order of their names. -/
def sourceFiles (files : FileTree) (dir : FilePath) : Except ListingError (List FilePath) :=
  match files.list dir with
  | .error e => .error (.walk dir e)
  | .ok entries =>
    .ok ((entries.filter fun e => e.isSource && !isHiddenName e.name).map (·.path))

end GoService.Project
