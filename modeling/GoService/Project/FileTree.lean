import GoService.Project.FilePath

/-!
# File trees

A file system as a value: directories, files with their bytes, and symbolic links. `lookup` follows
a path through it as a Unix kernel does; the errors are those that the kernel reports. A path with a
NUL does not even reach the kernel.

Everything in a tree can be read, and names are texts. What a kernel also knows is not part of a
tree: permissions and the errors that come of them, faults of a device, and names that are no UTF-8.
-/

namespace GoService.Project

/-- What the file system answers when it cannot do what is asked. -/
inductive FileError where
  | notFound
  | notADirectory
  | isADirectory
  | nameTooLong
  | tooManyLinks
  | nulInPath
  deriving DecidableEq, Inhabited

/-- The wording of a file error, with its number. -/
def FileError.message : FileError → String
  | .notFound => "No such file or directory (os error 2)"
  | .notADirectory => "Not a directory (os error 20)"
  | .isADirectory => "Is a directory (os error 21)"
  | .nameTooLong => "File name too long (os error 36)"
  | .tooManyLinks => "Too many levels of symbolic links (os error 40)"
  | .nulInPath => "file name contained an unexpected NUL byte"

/-- Why a file could not be read as text. -/
inductive ReadError where
  | file (e : FileError)
  | notText
  deriving DecidableEq, Inhabited

/-- The text of an error, as the operating system or the decoder words it. -/
def ReadError.message : ReadError → String
  | .file e => e.message
  | .notText => "stream did not contain valid UTF-8"

/-- A file, a directory with its entries by name, or a symbolic link. -/
inductive FileTree where
  | file (content : ByteArray)
  | dir (entries : List (String × FileTree))
  | link (target : String)

namespace FileTree

instance : Inhabited FileTree := ⟨dir []⟩

/-- The entries of a directory; there are none in anything else. -/
def entries : FileTree → List (String × FileTree)
  | dir es => es
  | _ => []

/-- Whether this is a directory itself. -/
def isDirNode : FileTree → Bool
  | dir _ => true
  | _ => false

/-- What stands in the tree at names followed one by one, no links. -/
def at? : FileTree → List String → Option FileTree
  | t, [] => some t
  | t, name :: names =>
    match t.entries.lookup name with
    | some child => at? child names
    | none => none

/-- Where a path leads: the names from the root, without links, and what stands there. -/
structure Place where
  names : List String
  node : FileTree

/-- The most links that one path may follow. -/
def maxLinks : Nat := 40

/-- The greatest number of bytes in the name of an entry. -/
def maxNameBytes : Nat := 255

/-- The greatest number of bytes in a path. -/
def maxPathBytes : Nat := 4095

/-- Whether a path has more bytes than a path may have. -/
def isTooLong (p : FilePath) : Bool :=
  p.text.utf8ByteSize > maxPathBytes

/-- The error at a name that a directory does not have. -/
def missing (name : String) : FileError :=
  if name.utf8ByteSize > maxNameBytes then .nameTooLong else .notFound

/-- Follows pieces of a path from the place `names`. An empty piece and a dot stay at a directory,
and two dots go up from one. Where a link stands `onLink` goes on, with its target, the place of its
directory and the pieces that are left. -/
def followUpTo (root : FileTree)
    (onLink : String → List String → List String → Except FileError Place) (names : List String) :
    List String → Except FileError Place
  | [] =>
    match root.at? names with
    | some node => .ok ⟨names, node⟩
    | none => .error .notFound
  | piece :: pieces =>
    match root.at? names with
    | some (.dir es) =>
      if piece = "" ∨ piece = "." then followUpTo root onLink names pieces
      else if piece = ".." then followUpTo root onLink names.dropLast pieces
      else
        match es.lookup piece with
        | none => .error (missing piece)
        | some (.link target) => onLink target names pieces
        | some _ => followUpTo root onLink (names ++ [piece]) pieces
    | some _ => .error .notADirectory
    | none => .error .notFound

/-- Follows pieces of a path from the place `names`, with `links` links left. -/
def follow (root : FileTree) (links : Nat) (names pieces : List String) :
    Except FileError Place :=
  match links with
  | 0 => followUpTo root (fun _ _ _ => .error .tooManyLinks) names pieces
  | links + 1 =>
    let onLink (target : String) (names pieces : List String) : Except FileError Place :=
      if target = "" then .error .notFound
      else
        -- the target stands in for the link: its pieces come before what is left
        let start := if (FilePath.mk target).isAbsolute then [] else names
        follow root links start (Text.splitString '/' target ++ pieces)
    followUpTo root onLink names pieces

/-- Where a path leads. Relative paths lead nowhere. -/
def lookup (root : FileTree) (p : FilePath) : Except FileError Place :=
  if p.text.toList.contains '\x00' then .error .nulInPath
  else if isTooLong p then .error .nameTooLong
  else if p.isAbsolute then follow root maxLinks [] (Text.splitString '/' p.text)
  else .error .notFound

/-- Whether a path leads to a directory. -/
def isDir (root : FileTree) (p : FilePath) : Bool :=
  match root.lookup p with
  | .ok place => place.node.isDirNode
  | .error _ => false

/-- Whether a path leads to a file. -/
def isFile (root : FileTree) (p : FilePath) : Bool :=
  match root.lookup p with
  | .ok ⟨_, .file _⟩ => true
  | _ => false

/-- The text of the file at a path. -/
def readText (root : FileTree) (p : FilePath) : Except ReadError String :=
  match root.lookup p with
  | .error e => .error (.file e)
  | .ok ⟨_, .file content⟩ =>
    match String.fromUTF8? content with
    | some s => .ok s
    | none => .error .notText
  | .ok _ => .error (.file .isADirectory)

mutual

/-- The texts of the files in a tree, as far as they are texts. -/
def texts : FileTree → List String
  | file content => (String.fromUTF8? content).toList
  | dir es => textsOf es
  | link _ => []

/-- The texts of all files in the entries of a directory. -/
def textsOf : List (String × FileTree) → List String
  | [] => []
  | (_, t) :: es => texts t ++ textsOf es

end

/-- The texts of an entry are among those of its directory. -/
theorem texts_subset_of_lookup {es : List (String × FileTree)} {name : String} {t : FileTree}
    (h : es.lookup name = some t) : t.texts ⊆ textsOf es := by
  induction es with
  | nil => simp at h
  | cons e es ih =>
    obtain ⟨key, node⟩ := e
    simp only [List.lookup_cons] at h
    simp only [textsOf]
    split at h
    · obtain rfl := Option.some.inj h
      exact List.subset_append_left ..
    · exact fun s hs => List.mem_append_right _ (ih h hs)

/-- The texts of a node are among those of the tree. -/
theorem texts_subset_of_at? {root node : FileTree} {names : List String}
    (h : root.at? names = some node) : node.texts ⊆ root.texts := by
  induction names generalizing root with
  | nil =>
    obtain rfl := Option.some.inj h
    exact fun _ hs => hs
  | cons name names ih =>
    simp only [at?] at h
    split at h
    · next child hchild =>
      intro s hs
      have hs := texts_subset_of_lookup hchild (ih h hs)
      cases root <;> simp_all [entries, texts]
    · simp at h

/-- Following pieces ends at the node that the names of the place lead to, if following links does.
-/
theorem at?_of_followUpTo {root : FileTree}
    {onLink : String → List String → List String → Except FileError Place}
    (hlink : ∀ {target names pieces place}, onLink target names pieces = .ok place →
      root.at? place.names = some place.node)
    {names pieces : List String} {place : Place}
    (h : followUpTo root onLink names pieces = .ok place) :
    root.at? place.names = some place.node := by
  fun_induction followUpTo root onLink names pieces <;> simp_all
  · next hat =>
    subst h
    exact hat
  · exact hlink h

/-- A path leads to what stands at the names that it is followed to. -/
theorem at?_of_follow {root : FileTree} {links : Nat} {names pieces : List String} {place : Place}
    (h : follow root links names pieces = .ok place) : root.at? place.names = some place.node := by
  induction links generalizing names pieces place with
  | zero => exact at?_of_followUpTo (fun h => by cases h) h
  | succ links ih =>
    refine at?_of_followUpTo (fun {target names pieces place} h => ?_) h
    split at h
    · cases h
    · exact ih h

/-- What a path leads to is the node that the names of the place lead to. -/
theorem at?_of_lookup {root : FileTree} {p : FilePath} {place : Place}
    (h : root.lookup p = .ok place) : root.at? place.names = some place.node := by
  simp only [lookup] at h
  split at h
  · cases h
  · split at h
    · cases h
    · split at h
      · exact at?_of_follow h
      · cases h

/-- The text that is read is one of the texts of the tree. -/
theorem mem_texts_of_readText {root : FileTree} {p : FilePath} {s : String}
    (h : root.readText p = .ok s) : s ∈ root.texts := by
  simp only [readText] at h
  split at h
  · simp at h
  · next hplace =>
    split at h
    · next hs =>
      have hsub := texts_subset_of_at? (at?_of_lookup hplace)
      simp only [texts, hs] at hsub
      exact hsub (by simpa using h.symm)
    · simp at h
  · simp at h

mutual

/-- The number of files, directories and links, and of the bytes in files. -/
def weight : FileTree → Nat
  | file content => content.size + 1
  | dir es => weightEntries es + 1
  | link _ => 1

/-- The number of nodes in the entries of a directory. -/
def weightEntries : List (String × FileTree) → Nat
  | [] => 0
  | (_, t) :: es => weight t + weightEntries es

end

/-! ## Changing a tree -/

/-- Writes an entry of a directory. -/
def putEntry (name : String) (node : FileTree) :
    List (String × FileTree) → List (String × FileTree)
  | [] => [(name, node)]
  | e :: es => if e.1 = name then (name, node) :: es else e :: putEntry name node es

/-- Puts a node at names followed one by one; what is missing on the way becomes a directory. -/
def put (node : FileTree) : List String → FileTree → FileTree
  | [], _ => node
  | name :: names, t =>
    let child := (t.entries.lookup name).getD (dir [])
    dir (putEntry name (put node names child) t.entries)

/-- Takes away what stands at names followed one by one. -/
def erase : List String → FileTree → FileTree
  | [], t => t
  | [name], t => dir (t.entries.filter (·.1 != name))
  | name :: names, t =>
    match t.entries.lookup name with
    | some child => dir (putEntry name (erase names child) t.entries)
    | none => t

/-- The pieces of a path between its slashes. -/
def piecesOf (path : String) : List String :=
  (Text.splitString '/' path).filter (!·.isEmpty)

/-- Goes from the directory at `names` into another one, which is made if there is none. -/
def enterDir (root : FileTree) (names : List String) (piece : String) : FileTree × List String :=
  match follow root maxLinks names [piece] with
  | .ok place => (root, place.names)
  | .error _ => (put (dir []) (names ++ [piece]) root, names ++ [piece])

/-- Goes from the root into one directory after another. -/
def enterDirs (root : FileTree) (pieces : List String) : FileTree × List String :=
  pieces.foldl (fun here piece => enterDir here.1 here.2 piece) (root, [])

/-- The names at which the content of the file `name` in the directory at `names` is kept, after at
most `links` links; the last of these may lead to a file that is not there yet. -/
def contentNames (root : FileTree) : Nat → List String → String → List String
  | 0, names, name => names ++ [name]
  | links + 1, names, name =>
    match root.at? (names ++ [name]) with
    | some (.link target) =>
      let start := if (FilePath.mk target).isAbsolute then [] else names
      let pieces := piecesOf target
      match follow root links start pieces.dropLast, pieces.getLast? with
      | .ok place, some last => contentNames root links place.names last
      | _, _ => names ++ [name]
    | _ => names ++ [name]

/-- The tree with a file, directory or link at a path; missing directories are made, a directory
that is there keeps its entries, and a file is written through links. -/
def write (root : FileTree) (p : FilePath) (node : FileTree) : FileTree :=
  let pieces := piecesOf p.text
  match node, pieces.getLast? with
  | dir [], _ => (root.enterDirs pieces).1
  | _, none => node
  | file _, some name =>
    let (root, names) := root.enterDirs pieces.dropLast
    put node (root.contentNames maxLinks names name) root
  | _, some name =>
    let (root, names) := root.enterDirs pieces.dropLast
    put node (names ++ [name]) root

/-- The tree without the file or link at a path; where there is none, or a directory, nothing
changes. -/
def remove (root : FileTree) (p : FilePath) : FileTree :=
  let pieces := Text.splitString '/' p.text
  match follow root maxLinks [] pieces.dropLast, pieces.getLast? with
  | .ok place, some name =>
    match place.node.entries.lookup name with
    | none | some (dir _) => root
    | some _ => erase (place.names ++ [name]) root
  | _, _ => root

end FileTree

end GoService.Project
