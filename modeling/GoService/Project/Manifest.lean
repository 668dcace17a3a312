import GoService.Project.FileTree
import GoService.Source.StringLiteral
import GoService.Text.Blank

/-!
# Module manifests

The file `go.mod` of a module, read line by line: `module`, `go`, `toolchain`, `require` and
`replace`, alone or in parentheses. Some other verbs are accepted and ignored. A required module is
replaced by the last directive for its name and version, or else by the last one for its name.
-/

namespace GoService.Project

/-- What stands in for a replaced module: a directory as it is written, or another module. -/
inductive Replacement where
  | path (path : String)
  | module (name : String) (version : String)
  deriving DecidableEq, Inhabited

/-- A directive that replaces a module, in all versions or in one. -/
structure ReplaceRule where
  old : String
  oldVersion : Option String
  new : Replacement
  deriving DecidableEq, Inhabited

/-- A required module with the replacement that applies to it. -/
structure Requirement where
  name : String
  version : String
  indirect : Bool
  replacement : Option Replacement
  deriving DecidableEq, Inhabited

/-- A module as its manifest describes it. -/
structure Manifest where
  name : String
  goVersion : Option String
  toolchain : Option String
  requires : List Requirement
  replaces : List ReplaceRule
  deriving DecidableEq, Inhabited

/-- What is wrong with a line of a manifest. -/
inductive ManifestFault where
  | unterminatedString
  | badString (token : String) (error : Source.LiteralError)
  | moduleUsage
  | repeatedModule
  | goUsage
  | toolchainUsage
  | requireUsage
  | replaceUsage
  | replacedModuleUsage
  | versionMissing (target : String)
  | versionOfDirectory
  | replacementUsage
  | unknownVerb (verb : String)
  | unterminatedBlock (verb : String)
  deriving DecidableEq, Inhabited

/-- The text of a fault in a manifest. -/
def ManifestFault.message : ManifestFault → String
  | .unterminatedString => "unterminated quoted string"
  | .badString token e => s!"bad quoted string {token}: {e.message}"
  | .moduleUsage => "usage: module module/path"
  | .repeatedModule => "repeated module directive"
  | .goUsage => "usage: go 1.23"
  | .toolchainUsage => "usage: toolchain go1.23.0"
  | .requireUsage => "usage: require module/path v1.2.3"
  | .replaceUsage => "usage: replace module/path [v1.2.3] => other [v1.2.3]"
  | .replacedModuleUsage => "replace: expected module path and optional version before =>"
  | .versionMissing target => s!"replace: module replacement {target} must have a version"
  | .versionOfDirectory => "replace: directory replacement cannot have a version"
  | .replacementUsage => "replace: expected target and optional version after =>"
  | .unknownVerb verb => s!"unknown directive: {verb}"
  | .unterminatedBlock verb => s!"unterminated {verb} block"

/-- Why there is no manifest. -/
inductive ManifestError where
  | missing (dir : FilePath)
  | unreadable (path : FilePath) (error : ReadError)
  | malformed (path : FilePath) (line : Nat) (fault : ManifestFault)
  | emptyModule (path : FilePath)
  deriving DecidableEq, Inhabited

/-- The text of an error, with the place that it is about. -/
def ManifestError.message : ManifestError → String
  | .missing dir => s!"no go.mod in {dir.text}"
  | .unreadable path e => s!"reading {path.text}: {e.message}"
  | .malformed path line fault => s!"{path.text}:{line}: {fault.message}"
  | .emptyModule path => s!"{path.text}: module name is empty"

/-! ## Lines -/

/-- The tokens of a line as they are written, and the comment after them. -/
structure ManifestLine where
  tokens : List String
  comment : Option String
  deriving DecidableEq, Inhabited

/-- The index of the first occurrence of a pattern among characters. -/
def indexOf? (pattern : List Char) : List Char → Option Nat
  | [] => if pattern.isEmpty then some 0 else none
  | c :: cs =>
    if pattern.isPrefixOf (c :: cs) then some 0 else (indexOf? pattern cs).map (· + 1)

/-- The number of characters before a pattern that does not stand at the very start; all of them
when there is no such pattern. -/
def lengthBefore (pattern cs : List Char) : Nat :=
  match indexOf? pattern cs with
  | some (n + 1) => n + 1
  | _ => cs.length

/-- The length of the bare token at the start of a text: it ends at white space, a parenthesis, a
comment or an arrow. -/
def bareLength (cs : List Char) : Nat :=
  let run := cs.takeWhile fun c => !(Text.isBlank c || c == '(' || c == ')')
  -- a token that begins with a comment mark or an arrow is taken whole
  let run := run.take (lengthBefore ['/', '/'] run)
  lengthBefore ['=', '>'] run

/-- The number of characters in the first token of a text that begins with `c`, beside `c`. -/
def manifestTokenLength (c : Char) (cs : List Char) : Except ManifestFault Nat :=
  if c = '"' ∨ c = '\x60' then
    match cs.idxOf? c with
    | some n => .ok (n + 1)
    | none => .error .unterminatedString
  else if c = '=' ∧ cs.head? = some '>' then .ok 1
  else if c = '(' ∨ c = ')' then .ok 0
  else .ok (bareLength (c :: cs) - 1)

/-- Cuts a line into tokens. A quoted token keeps its quotes. -/
def readTokens (line : List Char) : Except ManifestFault ManifestLine :=
  match line with
  | [] => .ok ⟨[], none⟩
  | c :: cs =>
    if Text.isBlank c then readTokens cs
    else if c = '/' ∧ cs.head? = some '/' then
      .ok ⟨[], some (String.ofList (Text.trim (cs.drop 1)))⟩
    else
      match manifestTokenLength c cs with
      | .error e => .error e
      | .ok n =>
        match readTokens (cs.drop n) with
        | .error e => .error e
        | .ok rest => .ok { rest with tokens := String.ofList (c :: cs.take n) :: rest.tokens }
  termination_by line.length
  decreasing_by all_goals (simp only [List.length_cons, List.length_drop]; omega)

/-- The text that a token stands for. -/
def tokenValue (token : String) : Except ManifestFault String :=
  if token.toList.head? == some '"' || token.toList.head? == some '\x60' then
    match Source.unquote token with
    | .ok s => .ok s
    | .error e => .error (.badString token e)
  else .ok token

/-! ## Directives -/

/-- Whether a replacement is written as a directory. -/
def namesDirectory (target : String) : Bool :=
  target == "." || target == ".." ||
    ["./", "../", "/", ".\\", "..\\"].any fun s => s.toList.isPrefixOf target.toList

/-- The directives read so far; requirements and replacements are in the order of the file. -/
structure Draft where
  module : Option String
  goVersion : Option String
  toolchain : Option String
  requires : List Requirement
  replaces : List ReplaceRule
  deriving DecidableEq, Inhabited

namespace Draft

/-- The draft before the first directive. -/
def empty : Draft := ⟨none, none, none, [], []⟩

/-- The module and version before the arrow of a replacement. -/
def replacedModule : List String → Except ManifestFault (String × Option String)
  | [old] => do return (← tokenValue old, none)
  | [old, version] => do return (← tokenValue old, some (← tokenValue version))
  | _ => .error .replacedModuleUsage

/-- The replacement after the arrow. -/
def replacementOf : List String → Except ManifestFault Replacement
  | [target] => do
    let target ← tokenValue target
    if namesDirectory target then return .path target else throw (.versionMissing target)
  | [name, version] => do
    let name ← tokenValue name
    if namesDirectory name then throw .versionOfDirectory
    return .module name (← tokenValue version)
  | _ => .error .replacementUsage

/-- Reads the arguments of a replacement. -/
def replaceOf (args : List String) : Except ManifestFault ReplaceRule := do
  if !args.contains "=>" then throw .replaceUsage
  let (old, oldVersion) ← replacedModule (args.takeWhile (· != "=>"))
  let new ← replacementOf ((args.dropWhile (· != "=>")).drop 1)
  return ⟨old, oldVersion, new⟩

/-- Whether the comment beside a requirement says that it is indirect. -/
def marksIndirect (comment : Option String) : Bool :=
  comment.any fun c => c == "indirect" || "indirect;".toList.isPrefixOf c.toList

/-- Reads one directive. -/
def apply (d : Draft) (verb : String) (args : List String) (comment : Option String) :
    Except ManifestFault Draft :=
  match verb with
  | "module" =>
    match args with
    | [name] => do
      if d.module.isSome then throw .repeatedModule
      return { d with module := some (← tokenValue name) }
    | _ => .error .moduleUsage
  | "go" =>
    match args with
    | [v] => do return { d with goVersion := some (← tokenValue v) }
    | _ => .error .goUsage
  | "toolchain" =>
    match args with
    | [v] => do return { d with toolchain := some (← tokenValue v) }
    | _ => .error .toolchainUsage
  | "require" =>
    match args with
    | [name, version] => do
      let r : Requirement :=
        ⟨← tokenValue name, ← tokenValue version, marksIndirect comment, none⟩
      return { d with requires := d.requires ++ [r] }
    | _ => .error .requireUsage
  | "replace" => do return { d with replaces := d.replaces ++ [← replaceOf args] }
  -- known, but of no use here: their arguments are not looked at
  | "exclude" | "retract" | "godebug" | "tool" | "ignore" => .ok d
  | _ => .error (.unknownVerb verb)

/-- Reads one line; `block` is the verb of the open parenthesis and the line on which it opens. -/
def line (d : Draft) (block : Option (String × Nat)) (number : Nat) (l : ManifestLine) :
    Except ManifestFault (Draft × Option (String × Nat)) :=
  match block, l.tokens with
  | _, [] => .ok (d, block)
  | some _, [")"] => .ok (d, none)
  | some (verb, _), args => do return (← d.apply verb args l.comment, block)
  | none, [verb, "("] => .ok (d, some (verb, number))
  | none, [_, "(", ")"] => .ok (d, none)
  | none, verb :: args => do return (← d.apply verb args l.comment, none)

/-- Reads the lines from a number on; a fault comes with its line. -/
def lines (d : Draft) (block : Option (String × Nat)) (number : Nat) :
    List (List Char) → Except (Nat × ManifestFault) Draft
  | [] =>
    match block with
    | some (verb, start) => .error (start, .unterminatedBlock verb)
    | none => .ok d
  | l :: ls =>
    match (readTokens l).bind (d.line block number) with
    | .error fault => .error (number, fault)
    | .ok (d, block) => lines d block (number + 1) ls

/-- Whether a rule is about a module in a version. -/
def matchesRule (name version : String) (r : ReplaceRule) : Bool :=
  r.old == name && r.oldVersion.all (· == version)

/-- The later of two rules, unless only the earlier one names a version. -/
def moreSpecific (best : Option ReplaceRule) (r : ReplaceRule) : Option ReplaceRule :=
  match best with
  | some b => if b.oldVersion.isSome && r.oldVersion.isNone then best else some r
  | none => some r

/-- The replacement of a required module, chosen among all rules of the manifest. -/
def replacementFor? (replaces : List ReplaceRule) (name version : String) : Option Replacement :=
  ((replaces.filter (matchesRule name version)).foldl moreSpecific none).map (·.new)

/-- The manifest, once every line is read. -/
def manifest (d : Draft) (path : FilePath) : Except ManifestError Manifest :=
  let name := d.module.getD ""
  if (Text.trim name.toList).isEmpty then .error (.emptyModule path)
  else
    .ok {
      name
      goVersion := d.goVersion
      toolchain := d.toolchain
      requires := d.requires.map fun r =>
        { r with replacement := replacementFor? d.replaces r.name r.version }
      replaces := d.replaces }

end Draft

namespace Manifest

/-- The name of the file with the manifest. -/
def fileName : String := "go.mod"

/-- Reads the text of a manifest; `path` stands in errors. -/
def parse (text : String) (path : FilePath) : Except ManifestError Manifest :=
  match Draft.empty.lines none 1 (Text.lines text.toList) with
  | .error (line, fault) => .error (.malformed path line fault)
  | .ok d => d.manifest path

/-- Reads the manifest in a directory. -/
def read (files : FileTree) (dir : FilePath) : Except ManifestError Manifest :=
  let path := dir.join fileName
  match files.readText path with
  | .ok text => parse text path
  | .error (.file .notFound) => .error (.missing dir)
  | .error e => .error (.unreadable path e)

/-- Whether an import path lies at or below another one. -/
def hasPathPrefix (path base : String) : Bool :=
  base.toList.isPrefixOf path.toList &&
    (let rest := path.toList.drop base.length
     rest.isEmpty || rest.head? == some '/')

/-- Whether an import path belongs to the module. -/
def covers (m : Manifest) (importPath : String) : Bool :=
  hasPathPrefix importPath m.name

/-- The later of two requirements, unless the earlier one has the longer name. -/
def longerName (best : Option Requirement) (r : Requirement) : Option Requirement :=
  match best with
  | some b => if b.name.utf8ByteSize ≤ r.name.utf8ByteSize then some r else best
  | none => some r

/-- The requirement with the longest name at or below which an import path lies. -/
def requirementFor? (m : Manifest) (importPath : String) : Option Requirement :=
  (m.requires.filter fun r => hasPathPrefix importPath r.name).foldl longerName none

end Manifest

end GoService.Project
