import GoService.Run

/-!
# The command line

Scans a project and prints its model as JSON. The settings come from variables of the environment
and from options, which win. The directories in which a run can look are read into a file tree
first; all else is done by `Project.run`.
-/

namespace GoService.CommandLine

open Project (Settings FileTree Manifest FilePath)

/-! ## Options -/

/-- What the arguments ask for. -/
structure Options where
  project : Option String
  modCache : Option String
  goroot : Option String
  framework : Option String
  permissive : Bool
  deriving DecidableEq, Inhabited

/-- How the program is called. -/
def usage : String :=
  "Usage: go-service [--mod-cache DIR] [--goroot DIR] [--framework MODULE] [--permissive] " ++
    "[-v]... [PROJECT]"

namespace Options

/-- The options without arguments. -/
def empty : Options := ⟨none, none, none, none, false⟩

/-- Whether an argument asks for more messages; there are none to be had. -/
def isVerbose (arg : String) : Bool :=
  arg == "--verbose" || (arg.startsWith "-v" && (arg.drop 1).all (· == 'v'))

/-- Reads arguments and puts what they ask for over `o`. -/
def read (o : Options) : List String → Except String Options
  | [] => .ok o
  | "--permissive" :: rest => read { o with permissive := true } rest
  | "--mod-cache" :: dir :: rest => read { o with modCache := some dir } rest
  | "--goroot" :: dir :: rest => read { o with goroot := some dir } rest
  | "--framework" :: module :: rest => read { o with framework := some module } rest
  | arg :: rest =>
    if isVerbose arg then read o rest
    else if arg.startsWith "-" || o.project.isSome then .error s!"unexpected argument {arg}"
    else read { o with project := some arg } rest

/-- The settings with the options of the command line over them. -/
def applyTo (o : Options) (c : Settings) : Settings where
  modCache := (o.modCache.map FilePath.mk).or c.modCache
  goroot := (o.goroot.map FilePath.mk).or c.goroot
  framework := o.framework.getD c.framework
  mode := if o.permissive then .permissive else c.mode

end Options

/-- The variables of the environment that hold settings. -/
def settingVariables : List String :=
  ["GOMODCACHE", "GOPATH", "HOME", "GOROOT", "SVCGEN_MODE", "SVCGEN_FRAMEWORK"]

/-- The directories in which a run over a project can look: the project itself, the module cache,
the standard library, and the directories that replace modules. -/
def searched (settings : Settings) (dir : FilePath) (manifest : Option Manifest) : List FilePath :=
  let locals : List FilePath := match manifest with
    | some m => (m.requires.filter (·.replacement matches some (.path _))).filterMap
        (Project.Layout.ofProject (.dir []) dir m settings).moduleRoot?
    | none => []
  dir :: settings.modCache.toList ++ (settings.goroot.map (·.join "src")).toList ++ locals

/-! ## Reading directories -/

/-- Reads what stands at a place. Links are read through; one that leads back to a directory that is
being read becomes a link to that directory's place. `around` has the directories that are being
read, with their places. -/
partial def readNode (around : List (String × String)) (place : String) : IO FileTree := do
  let path := (← IO.currentDir) / place
  if ← path.isDir then
    let actual := (← IO.FS.realPath path).toString
    match around.lookup actual with
    | some outer => return .link outer
    | none =>
      let entries ← (← path.readDir).toList.mapM fun e => do
        let node ← readNode ((actual, place) :: around) ((FilePath.mk place).join e.fileName).text
        return (e.fileName, node)
      return .dir entries
  else if ← path.pathExists then return .file (← IO.FS.readBinFile path)
  else return .link ""

/-- The tree with what stands at a path, if there is anything. -/
def readInto (tree : FileTree) (p : FilePath) : IO FileTree := do
  if ← ((← IO.currentDir) / p.text).pathExists then return tree.write p (← readNode [] p.text)
  else return tree

/-- The path from the root, without links. -/
def absolute (p : FilePath) : IO FilePath := do
  let path := (← IO.currentDir) / p.text
  return ⟨(← IO.FS.realPath path).toString⟩

/-- Reads the directories in which a run can look. -/
def readTree (settings : Settings) (dir : FilePath) : IO FileTree := do
  let own ← readInto (.dir []) dir
  let rest := (searched settings dir (Manifest.read own dir).toOption).drop 1
  rest.foldlM readInto own

/-! ## The program -/

/-- Runs over the project that the options name and gives its model as text. -/
def model (o : Options) : IO (Except String String) := do
  let env ← settingVariables.mapM fun name => do return (name, ← IO.getEnv name)
  match Settings.ofVariables fun name => (env.lookup name).join with
  | .error e => return .error e.message
  | .ok settings =>
    let settings := o.applyTo settings
    let settings := { settings with
      modCache := ← settings.modCache.mapM fun p => absolute p <|> pure p
      goroot := ← settings.goroot.mapM fun p => absolute p <|> pure p }
    let dir ← absolute ⟨o.project.getD "."⟩
    match (Project.run (← readTree settings dir) settings dir).result with
    | .ok m => return .ok m.toJson.pretty
    | .error e => return .error s!"scanning {dir.text}: {e.message}"

end GoService.CommandLine

/-- Scans the project that the arguments name and prints its model. -/
def main (args : List String) : IO UInt32 := do
  match GoService.CommandLine.Options.empty.read args with
  | .error e =>
    IO.eprintln s!"error: {e}\n\n{GoService.CommandLine.usage}"
    return 2
  | .ok options =>
    match ← GoService.CommandLine.model options with
    | .ok text =>
      IO.println text
      return 0
    | .error e =>
      IO.eprintln s!"Error: {e}"
      return 1
