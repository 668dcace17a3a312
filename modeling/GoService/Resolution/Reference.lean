import GoService.Data.KnownNames
import GoService.Data.StructTable
import GoService.Resolution.Error

/-!
# What names refer to

A resolution works on the packages loaded so far, on the table of structs and on the trail of the
declarations on its way; packages and structs that were added stay when it fails. The functions here
follow names: a qualifier to an import, a path to a package, and a type to the struct literal behind
it.
-/

namespace GoService.Resolution

open Data Package Source

/-- The declarations on the way to a type, innermost first: the keys of those that are being
expanded, and of the structs whose fields are being produced through embedding. -/
structure Trail where
  expanding : List String
  embedding : List String
  deriving DecidableEq

/-- Nothing is being resolved. -/
def Trail.empty : Trail := ⟨[], []⟩

/-- The packages and structs known so far, and the declarations on the way. -/
structure Known where
  packages : LoadedPackages
  structs : StructTable
  trail : Trail

namespace Known

/-- What is known before the first resolution. -/
def start (packages : LoadedPackages) : Known := ⟨packages, .empty, .empty⟩

/-- What is known, with a declaration on the way that is being expanded. -/
def expand (k : Known) (key : String) : Known :=
  { k with trail.expanding := key :: k.trail.expanding }

/-- What is known, without the innermost declaration that is being expanded. -/
def leaveExpansion (k : Known) : Known :=
  { k with trail.expanding := k.trail.expanding.tail }

/-- What is known, with a struct on the way that is being embedded. -/
def embed (k : Known) (key : String) : Known :=
  { k with trail.embedding := key :: k.trail.embedding }

/-- What is known, without the innermost struct that is being embedded. -/
def leaveEmbedding (k : Known) : Known :=
  { k with trail.embedding := k.trail.embedding.tail }

/-- What is known, with other structs on the way that are being embedded. -/
def withEmbedding (k : Known) (keys : List String) : Known :=
  { k with trail.embedding := keys }

/-- What is known, with another table of structs. -/
def withStructs (k : Known) (structs : StructTable) : Known :=
  { k with structs }

/-- What is known, with other packages. -/
def withPackages (k : Known) (packages : LoadedPackages) : Known :=
  { k with packages }

end Known

/-- A computation that may load packages, register structs and fail. -/
abbrev Resolve := ExceptT ResolutionError (StateM Known)

/-- Runs a resolution in a changed state, and changes the state back when it has ended, in whatever
way. -/
def bracketed (enter leave : Known → Known) (x : Resolve α) : Resolve α :=
  ExceptT.mk do
    modify enter
    let outcome ← x.run
    modify leave
    return outcome

/-- A file of a package, in which names are looked up. -/
structure Site where
  package : Package
  file : SourceUnit

namespace Site

/-- The place in the source at which a span begins. -/
def placeOf (s : Site) (span : Span) : SourcePlace :=
  ⟨s.file.path, s.file.parsed.lines.positionOf span.start⟩

/-- The text of the source at a span. -/
def text (s : Site) (span : Span) : String :=
  s.file.parsed.text span

end Site

/-- The structs that are registered. -/
def structsNow : Resolve StructTable :=
  return (← get).structs

/-- Changes the table of structs. -/
def modifyStructs (f : StructTable → StructTable) : Resolve Unit :=
  modify fun k => k.withStructs (f k.structs)

/-- Asks for a package, and loads it the first time. -/
def askPackage (path : String) : Resolve (Except PackageError Package) :=
  modifyGet fun k =>
    let (answer, packages) := k.packages.load path
    (answer, k.withPackages packages)

/-- The package of a qualified name; a package that is not there makes the name unresolved. -/
def packageAt (path name : String) (place : SourcePlace) : Resolve Package := do
  match ← askPackage path with
  | .ok p => return p
  -- a directory without sources is no package, so it is the name that is wrong
  | .error (.load (.noSources importPath dir)) =>
    throw (.unresolved place s!"{path}.{name}" (.package (.load (.noSources importPath dir))))
  | .error (.load e) => throw (.load e)
  | .error (.locate e) => throw (.unresolved place s!"{path}.{name}" (.package (.locate e)))

/-- The first of the import paths whose package has the given name. -/
def firstNamed (name : String) : List String → Resolve (Option String)
  | [] => return none
  | path :: paths => do
    match ← askPackage path with
    | .ok p => if p.name = name then return some path else firstNamed name paths
    | .error _ => firstNamed name paths

/-- The import path to which a qualifier refers in a file. An import whose path suggests another
name is asked for the name that its package has. -/
def qualifierPath (site : Site) (qualifier : String) (place : SourcePlace) : Resolve String := do
  let imports := site.file.imports
  match imports.find? qualifier with
  | some i => return i.path
  | none =>
    match ← firstNamed qualifier ((imports.unnamedExcept qualifier).map (·.path)) with
    | some path => return path
    | none => throw (.unresolved place qualifier .importFor)

/-- What a name stands for: a type that needs no declaration, or a declared type of a package. -/
inductive Referent where
  | type (type : DataType)
  | declared (package : Package) (name : String)

/-- What a name without a qualifier stands for. -/
def plainReferent (site : Site) (name : String) (place : SourcePlace) :
    Except ResolutionError Referent :=
  if site.package.types.contains name then .ok (.declared site.package name)
  else
    match Builtin.ofIdent? name with
    | some b => .ok (.type (.builtin b))
    | none =>
      if name = "error" then .ok (.type (.wellKnown .error))
      else if name = "any" then .ok (.type (.wellKnown .any))
      else if name = "uintptr" ∨ name = "comparable" then
        .error (.unsupported place (.predeclared name))
      else
        -- an import into the scope of the file could declare the name
        match site.file.imports.openImport? with
        | some dot => .error (.dotImport place dot.path)
        | none => .error (.unresolved place name (.declarationIn site.package.importPath))

/-- What a qualified name refers to. -/
def selectedReferent (names : KnownNames) (site : Site) (qualifier name : String)
    (place : SourcePlace) : Resolve Referent := do
  let path ← qualifierPath site qualifier place
  match names.lookup? path name with
  | some w => return .type (.wellKnown w)
  | none =>
    let target ← packageAt path name place
    if target.types.contains name then return .declared target name
    else throw (.unresolved place s!"{qualifier}.{name}" (.declarationIn path))

/-- What a name refers to. -/
def referentOf (names : KnownNames) (site : Site) (qualifier : Option Ident) (name : Ident)
    (place : SourcePlace) : Resolve Referent :=
  match qualifier with
  | none => liftExcept (plainReferent site name.name place)
  | some q => selectedReferent names site q.name name.name place

/-- The fields of a struct literal and the file in which it is written. -/
structure StructLiteral where
  site : Site
  fields : List Field

/-- The longest chain of names that is followed to a struct literal. -/
def nameHopLimit : Nat := 64

/-- A declared type in its file, if it has no type parameters. -/
def plainDecl? (p : Package) (name : String) : Option (Site × TypeExpr) :=
  match p.type? name with
  | some d => if d.spec.typeParams.isNone then some (⟨p, d.file⟩, d.spec.type) else none
  | none => none

/-- Follows parentheses and declared names from a type to a struct literal, in at most so many
steps. Any other type ends the search. -/
def structLiteral? (names : KnownNames) (place : SourcePlace) :
    Nat → Site → TypeExpr → Resolve (Option StructLiteral)
  | 0, _, _ => return none
  | n + 1, site, type => do
    match type with
    | .struct _ _ fields _ => return some ⟨site, fields⟩
    | .paren _ inner => structLiteral? names place n site inner
    | .named _ none name [] =>
      match plainDecl? site.package name.name with
      | some (site, type) => structLiteral? names place n site type
      | none => return none
    | .named _ (some qualifier) name [] =>
      let path ← qualifierPath site qualifier.name place
      -- a well-known type is taken by its name, whatever its package declares
      if (names.lookup? path name.name).isSome then return none
      let target ← packageAt path name.name place
      match plainDecl? target name.name with
      | some (site, type) => structLiteral? names place n site type
      | none => return none
    | _ => return none

end GoService.Resolution
