import GoService.Resolution.Reference

/-!
# Resolving types

`typeOf` resolves a written type by recursion on it. Where it meets a declared name it goes on with
the declaration, and where a struct embeds another one the fields of that one are worked out; these
two steps are arguments of the functions here (`Steps`), and `declWithin` and `fieldsWithin` tie
the knot with a bound on the depth of such steps.

A struct enters the table before its fields are resolved, so references to it can end there; when
its fields cannot be resolved, everything entered since is dropped again.
-/

namespace GoService.Resolution

open Data Package Source

/-- The steps of a resolution that lead to another declaration. -/
structure Steps where
  decl : Package → String → SourcePlace → Resolve DataType
  fields : SourcePlace → StructLiteral → Resolve (List StructField)

section Bodies

variable (names : KnownNames) (steps : Steps)

/-! ## Types -/

/-- The type that an expression denotes. -/
def typeOf (site : Site) : TypeExpr → Resolve DataType
  | .paren _ inner => typeOf site inner
  | .pointer _ _ elem => return .pointer (← typeOf site elem)
  | .slice _ elem | .array _ _ elem => return .array (← typeOf site elem)
  | .map span key val => do
    let mark := (← structsNow).mark
    match ← typeOf site key with
    | .builtin b => return .map b (← typeOf site val)
    | other =>
      modifyStructs (·.rewind mark)
      throw (.mapKey (site.placeOf span) other)
  | .chan span .. => throw (.unsupported (site.placeOf span) (.channel (site.text span)))
  | .func span _ => throw (.unsupported (site.placeOf span) (.function (site.text span)))
  | .interface span _ elems _ =>
    if elems.isEmpty then return .wellKnown .any
    else throw (.unsupported (site.placeOf span) .methods)
  | .struct span .. =>
    throw (.unresolved (site.placeOf span) "struct\x7b...\x7d" .canonicalName)
  | .bad span _ => throw (.unresolved (site.placeOf span) (site.text span) .wellFormedType)
  | .named span qualifier name args => do
    let place := site.placeOf span
    if !args.isEmpty then throw (.unsupported place (.instantiation (site.text span)))
    match ← referentOf names site qualifier name place with
      | .type t => return t
      | .declared package name => steps.decl package name place

/-! ## Structs -/

/-- Writes a field into a list: over the one with its name if there is one, else at the end. -/
def putField (fields : List StructField) (f : StructField) : List StructField :=
  match fields with
  | [] => [f]
  | g :: gs => if g.name = f.name then f :: gs else g :: putField gs f

/-- The type below parentheses and at most one pointer, and whether there is a pointer. -/
def behindPointer (pointer : Bool) : TypeExpr → TypeExpr × Bool
  | .paren _ inner => behindPointer pointer inner
  | .pointer span star elem =>
    if pointer then (.pointer span star elem, pointer) else behindPointer true elem
  | t => (t, pointer)

/-- The tags of a field; a literal without value counts as empty. -/
def fieldTags (f : Field) : Tags :=
  match f.tag.map StringLiteral.value with
  | some (.ok text) => Tags.ofText text
  | _ => .empty

/-- The documentation of a field: above it, then beside it. -/
def fieldDoc (f : Field) : String :=
  docContent f.doc ++ docContent f.comment

/-- The field with a Go name, and with what its tag and its comment say. -/
def fieldNamed (f : Field) (name : String) (type : DataType) : StructField :=
  let tags := fieldTags f
  let doc := fieldDoc f
  ⟨name, (tags.jsonName?).getD name, type, tags, Annotations.ofText doc, isPublic name, doc⟩

/-- The name of an embedded field: that of its type, without the package. -/
def embeddedName (site : Site) (inner : TypeExpr) : String :=
  match inner with
  | .named _ _ name _ => name.name
  | t => site.text t.span

/-- The package and name at a key, split at the last dot. -/
def splitKey? (key : String) : Option (String × String) :=
  let reversed := key.toList.reverse
  match reversed.dropWhile (· != '.') with
  | _ :: package =>
    some (String.ofList package.reverse, String.ofList (reversed.takeWhile (· != '.')).reverse)
  | [] => none

/-- The declaration at a key, in a package that is loaded. -/
def knownDecl? (packages : LoadedPackages) (key : String) : Option (Site × TypeExpr) := do
  let (path, name) ← splitKey? key
  let p ← packages.get? path
  let d ← p.type? name
  return (⟨p, d.file⟩, d.spec.type)

/-- The fields of a struct whose own fields are still being resolved: its declaration is read
again. -/
def inlineUnfinished (key : String) (place : SourcePlace) : Resolve (List StructField) := do
  match knownDecl? (← get).packages key with
  | none => throw (.cyclicEmbedding place key)
  | some (site, type) =>
    match ← structLiteral? names place nameHopLimit site type with
    | none => throw (.cyclicEmbedding place key)
    | some source =>
      bracketed (·.embed key) Known.leaveEmbedding (steps.fields place source)

/-- The fields of an embedded struct that is registered. -/
def embeddedFields (key : String) (place : SourcePlace) : Resolve (List StructField) := do
  if key ∈ (← get).trail.embedding then throw (.cyclicEmbedding place key)
  match (← structsNow).get? key with
  | some s => return s.fields
  | none => inlineUnfinished names steps key place

/-- The fields that a field with names declares; a blank name declares none. -/
def namedFields (f : Field) (type : DataType) : List StructField :=
  ((f.names.map Ident.name).filter (· != "_")).map fun n => fieldNamed f n type

/-- The field that an embedded type makes, named after the type. -/
def embeddedField (site : Site) (f : Field) (type : DataType) : StructField :=
  fieldNamed f (embeddedName site (behindPointer false f.type).1) type

/-- Adds an embedded field: the fields of a struct, or a field named after the type if it is no
struct or if its tag names it. -/
def addEmbedded (site : Site) (f : Field) (out : List StructField) :
    Resolve (List StructField) := do
  let behind := behindPointer false f.type
  if (fieldTags f).jsonName?.isSome then
    return putField out (embeddedField site f (← typeOf names steps site f.type))
  match ← typeOf names steps site behind.1 with
  | .struct key =>
    let fields ← embeddedFields names steps key (site.placeOf f.span)
    return fields.foldl putField out
  | type =>
    -- no struct: the pointer taken off above belongs to the field
    return putField out (embeddedField site f (if behind.2 then .pointer type else type))

/-- Adds a field, if its tag does not leave it out: an embedded struct adds its own fields. -/
def addField (site : Site) (out : List StructField) (f : Field) : Resolve (List StructField) := do
  if (fieldTags f).isJsonSkipped then return out
  if f.embedded then addEmbedded names steps site f out
  else return (namedFields f (← typeOf names steps site f.type)).foldl putField out

/-- The fields of a struct, with those that it takes over. -/
def fieldsOf (source : StructLiteral) : Resolve (List StructField) :=
  source.fields.foldlM (addField names steps source.site) []

/-- The struct that a declaration makes, with the given fields. -/
def declaredStruct (package : Package) (name : String) (d : DeclaredType)
    (fields : List StructField) : Struct :=
  let doc := docContent d.spec.doc
  ⟨package.importPath, name, fields, Annotations.ofText doc, isPublic name, doc⟩

/-- Registers a struct: first without fields, and with them when they have resolved. -/
def structOf (package : Package) (name : String) (d : DeclaredType) (place : SourcePlace)
    (source : StructLiteral) : Resolve Unit := do
  let key := declKey package.importPath name
  let mark := (← structsNow).mark
  modifyStructs (·.enter key)
  let outer := (← get).trail.embedding
  -- what is embedded starts anew with the struct; what is being expanded does not
  let fields ←
    tryCatch
      (bracketed (·.withEmbedding [key]) (·.withEmbedding outer) (steps.fields place source))
      fun e => do
        -- the structs entered since then may mention this one, so they go with it
        modifyStructs (·.rewind mark)
        throw e
  modifyStructs (·.complete key (declaredStruct package name d fields))

/-- The type that a declaration denotes; a struct is registered on the way. -/
def declOf (package : Package) (name : String) (place : SourcePlace) : Resolve DataType := do
  let key := declKey package.importPath name
  -- an unfinished struct will do: this is where recursion through structs ends
  if (← structsNow).contains key then return .struct key
  match package.type? name with
  | none => throw (.unresolved place key .declaration)
  | some d =>
    if d.spec.typeParams.isSome then throw (.unsupported place (.generic key))
    let site : Site := ⟨package, d.file⟩
    match ← structLiteral? names place nameHopLimit site d.spec.type with
    | some source =>
      structOf steps package name d place source
      return .struct key
    | none =>
      if key ∈ (← get).trail.expanding then throw (.unsupported place (.recursive key))
      bracketed (·.expand key) Known.leaveExpansion (typeOf names steps site d.spec.type)

end Bodies

/-! ## Tying the knot -/

mutual

/-- Resolves a declared name with at most so many steps below one another. -/
def declWithin (names : KnownNames) (n : Nat) (package : Package) (name : String)
    (place : SourcePlace) : Resolve DataType :=
  match n with
  | 0 => throw (.exhausted place)
  | n + 1 =>
    declOf names ⟨declWithin names n, fieldsWithin names n⟩ package name place

/-- Works out the fields of a struct literal with at most so many steps below one another. -/
def fieldsWithin (names : KnownNames) (n : Nat) (place : SourcePlace) (source : StructLiteral) :
    Resolve (List StructField) :=
  match n with
  | 0 => throw (.exhausted place)
  | n + 1 =>
    fieldsOf names ⟨declWithin names n, fieldsWithin names n⟩ source

end

/-- The steps of a resolution, at most so many below one another. -/
def stepsWithin (names : KnownNames) (n : Nat) : Steps :=
  ⟨declWithin names n, fieldsWithin names n⟩

/-- How many steps can stand below one another when there are `n` declarations: each can be expanded
once and entered into the table once, and between two entries each can be embedded once. -/
def stepBound (n : Nat) : Nat :=
  2 * (n + 2) * (n + 2)

/-- The bound on the steps below one another for the packages at hand. -/
def boundNow : Resolve Nat :=
  return stepBound (← get).packages.weight

/-- Resolves a type expression, with as many steps as it may need. -/
def resolve (names : KnownNames) (site : Site) (type : TypeExpr) : Resolve DataType := do
  typeOf names (stepsWithin names (← boundNow)) site type

/-- The place of a declaration, or the directory of a package that has none of the name. -/
def declPlace (package : Package) (name : String) : SourcePlace :=
  match package.type? name with
  | some d => (Site.mk package d.file).placeOf d.spec.name.span
  | none => ⟨package.dir, ⟨0, 0⟩⟩

/-- Resolves a declared name, with as many steps as it may need. -/
def resolveName (names : KnownNames) (package : Package) (name : String) :
    Resolve DataType := do
  declWithin names (← boundNow) package name (declPlace package name)

end GoService.Resolution
