import GoService.Project.ImportPath
import GoService.Source.Parser.File

/-!
# The imports of a file

Which packages a file imports and by which names it refers to them. An import without a name of its
own is referred to by the name that its path suggests.
-/

namespace GoService.Package

open Source (Document)

/-- An import path that denotes no text or the empty one. -/
structure ImportFault where
  line : Nat
  literal : String
  deriving DecidableEq, Inhabited

/-- The wording of the error. -/
def ImportFault.message (e : ImportFault) : String :=
  s!"line {e.line}: invalid import path {e.literal}"

/-- How an import names its package. -/
inductive ImportNaming where
  | none
  | named (name : String)
  /-- The package is imported for its effects and has no name. -/
  | blank
  /-- The names of the package become names of the file. -/
  | dot
  deriving DecidableEq, Inhabited

/-- An imported package; `shortName` is the name that its path suggests. -/
structure Import where
  path : String
  shortName : String
  naming : ImportNaming
  line : Nat
  deriving DecidableEq, Inhabited

/-- The name by which the file refers to the package. -/
def Import.boundName? (i : Import) : Option String :=
  match i.naming with
  | .none => some i.shortName
  | .named n => some n
  | .blank | .dot => Option.none

/-- The imports of a file in order. -/
structure ImportList where
  imports : List Import
  deriving DecidableEq, Inhabited

/-- What a successful run over a list gives comes from one of its elements. -/
theorem exists_of_mapM_ok {f : α → Except ε β} {xs : List α} {ys : List β}
    (h : xs.mapM f = .ok ys) {y : β} (hy : y ∈ ys) : ∃ x ∈ xs, f x = .ok y := by
  induction xs generalizing ys with
  | nil =>
    obtain rfl := Except.ok.inj h
    simp at hy
  | cons x xs ih =>
    rw [List.mapM_cons] at h
    cases hx : f x with
    | error e => simp [hx, bind, Except.bind] at h
    | ok z =>
      cases hxs : xs.mapM f with
      | error e => simp [hx, hxs, bind, Except.bind] at h
      | ok zs =>
        simp only [hx, hxs, bind, Except.bind, pure, Except.pure, Except.ok.injEq] at h
        subst h
        rcases List.mem_cons.1 hy with rfl | hy
        · exact ⟨x, List.mem_cons_self .., hx⟩
        · obtain ⟨x', hx', hok⟩ := ih hxs hy
          exact ⟨x', List.mem_cons_of_mem _ hx', hok⟩

namespace ImportList

/-- The import that an entry of a declaration stands for. -/
def ofSpec (file : Document) (s : Source.ImportSpec) : Except ImportFault Import :=
  let line := file.lineOf s.path.span
  let naming := match s.name with
    | none => .none
    | some (.blank _) => .blank
    | some (.dot _) => .dot
    | some (.name ident) => .named ident.name
  match s.path.value with
  | .ok path =>
    if path.isEmpty then .error ⟨line, s.path.text⟩
    else .ok ⟨path, Project.suggestedName path, naming, line⟩
  | .error _ => .error ⟨line, s.path.text⟩

/-- The import specs of a file in source order, from all its import declarations. -/
def specs (file : Document) : List Source.ImportSpec :=
  file.file.decls.flatMap fun
    | .gen d => d.specs.filterMap fun
      | .importSpec s => some s
      | _ => none
    | _ => []

/-- The imports of a file, unless the path of one cannot be read. -/
def ofFile (file : Document) : Except ImportFault ImportList := do
  return ⟨← (specs file).mapM (ofSpec file)⟩

/-- The paths that can be read among those that a file imports. -/
def mentioned (file : Document) : List String :=
  (specs file).filterMap (·.path.value.toOption)

/-- An import has the path that its spec writes. -/
theorem path_of_ofSpec {file : Document} {s : Source.ImportSpec} {i : Import}
    (h : ofSpec file s = .ok i) : s.path.value.toOption = some i.path := by
  simp only [ofSpec] at h
  split at h
  · next path hpath =>
    split at h
    · simp at h
    · obtain rfl := Except.ok.inj h
      simp [hpath, Except.toOption]
  · simp at h

/-- The path of every import of a file is one that the file mentions. -/
theorem path_mem_mentioned {file : Document} {t : ImportList} (h : ofFile file = .ok t)
    {i : Import} (hi : i ∈ t.imports) : i.path ∈ mentioned file := by
  cases hss : (specs file).mapM (ofSpec file) with
  | error e => simp [ofFile, hss, bind, Except.bind] at h
  | ok is =>
    simp only [ofFile, hss, bind, Except.bind, pure, Except.pure, Except.ok.injEq] at h
    subst h
    obtain ⟨s, hs, hok⟩ := exists_of_mapM_ok hss hi
    exact List.mem_filterMap.2 ⟨s, hs, path_of_ofSpec hok⟩

/-- The first import that binds a name. -/
def find? (t : ImportList) (name : String) : Option Import :=
  t.imports.find? fun i => i.boundName? == some name

/-- The first import whose names become names of the file. -/
def openImport? (t : ImportList) : Option Import :=
  t.imports.find? (·.naming == .dot)

/-- The imports without a name of their own whose path does not suggest `name`; one of them may
still have that name. -/
def unnamedExcept (t : ImportList) (name : String) : List Import :=
  t.imports.filter fun i => i.naming == .none && i.shortName != name

end ImportList

end GoService.Package
