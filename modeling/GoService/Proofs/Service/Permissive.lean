import GoService.Proofs.Resolution.Closure
import GoService.Proofs.Resolution.History
import GoService.Proofs.Resolution.Independence
import GoService.Proofs.Resolution.Replay
import GoService.Proofs.Service.Order

/-!
# Permissive scans

A permissive scan is a strict one of the functions that it does not drop: leaving the others out
from the start gives the same functions and the same table (`strict_scan_without_dropped`). A
function that is dropped leaves the table as it was, though it may have loaded packages, so the two
scans go through states that are alike; and what a scan does with one function does not depend on
which others the package has (`functionOf_bare`).
-/

namespace GoService.Service

open Data Package Resolution
open Project (Mode)

/-! ## Scans in states that are alike -/

/-- Two states of scans that know the same; the given packages are held in both. -/
structure Abreast (packages : List Package) (k k₂ : Known) : Prop where
  alike : k.Alike k₂
  backed : k₂.Backed
  held : ∀ p ∈ packages, k.packages.Holds p
  held₂ : ∀ p ∈ packages, k₂.packages.Holds p

/-- Two runs stay abreast when both grow and end alike. -/
lemma Abreast.grows {packages : List Package} {k k₂ k' k₂' : Known} (h : Abreast packages k k₂)
    (hk : k.Grows k') (hk₂ : k₂.Grows k₂') (halike : k'.Alike k₂') : Abreast packages k' k₂' :=
  ⟨halike, h.backed.grows hk₂, fun p hp => hk.packages.holds (h.held p hp),
    fun p hp => hk₂.packages.holds (h.held₂ p hp)⟩

/-- A computation that only adds to what is known, and that does the same where the same is known if
it succeeds. -/
structure Repeats (packages : List Package) (x : ExceptT ε (StateM Known) α) : Prop where
  grows : ∀ k : Known, k.Grows (outcome x k).2
  again : ∀ {k k₂ k' a}, Abreast packages k k₂ → outcome x k = (.ok a, k') →
    ∃ k₂', outcome x k₂ = (.ok a, k₂') ∧ k'.Alike k₂'

namespace Repeats

variable {packages : List Package} {ε ε' α β : Type}

/-- A value is repeated. -/
lemma pure (a : α) : Repeats packages (pure a : ExceptT ε (StateM Known) α) := by
  refine ⟨fun k => .refl k, fun {k k₂ k' b} h ho => ?_⟩
  cases ho
  exact ⟨k₂, rfl, h.alike⟩

/-- An error has no value to be repeated. -/
lemma throw (e : ε) : Repeats packages (throw e : ExceptT ε (StateM Known) α) := by
  refine ⟨fun k => .refl k, fun {k k₂ k' a} h ho => ?_⟩
  cases ho

/-- What is settled without the state is repeated. -/
lemma liftExcept (r : Except ε α) :
    Repeats packages (liftExcept r : ExceptT ε (StateM Known) α) := by
  cases r with
  | ok a => exact pure a
  | error e => exact throw e

/-- Where a computation succeeds again, the states after it are abreast too. -/
lemma abreast {x : ExceptT ε (StateM Known) α} (hx : Repeats packages x) {k k₂ k' : Known} {a : α}
    (h : Abreast packages k k₂) (ho : outcome x k = (.ok a, k')) :
    ∃ k₂', outcome x k₂ = (.ok a, k₂') ∧ Abreast packages k' k₂' := by
  obtain ⟨k₂', ho₂, hk'⟩ := hx.again h ho
  have hgrows := hx.grows k
  have hgrows₂ := hx.grows k₂
  rw [ho] at hgrows
  rw [ho₂] at hgrows₂
  exact ⟨k₂', ho₂, h.grows hgrows hgrows₂ hk'⟩

/-- Computations one after another are repeated if each of them is. -/
lemma bind {x : ExceptT ε (StateM Known) α} {f : α → ExceptT ε (StateM Known) β}
    (hx : Repeats packages x) (hf : ∀ a, Repeats packages (f a)) : Repeats packages (x >>= f) := by
  refine ⟨fun k => ?_, fun {k k₂ k' b} h ho => ?_⟩
  · have hgrows := hx.grows k
    rw [outcome_bind]
    obtain ⟨a, k₁, ho⟩ | ⟨e, k₁, ho⟩ := outcome_cases x k
    · rw [ho] at hgrows ⊢
      exact hgrows.trans ((hf a).grows k₁)
    · rw [ho] at hgrows ⊢
      exact hgrows
  · obtain ⟨a, k₁, hox, hof⟩ := exists_of_outcome_bind ho
    obtain ⟨k₂₁, hox₂, h₁⟩ := hx.abreast h hox
    obtain ⟨k₂', hof₂, hk'⟩ := (hf a).again h₁ hof
    exact ⟨k₂', (outcome_bind_of_ok hox₂).trans hof₂, hk'⟩

/-- A computation whose value is not looked at is repeated. -/
lemma discard {x : ExceptT ε (StateM Known) α} (hx : Repeats packages x) :
    Repeats packages (Functor.discard x) :=
  bind hx fun _ => pure _

/-- An error that is put in another form leaves what is repeated. -/
lemma adapt {x : ExceptT ε (StateM Known) α} (f : ε → ε') (hx : Repeats packages x) :
    Repeats packages (ExceptT.adapt f x) := by
  refine ⟨hx.grows, fun {k k₂ k' a} h ho => ?_⟩
  obtain ⟨k₂', hox₂, hk'⟩ := hx.again h (outcome_adapt_eq_ok.1 ho)
  exact ⟨k₂', outcome_adapt_eq_ok.2 hox₂, hk'⟩

end Repeats

section Functions

variable (names : KnownNames) {packages : List Package} {p : Package} (hp : p ∈ packages)
  {file : SourceUnit} (hfile : file ∈ p.files)
include hp hfile

/-- The resolution of a type is repeated. -/
lemma resolve_repeats (type : Source.TypeExpr) :
    Repeats packages (resolve names ⟨p, file⟩ type) := by
  refine ⟨fun k => ?_, fun {k k₂ k' t} h ho => ?_⟩
  · rw [outcome_resolve]
    exact (typeOf_derives (stepsWithin_derive names _) _ type).grows k
  · exact resolve_replay ho h.alike h.backed (h.held₂ p hp) hfile

/-- An operand of a wanted type is repeated. -/
lemma operandOf_repeats (wanted : DataType → Bool) (fault : String → FunctionError) (s : Operand) :
    Repeats packages (operandOf names ⟨p, file⟩ wanted fault s) := by
  refine .bind (.adapt _ (resolve_repeats names hp hfile s.type)) fun t => ?_
  by_cases hw : wanted t
  · rw [if_pos hw]
    exact .pure _
  · rw [if_neg hw]
    exact .throw _

/-- An operand that may carry a struct is repeated. -/
lemma carriedOf_repeats (fault : String → FunctionError) (s : Option Operand) :
    Repeats packages (carriedOf names ⟨p, file⟩ fault s) := by
  cases s with
  | none => exact .pure _
  | some s => exact .bind (operandOf_repeats names hp hfile canCarry fault s) fun _ => .pure _

/-- The function of a declaration is repeated. -/
lemma functionOf_repeats (d : Source.FuncDecl) :
    Repeats packages (functionOf names ⟨p, file⟩ d) := by
  rw [functionOf]
  refine .bind (.liftExcept _) fun shape => ?_
  refine .bind (.discard (operandOf_repeats names hp hfile _ _ shape.context)) fun _ => ?_
  refine .bind (carriedOf_repeats names hp hfile _ shape.param) fun param => ?_
  refine .bind (carriedOf_repeats names hp hfile _ shape.result) fun result => ?_
  exact .bind (.discard (operandOf_repeats names hp hfile _ _ shape.error)) fun _ => .pure _

end Functions

/-! ## Functions that a package may lack -/

section

variable (names : KnownNames) (mode : Mode)

/-- The service function of a declaration does not depend on which others the package has. -/
lemma functionOf_bare (site : Site) (d : Source.FuncDecl) :
    functionOf names site.bare d = functionOf names site d := by
  have hoperand : operandOf names site.bare = operandOf names site := by
    funext wanted fault s
    rw [operandOf, operandOf, operandType, operandType, resolve_bare]
  have hcarried : carriedOf names site.bare = carriedOf names site := by
    funext fault s
    cases s with
    | none => rfl
    | some s => rw [carriedOf, carriedOf, hoperand]
  rw [functionOf, functionOf, hoperand, hcarried]
  rfl

/-- A declaration is scanned alike in the package without its functions. -/
lemma scanFunction_bare (p : Package) (f : DeclaredFunc) :
    scanFunction names mode p.bare f = scanFunction names mode p f := by
  have hsite : Site.mk p.bare f.file = Site.bare ⟨p, f.file⟩ := rfl
  rw [scanFunction, scanFunction, hsite, functionOf_bare]

/-- Declarations are scanned alike in the package without its functions. -/
lemma functionsAmong_bare (p : Package) (fs : List DeclaredFunc) :
    functionsAmong names mode p.bare fs = functionsAmong names mode p fs := by
  have hscan : scanFunction names mode p.bare = scanFunction names mode p :=
    funext (scanFunction_bare names mode p)
  rw [functionsAmong, functionsAmong, hscan]

end

end GoService.Service

namespace GoService.Package

/-- The package with some of its functions. -/
def withFuncs (p : Package) (fs : List DeclaredFunc) (h : fs.Sublist p.funcs) : Package :=
  { p with
    funcs := fs
    placed := fun f hf => p.placed f (h.subset hf)
    ordered := p.ordered.sublist h }

section

variable (p : Package) (fs : List DeclaredFunc) (h : fs.Sublist p.funcs)

/-- A package with other functions has its import path. -/
@[simp]
lemma withFuncs_importPath : (p.withFuncs fs h).importPath = p.importPath := rfl

/-- A package with other functions has these. -/
@[simp]
lemma withFuncs_funcs : (p.withFuncs fs h).funcs = fs := rfl

/-- Packages that differ in their functions are the same without them. -/
@[simp]
lemma withFuncs_bare : (p.withFuncs fs h).bare = p.bare := rfl

end

end GoService.Package

namespace GoService.Service

open Data Package Resolution
open Project (Mode)

/-- Declarations are scanned alike in a package with other functions. -/
lemma functionsAmong_withFuncs (names : KnownNames) (mode : Mode) (p : Package)
    (fs : List DeclaredFunc) (h : fs.Sublist p.funcs) :
    functionsAmong names mode (p.withFuncs fs h) = functionsAmong names mode p := by
  funext gs
  rw [← functionsAmong_bare, withFuncs_bare, functionsAmong_bare]

/-! ## Functions that are dropped -/

section

variable (names : KnownNames)

/-- A permissive scan drops the function: it is annotated, and nothing comes of it. -/
def drops (p : Package) (f : DeclaredFunc) (k : Known) : Bool :=
  isAnnotated f.decl && (outcome (scanFunction names .permissive p f) k).1 matches .ok none

/-- The functions that a permissive scan does not drop, in a state that each function may change. -/
def survivors (p : Package) : List DeclaredFunc → Known → List DeclaredFunc
  | [], _ => []
  | f :: fs, k =>
    let rest := survivors p fs (outcome (scanFunction names .permissive p f) k).2
    if drops names p f k then rest else f :: rest

/-- What survives is part of what was scanned. -/
lemma survivors_sublist (p : Package) (fs : List DeclaredFunc) (k : Known) :
    (survivors names p fs k).Sublist fs := by
  induction fs generalizing k with
  | nil => exact .refl _
  | cons f fs ih =>
    rw [survivors]
    split
    · exact (ih _).cons f
    · exact (ih _).cons_cons f

/-- The packages without the functions that a permissive scan drops. -/
def withoutDropped : List Package → Known → List Package
  | [], _ => []
  | p :: ps, k =>
    p.withFuncs (survivors names p p.funcs k) (survivors_sublist names p p.funcs k) ::
      withoutDropped ps (outcome (packageFunctions names .permissive p) k).2

end

section Scans

variable {names : KnownNames} {packages : List Package} {p : Package} {f : DeclaredFunc}
variable {k k₂ k' : Known} {fns : List Function}

/-- A function that a permissive scan drops leaves the states abreast, and any other one is scanned
alike in a strict scan. -/
lemma scanFunction_abreast {o : Option Function} (hp : p ∈ packages) (hfile : f.file ∈ p.files)
    (h : Abreast packages k k₂)
    (ho : outcome (scanFunction names .permissive p f) k = (.ok o, k')) :
    drops names p f k = true ∧ o = none ∧ Abreast packages k' k₂ ∨
      drops names p f k = false ∧
        ∃ k₂', outcome (scanFunction names .strict p f) k₂ = (.ok o, k₂') ∧
          Abreast packages k' k₂' := by
  have hdrops : drops names p f k = (isAnnotated f.decl && o.isNone) := by
    rw [drops, ho]
    cases o <;> rfl
  rw [hdrops]
  by_cases hannotated : isAnnotated f.decl
  · have hrepeats := functionOf_repeats names hp hfile f.decl
    rw [outcome_scanFunction_of_annotated hannotated] at ho
    obtain ⟨fn, k₁, hfn⟩ | ⟨e, k₁, hfn⟩ := outcome_cases (functionOf names ⟨p, f.file⟩ f.decl) k
    · rw [hfn] at ho
      cases ho
      obtain ⟨k₂', hfn₂, h'⟩ := hrepeats.abreast h hfn
      refine .inr ⟨by simp, k₂', ?_, h'⟩
      rw [outcome_scanFunction_of_annotated hannotated, hfn₂]
    · have hgrows := hrepeats.grows k
      rw [hfn] at ho hgrows
      by_cases hdrop : e.isDropped .permissive
      · simp only [hdrop, if_true] at ho
        cases ho
        -- all that is left of the function are the packages that it has loaded
        have hl := hgrows.rewind
        exact .inl ⟨by simp [hannotated], rfl,
          h.grows (.of_loads hl) (.refl _) (h.alike.loads hl (.refl _))⟩
      · simp only [hdrop] at ho
        cases ho
  · rw [outcome_scanFunction_of_not_annotated hannotated] at ho
    cases ho
    exact .inr ⟨by simp [hannotated], k₂, outcome_scanFunction_of_not_annotated hannotated, h⟩

/-- A strict scan of the functions that a permissive one does not drop gives the same functions. -/
lemma functionsAmong_survivors (hp : p ∈ packages) {fs : List DeclaredFunc}
    (hfs : ∀ f ∈ fs, f.file ∈ p.files) (h : Abreast packages k k₂)
    (ho : outcome (functionsAmong names .permissive p fs) k = (.ok fns, k')) :
    ∃ k₂', outcome (functionsAmong names .strict p (survivors names p fs k)) k₂ = (.ok fns, k₂') ∧
      Abreast packages k' k₂' := by
  -- after each function the two scans know the same, though the strict one may have skipped it
  induction fs generalizing k k₂ fns with
  | nil =>
    rw [functionsAmong_nil] at ho
    cases ho
    refine ⟨k₂, ?_, h⟩
    rw [survivors, functionsAmong_nil]
    rfl
  | cons f fs ih =>
    rw [functionsAmong_cons] at ho
    obtain ⟨o, k₁, hscan, ho⟩ := exists_of_outcome_bind ho
    obtain ⟨fns₁, k₃, hrest, hret⟩ := exists_of_outcome_bind ho
    cases hret
    have hfs' : ∀ f ∈ fs, f.file ∈ p.files := fun f hf => hfs f (List.mem_cons_of_mem _ hf)
    rcases scanFunction_abreast hp (hfs f (List.mem_cons_self ..)) h hscan with
      ⟨hdrops, rfl, h₁⟩ | ⟨hdrops, k₂₁, hscan₂, h₁⟩
    · obtain ⟨k₂', hrest₂, h'⟩ := ih hfs' h₁ hrest
      refine ⟨k₂', ?_, h'⟩
      simp only [survivors, hdrops, if_true, hscan]
      exact hrest₂
    · obtain ⟨k₂', hrest₂, h'⟩ := ih hfs' h₁ hrest
      refine ⟨k₂', ?_, h'⟩
      simp only [survivors, hdrops, Bool.false_eq_true, if_false, hscan]
      rw [functionsAmong_cons, outcome_bind_of_ok hscan₂, outcome_bind_of_ok hrest₂]
      rfl

/-- One package after another. -/
lemma scanPackages_withoutDropped {ps : List Package} (hps : ps ⊆ packages)
    (h : Abreast packages k k₂)
    (ho : outcome (Project.scanPackages names .permissive ps) k = (.ok fns, k')) :
    ∃ k₂', outcome (Project.scanPackages names .strict (withoutDropped names ps k)) k₂ =
      (.ok fns, k₂') ∧ Abreast packages k' k₂' := by
  induction ps generalizing k k₂ fns with
  | nil =>
    rw [Project.scanPackages_nil] at ho
    cases ho
    refine ⟨k₂, ?_, h⟩
    rw [withoutDropped, Project.scanPackages_nil]
    rfl
  | cons p ps ih =>
    rw [Project.scanPackages_cons] at ho
    obtain ⟨fns₁, k₁, hscan, ho⟩ := exists_of_outcome_bind ho
    obtain ⟨fns₂, k₃, hrest, hret⟩ := exists_of_outcome_bind ho
    cases hret
    obtain ⟨hp, hps⟩ := List.cons_subset.1 hps
    rw [outcome_adapt_eq_ok] at hscan
    obtain ⟨k₂₁, hscan₂, h₁⟩ := functionsAmong_survivors hp (fun f => p.file_mem) h hscan
    obtain ⟨k₂', hrest₂, h'⟩ := ih hps h₁ hrest
    refine ⟨k₂', ?_, h'⟩
    have hk₁ : (outcome (packageFunctions names .permissive p) k).2 = k₁ := by
      rw [packageFunctions_eq, hscan]
    rw [withoutDropped, hk₁, Project.scanPackages_cons, functionsAmong_withFuncs,
      withFuncs_importPath, withFuncs_funcs,
      outcome_bind_of_ok (outcome_adapt_eq_ok.2 hscan₂), outcome_bind_of_ok hrest₂]
    rfl

end Scans

/-- A permissive scan that succeeds is the strict scan of the packages without the functions that it
drops: that one succeeds with the same functions in the same order, and leaves the same structs in
the same order. The scanned packages are among the loaded ones, as those of a project are. -/
theorem strict_scan_without_dropped (names : KnownNames) (packages : List Package) (k k' : Known)
    (fns : List Function) (hclosed : k.structs.Closed)
    (hheld : ∀ p ∈ packages, k.packages.Holds p)
    (ho : outcome (Project.scanPackages names .permissive packages) k = (.ok fns, k')) :
    ∃ k₂', outcome (Project.scanPackages names .strict (withoutDropped names packages k)) k =
      (.ok fns, k₂') ∧ k₂'.structs = k'.structs := by
  have habreast : Abreast packages k k :=
    ⟨.refl k, .of_finished fun _ hkey => hclosed.get?_of_mem hkey, hheld, hheld⟩
  obtain ⟨k₂', ho₂, h⟩ := scanPackages_withoutDropped (List.Subset.refl _) habreast ho
  exact ⟨k₂', ho₂, h.alike.structs⟩

/-! ## A function dropped after its parameter is resolved -/

namespace Dropping

open Source

/-- The name of the struct. -/
def structName : Ident := ⟨⟨"In", by decide⟩, default⟩

/-- A parameter or a result without a name. -/
def operand (qualifier : Option Ident) (name : Ident) : Field :=
  ⟨default, [], none, .named default qualifier name [], none, false, none, none⟩

/-- The first parameter of every function. -/
def context : Field :=
  operand (some ⟨⟨"rt", by decide⟩, default⟩) ⟨⟨"Context", by decide⟩, default⟩

/-- The comment that annotates a function. -/
def annotation : CommentGroup :=
  ⟨⟨.line, default, "// @fn", 0⟩, [], false, 0⟩

/-- An annotated function that takes a context and the struct. -/
def function (name : Ident) (error : Field) : FuncDecl where
  span := default
  doc := some annotation
  keyword := default
  recv := none
  name := name
  typeParams := none
  signature := ⟨default, ⟨default, [context, operand none structName], default⟩,
    some (.params ⟨default, [error], default⟩)⟩
  body := none

/-- A function that mentions a type which is not there. -/
def failing : FuncDecl :=
  function ⟨⟨"F", by decide⟩, default⟩ (operand none ⟨⟨"Missing", by decide⟩, default⟩)

/-- A function that can be served. -/
def sound : FuncDecl :=
  function ⟨⟨"G", by decide⟩, default⟩ (operand none ⟨⟨"error", by decide⟩, default⟩)

/-- The file with the struct and both functions. -/
def file : SourceUnit where
  path := ⟨"d/d.go"⟩
  parsed := ⟨"", ⟨[0]⟩, ⟨default, ⟨⟨"d", by decide⟩, default⟩,
    [.gen ⟨default, none, .types, default, none, [.typeSpec ⟨none, structName, none, none,
      .struct default default [] default⟩], none⟩, .func failing, .func sound], [], none⟩, []⟩
  imports := ⟨[⟨"rt", "rt", .none, 0⟩]⟩

/-- The package with the file. -/
def package : Package :=
  ofFiles "m/d" "d" ⟨"d"⟩ "m" [file]

/-- A source without packages. -/
def source : PackageSource where
  load path := .error (.load (.noSources path ⟨path⟩))
  paths := []
  names := []
  importPath_of_load h := by cases h
  names_of_load h := by cases h
  paths_of_load h := by cases h

/-- The state with the package at hand. -/
def start : Known :=
  .start ((LoadedPackages.ofSource source).insert package)

/-- What the scan makes of the function that can be served. -/
def served : Function where
  service := ""
  name := "G"
  package := "m/d"
  file := ⟨"d/d.go"⟩
  line := 1
  param := some ⟨none, .struct "m/d.In"⟩
  result := none
  annotations := Annotations.ofText "@fn\n"
  doc := "@fn\n"

/-- The struct that the first function resolves before it fails is resolved again for the second. -/
theorem scan_without_failing :
    survivors ⟨"rt"⟩ package package.funcs start = [⟨0, file, sound⟩] ∧
    ∃ k', outcome (Project.scanPackages ⟨"rt"⟩ .permissive [package]) start = (.ok [served], k') ∧
      k'.structs.keys = ["m/d.In"] ∧
      ∃ k₂', outcome (Project.scanPackages ⟨"rt"⟩ .strict (withoutDropped ⟨"rt"⟩ [package] start))
        start = (.ok [served], k₂') ∧ k₂'.structs = k'.structs := by
  have hscan : outcome (Project.scanPackages ⟨"rt"⟩ .permissive [package]) start =
      (.ok [served], (outcome (Project.scanPackages ⟨"rt"⟩ .permissive [package]) start).2) := by
    have hfns : (outcome (Project.scanPackages ⟨"rt"⟩ .permissive [package]) start).1 =
      .ok [served] := rfl
    exact Prod.ext hfns rfl
  have hheld : ∀ p ∈ [package], start.packages.Holds p := fun p hp => by
    obtain rfl := List.mem_singleton.1 hp
    rfl
  exact ⟨rfl, _, hscan, rfl,
    strict_scan_without_dropped ⟨"rt"⟩ [package] start _ _ StructTable.Closed.empty hheld hscan⟩

end Dropping

end GoService.Service
