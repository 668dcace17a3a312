import GoService.Proofs.Resolution.Descent
import GoService.Proofs.Resolution.Faithful
import GoService.Proofs.Source.Distant
import GoService.Proofs.Source.SpelledFiles
import GoService.Run

/-!
# Well-formed types

Where no type can be read the tree of a source keeps a placeholder, and a resolution that comes to
one ends in an error. A source that is read without a report has no placeholder, and packages are
loaded from such sources only, so no resolution in loaded packages ends in this error
(`clean_sources_well_formed`).

From a type a resolution goes on with parts of it and with types that are declared in packages at
hand: `Asks.intact` is one step of this, and holds whatever is in the table and on the way.
-/

namespace GoService.Source

/-! ## Types without placeholders -/

namespace SpanTree

/-- A place is one of those in a tree. -/
inductive Within : SpanTree → SpanTree → Prop
  | refl : Within t t
  | part (hs : s ∈ t.parts) (h : Within u s) : Within u t

variable {P : SpanTree → Prop} {s t : SpanTree}

/-- What holds everywhere in a tree holds everywhere within each of its parts. -/
lemma Everywhere.within (h : t.Everywhere P) (hs : s.Within t) : s.Everywhere P := by
  induction hs with
  | refl => exact h
  | part hs _ ih => exact ih (h.part hs)

end SpanTree

/-- A type in which no placeholder stands. -/
def TypeExpr.Intact (t : TypeExpr) : Prop :=
  t.spanTree.Everywhere SpanTree.IsIntact

/-- The places of a type are among those of a file. -/
def TypeExpr.WrittenIn (t : TypeExpr) (f : SourceFile) : Prop :=
  ∃ s ∈ f.spanTrees, t.spanTree.Within s

namespace TypeExpr.Intact

variable {span : Span} {elem : TypeExpr}

/-- A placeholder is not intact. -/
lemma not_bad {place : Span} : ¬ (TypeExpr.bad span place).Intact := by
  intro h
  rw [TypeExpr.Intact, TypeExpr.spanTree] at h
  exact (h.part List.mem_cons_self).here

/-- A type in intact parentheses is intact. -/
lemma paren (h : (TypeExpr.paren span elem).Intact) : elem.Intact := by
  rw [TypeExpr.Intact, TypeExpr.spanTree] at h
  exact h.part List.mem_cons_self

/-- The target of an intact pointer is intact. -/
lemma pointer {star : Span} (h : (TypeExpr.pointer span star elem).Intact) : elem.Intact := by
  rw [TypeExpr.Intact, TypeExpr.spanTree] at h
  exact h.part (List.mem_cons_of_mem _ List.mem_cons_self)

/-- The elements of an intact slice are intact. -/
lemma slice (h : (TypeExpr.slice span elem).Intact) : elem.Intact := by
  rw [TypeExpr.Intact, TypeExpr.spanTree] at h
  exact h.part List.mem_cons_self

/-- The elements of an intact array are intact. -/
lemma array {len : Span} (h : (TypeExpr.array span len elem).Intact) : elem.Intact := by
  rw [TypeExpr.Intact, TypeExpr.spanTree] at h
  exact h.part (List.mem_cons_of_mem _ List.mem_cons_self)

/-- The keys and values of an intact map are intact. -/
lemma map {key : TypeExpr} (h : (TypeExpr.map span key elem).Intact) :
    key.Intact ∧ elem.Intact := by
  rw [TypeExpr.Intact, TypeExpr.spanTree] at h
  exact ⟨h.part List.mem_cons_self, h.part (List.mem_cons_of_mem _ List.mem_cons_self)⟩

/-- The fields of an intact struct are intact. -/
lemma field {lBrace rBrace : Span} {fields : List Field}
    (h : (TypeExpr.struct span lBrace fields rBrace).Intact) {f : Field} (hf : f ∈ fields) :
    f.type.Intact := by
  rw [TypeExpr.Intact, TypeExpr.spanTree, Field.spanTrees_eq] at h
  have hfield : f.spanTree.Everywhere SpanTree.IsIntact :=
    h.part (List.mem_cons_of_mem _ (List.mem_append_left _ (List.mem_map_of_mem hf)))
  cases f
  rw [Field.spanTree] at hfield
  exact hfield.part (List.mem_append_right _ List.mem_cons_self)

end TypeExpr.Intact

/-- A type in a source that is read without a report has no placeholder. -/
lemma TypeExpr.WrittenIn.intact {source : String} (h : (parse source).isClean) {type : TypeExpr}
    (htype : type.WrittenIn (parse source).file.file) : type.Intact := by
  obtain ⟨t, ht, hwithin⟩ := htype
  exact (intact_of_isClean h t ht).within hwithin

/-- A declaration in a source that is read without a report is no placeholder. -/
lemma bad_notMem_decls {source : String} (h : (parse source).isClean) (span : Span) :
    Decl.bad span ∉ (parse source).file.file.decls := by
  intro hmem
  have hplace : (Decl.bad span).spanTree ∈ (parse source).file.file.spanTrees :=
    List.mem_cons_of_mem _ (List.mem_cons_of_mem _ (List.mem_map_of_mem hmem))
  exact (intact_of_isClean h _ hplace).here

end GoService.Source

namespace GoService.Package

open Source (TypeSpec Document)
open Project (FileTree FilePath Layout)

/-! ## Loaded packages -/

/-- The package was loaded from files. -/
def IsLoaded (p : Package) : Prop :=
  ∃ files importPath dir module paths, load files importPath dir module paths = .ok p

/-- Whatever can be had was loaded from files. -/
def Catalog.AllLoaded (c : Catalog) : Prop :=
  ∀ path p, c path = .ok p → IsLoaded p

/-- Only sources without faults are read. -/
lemma SourceUnit.clean_of_read {files : FileTree} {path : FilePath} {f : SourceUnit}
    (h : SourceUnit.read files path = .ok (some f)) :
    ∃ text, (Source.parse text).isClean ∧ f.parsed = (Source.parse text).file := by
  rw [SourceUnit.read] at h
  split at h
  · cases h
  · next text _ =>
    split at h
    · cases h
    · dsimp only at h
      split at h
      · cases h
      · next hclean =>
        split at h
        · cases h
        · cases h
          exact ⟨text, by rw [Source.Parsed.isClean, hclean]; rfl, rfl⟩

/-- The types that a file declares are written in it. -/
lemma writtenIn_of_mem_declaredTypes {file : Document} {s : TypeSpec}
    (h : s ∈ declaredTypes file) : s.type.WrittenIn file.file := by
  obtain ⟨d, hd, hs⟩ := List.mem_flatMap.1 h
  refine ⟨d.spanTree, List.mem_cons_of_mem _ (List.mem_cons_of_mem _ (List.mem_map_of_mem hd)), ?_⟩
  cases d with
  | gen d =>
    obtain ⟨spec, hspec, hs⟩ := List.mem_filterMap.1 hs
    cases spec with
    | typeSpec s' =>
      cases hs
      have htype : s.type.spanTree ∈ (Source.Spec.typeSpec s).spanTrees :=
        List.mem_cons_of_mem _ (List.mem_append_right _ (List.mem_singleton_self _))
      have hplace : s.type.spanTree ∈ d.specs.flatMap Source.Spec.spanTrees :=
        List.mem_flatMap_of_mem hspec htype
      exact .part (List.mem_cons_of_mem _ (List.mem_append_left _ (List.mem_append_right _ hplace)))
        .refl
    | _ => cases hs
  | _ => cases hs

namespace IsLoaded

variable {p : Package}

/-- A loaded package is made up of files whose sources are read without a report. -/
lemma exists_units (h : IsLoaded p) : ∃ importPath name dir module units,
    p = ofFiles importPath name dir module units ∧
      ∀ f ∈ units, ∃ text, (Source.parse text).isClean ∧ f.parsed = (Source.parse text).file := by
  obtain ⟨files, importPath, dir, module, paths, h⟩ := h
  obtain ⟨name, units, rfl, hunits⟩ := eq_ofFiles_of_load h
  refine ⟨importPath, name, dir, module, units, rfl, fun f hf => ?_⟩
  obtain ⟨path, hread⟩ := hunits f hf
  exact SourceUnit.clean_of_read hread

/-- A type in a file of a loaded package has no placeholder. -/
lemma intact (h : IsLoaded p) {f : SourceUnit} (hf : f ∈ p.files) {type : Source.TypeExpr}
    (htype : type.WrittenIn f.parsed.file) : type.Intact := by
  obtain ⟨importPath, name, dir, module, units, rfl, hunits⟩ := h.exists_units
  obtain ⟨text, hclean, hparsed⟩ := hunits f hf
  rw [hparsed] at htype
  exact htype.intact hclean

/-- A type of a loaded package is written in the file that is kept with it. -/
lemma writtenIn_type (h : IsLoaded p) {x : String} {d : DeclaredType} (hd : p.type? x = some d) :
    d.spec.type.WrittenIn d.file.parsed.file := by
  obtain ⟨importPath, name, dir, module, units, rfl, -⟩ := h.exists_units
  obtain ⟨-, -, hspec⟩ := mem_typesOf (Dict.mem_entries_ofEntries (Dict.mem_of_get? hd))
  exact writtenIn_of_mem_declaredTypes hspec

/-- The types of a loaded package are intact. -/
lemma intact_type (h : IsLoaded p) {x : String} {d : DeclaredType} (hd : p.type? x = some d) :
    d.spec.type.Intact :=
  h.intact (p.filed _ (Dict.mem_of_get? hd)) (h.writtenIn_type hd)

/-- What is loaded from files is a loaded package. -/
lemma of_loadFrom {files : FileTree} {layout : Layout} {path : String}
    (h : PackageSource.loadFrom files layout path = .ok p) : IsLoaded p := by
  rw [PackageSource.loadFrom] at h
  split at h
  · cases h
  · split at h
    · cases h
    · split at h
      · cases h
      · next hload =>
        cases h
        exact ⟨_, _, _, _, _, hload⟩

end IsLoaded

/-- Remembering a loaded package leaves only loaded ones to be had. -/
lemma Catalog.AllLoaded.insert {s : LoadedPackages} (hs : s.catalog.AllLoaded) {p : Package}
    (hp : IsLoaded p) : (s.insert p).catalog.AllLoaded := by
  intro path q hq
  rw [LoadedPackages.catalog_insert] at hq
  split at hq
  · cases hq
    exact hp
  · exact hs path q hq

/-- The packages of a project are loaded ones. -/
lemma allLoaded_ofFiles (files : FileTree) (layout : Layout) :
    (LoadedPackages.ofSource (.ofFiles files layout)).catalog.AllLoaded := by
  rw [LoadedPackages.catalog_ofSource]
  exact fun path p hp => .of_loadFrom hp

/-- The packages in a directory of a project are loaded ones. -/
lemma isLoaded_of_mem_packagesIn {files : FileTree} {dir : FilePath} {manifest : Project.Manifest}
    {packages : List Package} (h : Project.packagesIn files dir manifest = .ok packages)
    {p : Package} (hp : p ∈ packages) : IsLoaded p := by
  rw [Project.packagesIn] at h
  cases htree : Project.packageTree files dir manifest.name with
  | error e =>
    rw [htree] at h
    cases h
  | ok tree =>
    rw [htree] at h
    obtain ⟨node, -, hload⟩ := exists_of_mapM_ok (id h) hp
    cases hnode : load files node.importPath node.dir manifest.name node.files with
    | error e =>
      rw [hnode] at hload
      cases hload
    | ok q =>
      rw [hnode] at hload
      cases hload
      exact ⟨_, _, _, _, _, hnode⟩

/-- In a run over a project everything that can be had was loaded: the packages of the project, and
those to which types lead. -/
lemma allLoaded_project {files : FileTree} {dir : FilePath} {manifest : Project.Manifest}
    {packages : List Package} (h : Project.packagesIn files dir manifest = .ok packages)
    (layout : Layout) :
    (packages.foldl LoadedPackages.insert
      (.ofSource (.ofFiles files layout))).catalog.AllLoaded := by
  have hpackages : ∀ p ∈ packages, IsLoaded p := fun _ => isLoaded_of_mem_packagesIn h
  clear h
  have hsource := allLoaded_ofFiles files layout
  generalize LoadedPackages.ofSource (.ofFiles files layout) = s at hsource
  induction packages generalizing s with
  | nil => exact hsource
  | cons p packages ih =>
    exact ih (fun q hq => hpackages q (List.mem_cons_of_mem _ hq)) _
      (hsource.insert (hpackages p List.mem_cons_self))

end GoService.Package

namespace GoService.Resolution

open Data Package Source

variable {c : Catalog} {names : KnownNames} {n : Nat} {k k' : Known}

/-! ## Tasks without placeholders -/

/-- A goal without placeholders, in files of loaded packages. -/
def Goal.Intact : Goal → Prop
  | .type site written => site.package.IsLoaded ∧ written.Intact
  | .decl p _ _ => p.IsLoaded
  | .literal _ source => source.site.package.IsLoaded ∧ ∀ f ∈ source.fields, f.type.Intact
  | .fields site written _ => site.package.IsLoaded ∧ ∀ f ∈ written, f.type.Intact
  | .field site f _ => site.package.IsLoaded ∧ f.type.Intact
  | .embedded .. => True

/-- A task without placeholders, where only loaded packages can be had. -/
structure Task.Intact (t : Task) : Prop where
  loaded : t.known.packages.catalog.AllLoaded
  goal : t.goal.Intact

/-- An intact type is intact without its pointer. -/
lemma intact_behindPointer {type : TypeExpr} (h : type.Intact) (pointer : Bool) :
    (behindPointer pointer type).1.Intact := by
  induction type using TypeExpr.partsInduction generalizing pointer with
  | paren span inner ih => exact ih h.paren pointer
  | pointer span star elem ih =>
    rw [behindPointer]
    split
    · exact h
    · exact ih h.pointer true
  | _ => exact h

/-- A literal behind a declaration of a loaded package has no placeholder: a search for one follows
names of declared types only. -/
lemma intact_of_literalIn (hc : c.AllLoaded) {m : Nat} {p : Package} {x : String} {d : DeclaredType}
    {source : StructLiteral} (hp : p.IsLoaded) (hd : p.type? x = some d)
    (h : literalIn c names m ⟨p, d.file⟩ d.spec.type = some (some source)) :
    source.site.package.IsLoaded ∧ ∀ f ∈ source.fields, f.type.Intact := by
  obtain ⟨_, _, _, hloaded, hliteral⟩ := literal_of_literalIn
    (P := fun site type => site.package.IsLoaded ∧ type.Intact) ⟨hp, hp.intact_type hd⟩
    (fun hP => ⟨hP.1, hP.2.paren⟩) (fun hP hd => ⟨hP.1, hP.1.intact_type hd⟩)
    (fun _ _ hq hd => ⟨hc _ _ hq, (hc _ _ hq).intact_type hd⟩) h
  exact ⟨hloaded, fun f hf => hliteral.field hf⟩

/-- A step of a resolution comes to no placeholder. -/
lemma Asks.intact {t t' : Task} (h : Asks names t t') (ht : t.Intact) : t'.Intact := by
  obtain ⟨hc, hg⟩ := ht
  have hextends {k k' : Known} (h : k.packages.catalog.AllLoaded)
      (hgrows : k.packages.Extends k'.packages) : k'.packages.catalog.AllLoaded :=
    hgrows.catalog.symm ▸ h
  cases h with
  | paren => exact ⟨hc, hg.1, hg.2.paren⟩
  | pointer => exact ⟨hc, hg.1, hg.2.pointer⟩
  | slice => exact ⟨hc, hg.1, hg.2.slice⟩
  | array => exact ⟨hc, hg.1, hg.2.array⟩
  | mapKey => exact ⟨hc, hg.1, hg.2.map.1⟩
  | mapValue hkey => exact ⟨hextends hc hkey.grows.packages, hg.1, hg.2.map.2⟩
  | declared hname =>
    -- the package of the file was loaded, and so was any other to which a name leads
    obtain ⟨hl, hr⟩ := (looks_referentOf ..).of_ok hname
    refine ⟨hextends hc hl.packages, ?_⟩
    obtain ⟨-, rfl | ⟨q, path, -, hp⟩⟩ := package_of_referentIn hr
    · exact hg.1
    · exact hc path _ hp
  | struct ho =>
    have hsearch := ((looks_structLiteral? ..).of_ok ho.search).2
    exact ⟨hextends hc ho.loads.packages, intact_of_literalIn hc hg ho.declared hsearch⟩
  | expand ho _ => exact ⟨hextends hc ho.loads.packages, hg, hg.intact_type ho.declared⟩
  | literal => exact ⟨hc, hg⟩
  | head => exact ⟨hc, hg.1, hg.2 _ List.mem_cons_self⟩
  | tail hf =>
    exact ⟨hextends hc hf.grows.packages, hg.1, fun f h => hg.2 f (List.mem_cons_of_mem _ h)⟩
  | named => exact ⟨hc, hg⟩
  | tagged => exact ⟨hc, hg⟩
  | embeddedType => exact ⟨hc, hg.1, intact_behindPointer hg.2 false⟩
  | inlined _ _ _ h => exact ⟨hextends hc h.grows.packages, trivial⟩
  | unfinished ho =>
    -- whatever the key is, the declaration that is read again is in a package at hand
    obtain ⟨p, x, d, -, hp, hd⟩ := ho.declares
    exact ⟨hextends hc ho.loads.packages,
      intact_of_literalIn hc (hc _ _ hp.catalog) hd.declared hd.search⟩

/-! ## Errors -/

/-- The error of a type of which nothing could be read. -/
def ResolutionError.IsMalformed : ResolutionError → Prop
  | .unresolved _ _ missing => missing = .wellFormedType
  | _ => False

/-- In a state a computation does not end in the error of a malformed type. -/
def NeverMalformed (x : Resolve α) (k : Known) : Prop :=
  ∀ e k', outcome x k = (.error e, k') → ¬ e.IsMalformed

/-- An error of a lookup is not that of a malformed type. -/
lemma ResolutionError.IsOfLookup.not_isMalformed {e : ResolutionError} (h : e.IsOfLookup) :
    ¬ e.IsMalformed := by
  intro hmalformed
  cases e with
  | unresolved place name missing => exact h hmalformed
  | _ => exact hmalformed

/-- A goal without placeholders does not end in the error of a malformed type. -/
lemma Fails.not_isMalformed {g : Goal} {e : ResolutionError} (h : Fails names n k g e k')
    (hc : k.packages.catalog.AllLoaded) (hg : g.Intact) : ¬ e.IsMalformed := by
  obtain ⟨t, hdescends, hfaults⟩ := h.descends
  have ht := (hdescends.keeps Asks.intact ⟨hc, hg⟩).goal
  cases hfaults with
  | rejected h =>
    -- only a placeholder itself has this error
    cases h with
    | bad => exact (TypeExpr.Intact.not_bad ht.2).elim
    | _ => exact nofun
  | nameless hname => exact ((failsLooking_referentOf ..).isOfLookup hname).not_isMalformed
  | search _ _ _ hsearch =>
    exact ((failsLooking_structLiteral? ..).isOfLookup hsearch).not_isMalformed
  | research _ _ _ hsearch =>
    exact ((failsLooking_structLiteral? ..).isOfLookup hsearch).not_isMalformed
  | _ => exact nofun

/-- A source that is read without a report is well-formed, and so are loaded packages.
* Nothing in such a source had to be recovered: there is no placeholder for a declaration or for a
  type. If the source has less than 4 GiB, every place that is kept for a token is that of the
  token.
* In any state in which only loaded packages can be had, whatever the table holds and whatever is on
  the way, no resolution of a type in a file of a loaded package and none of a declared name ends in
  the error of a malformed type.
* A run over a project begins in such a state: only loaded packages can be had. -/
theorem clean_sources_well_formed :
    (∀ source, (parse source).isClean →
      (∀ span, Decl.bad span ∉ (parse source).file.file.decls) ∧
      (∀ span place, ¬ (TypeExpr.bad span place).WrittenIn (parse source).file.file) ∧
      (byteSize source.toList ≤ Span.maxOffset → ∀ t ∈ (parse source).file.file.spanTrees,
        t.Everywhere (SpanTree.IsExact source.toList))) ∧
    (∀ names k, k.packages.catalog.AllLoaded → ∀ p : Package, p.IsLoaded →
      (∀ file ∈ p.files, ∀ type, type.WrittenIn file.parsed.file →
        NeverMalformed (resolve names ⟨p, file⟩ type) k) ∧
      ∀ x, NeverMalformed (resolveName names p x) k) ∧
    ∀ files dir manifest packages, Project.packagesIn files dir manifest = .ok packages →
      (∀ p ∈ packages, p.IsLoaded) ∧ ∀ layout, (packages.foldl LoadedPackages.insert
        (.ofSource (.ofFiles files layout))).catalog.AllLoaded := by
  refine ⟨fun source hclean => ⟨bad_notMem_decls hclean, ?_,
    fun hsrc => exact_of_isClean hsrc hclean⟩, ?_, fun files dir manifest packages h =>
      ⟨fun p hp => isLoaded_of_mem_packagesIn h hp, allLoaded_project h⟩⟩
  · intro span place hbad
    exact TypeExpr.Intact.not_bad (hbad.intact hclean)
  · intro names k hc p hp
    refine ⟨fun file hfile type htype e k' ho => ?_, fun x e k' ho => ?_⟩
    · have hgoal : Goal.Intact (.type ⟨p, file⟩ type) := ⟨hp, hp.intact hfile htype⟩
      exact ((resolve_ends names _ type k).error ho).not_isMalformed hc hgoal
    · have hgoal : Goal.Intact (.decl p x (declPlace p x)) := hp
      exact ((resolveName_ends names p x k).error ho).not_isMalformed hc hgoal

/-! ## A package that is loaded -/

namespace Rows

/-- A package with a struct that refers to itself and with lists of it. -/
def sourceText : String := "package p\n\ntype Row struct{ Next *Row }\n\ntype Rows []Row\n"

/-- The file of the package. -/
def files : Project.FileTree :=
  .dir [("p.go", .file sourceText.toUTF8)]

/-- The root of the project. -/
def root : Project.FilePath := ⟨"/"⟩

/-- The package can be loaded. -/
lemma load_succeeds : (load files "m" root "m" [⟨"/p.go"⟩]).toOption.isSome = true := by
  decide +kernel

/-- The package as it is loaded. -/
def package : Package :=
  (load files "m" root "m" [⟨"/p.go"⟩]).toOption.get load_succeeds

/-- The package is loaded from a source that is read without a report. -/
lemma package_isLoaded : package.IsLoaded := by
  refine ⟨files, "m", root, "m", [⟨"/p.go"⟩], ?_⟩
  have hget : (load files "m" root "m" [⟨"/p.go"⟩]).toOption = some package :=
    (Option.some_get load_succeeds).symm
  cases hload : load files "m" root "m" [⟨"/p.go"⟩] with
  | error e =>
    rw [hload] at hget
    cases hget
  | ok p =>
    rw [hload] at hget
    cases hget
    rfl

/-- The state of the project with the package loaded. -/
def start : Known :=
  .start ((LoadedPackages.ofSource (.ofFiles files
    (.ofProject files root ⟨"m", none, none, [], []⟩ .default))).insert package)

/-- Only loaded packages can be had from the state. -/
lemma start_allLoaded : start.packages.catalog.AllLoaded :=
  (allLoaded_ofFiles files _).insert package_isLoaded

/-- The package declares the lists. -/
lemma exists_rows : ∃ d, package.type? "Rows" = some d :=
  Option.isSome_iff_exists.1 (by decide +kernel)

/-- The rows of the package resolve, and no resolution in it meets a malformed type. -/
theorem rows_well_formed :
    (∀ span, Decl.bad span ∉ (parse sourceText).file.file.decls) ∧
    (outcome (resolveName ⟨""⟩ package "Rows") start).1 = .ok (.array (.struct "m.Row")) ∧
    ∃ d, package.type? "Rows" = some d ∧
      NeverMalformed (resolve ⟨""⟩ ⟨package, d.file⟩ d.spec.type) start ∧
      ∀ x, NeverMalformed (resolveName ⟨""⟩ package x) start := by
  have hclean : (parse sourceText).isClean = true := by decide +kernel
  obtain ⟨d, hd⟩ := exists_rows
  obtain ⟨htypes, hnames⟩ := clean_sources_well_formed.2.1 ⟨""⟩ start start_allLoaded package
    package_isLoaded
  have hfile := package.filed _ (Dict.mem_of_get? hd)
  refine ⟨(clean_sources_well_formed.1 sourceText hclean).1, by decide +kernel, d, hd, ?_, hnames⟩
  exact htypes d.file hfile d.spec.type (package_isLoaded.writtenIn_type hd)

end Rows

/-- Behind 4 GiB of blanks the place that is kept for the keyword of a package is not that of the
keyword. -/
theorem Distant.keyword_misplaced : (parse Distant.source).isClean = true ∧
    (parse Distant.source).file.file.package = .emptyAt Span.maxOffset ∧
    ¬ ∀ t ∈ (parse Distant.source).file.file.spanTrees,
      t.Everywhere (SpanTree.IsExact Distant.source.toList) := by
  refine ⟨Distant.isClean_source, by rw [Distant.file_source]; rfl, fun h => ?_⟩
  rw [Distant.file_source] at h
  obtain ⟨-, text, ⟨before, after, -, hne, hplace⟩, -⟩ := (h _ List.mem_cons_self).here
  have hpos := byteSize_pos hne
  have hstart := congrArg Span.start hplace
  have hstop := congrArg Span.stop hplace
  simp only [Distant.place, Span.emptyAt, Span.ofText] at hstart hstop
  omega

end GoService.Resolution
