import GoService.Proofs.Resolution.Adequacy
import Mathlib.Data.List.Pairwise

/-!
# What a qualifier means

The import that a qualifier stands for is found by the names that the paths of the imports suggest,
and only if none of them suggests it by the names that the packages have. So a package whose path
suggests the name of another one hides that one (`Misleads`), and this is the only way in which a
qualifier is misread (`qualifier_misread_iff_misleading`). Blank and dot imports do not count.
-/

namespace GoService.Resolution

open Data Package Source

/-- The name that an import has in its file: the one that it is given, or else the one that the
package has in its package clause. -/
def trueName? (c : Catalog) (i : Import) : Option String :=
  match i.naming with
  | .none => (c i.path).toOption.map (·.name)
  | .named n => some n
  | .blank | .dot => none

/-- The first import that the file calls `q`, or seems to call so, only has a path that suggests
this name. -/
structure Misleads (c : Catalog) (t : ImportList) (q : String) (j : Import) : Prop where
  first : ∃ before after, t.imports = before ++ j :: after ∧
    ∀ i ∈ before, i.boundName? ≠ some q
  unnamed : j.naming = .none
  suggests : j.shortName = q
  other : trueName? c j ≠ some q

/-! ## Imports by name -/

/-- An import binds the name that its path suggests, or the one that it is given. -/
lemma boundName?_eq_some_iff {i : Import} {q : String} :
    i.boundName? = some q ↔ (i.naming = .none ∧ i.shortName = q) ∨ i.naming = .named q := by
  cases h : i.naming <;> simp [Import.boundName?, h]

section

variable {c : Catalog} {t : ImportList} {q : String} {i j : Import}

/-- The first import that binds a name is found. -/
lemma find?_of_first {before after : List Import} (himports : t.imports = before ++ j :: after)
    (hbefore : ∀ i ∈ before, i.boundName? ≠ some q) (hj : j.boundName? = some q) :
    t.find? q = some j := by
  rw [ImportList.find?, List.find?_eq_some_iff_append]
  refine ⟨beq_iff_eq.2 hj, before, after, himports, fun i hi => ?_⟩
  simpa using hbefore i hi

/-- What is found is the first import that binds the name. -/
lemma first_of_find? (h : t.find? q = some j) : j.boundName? = some q ∧
    ∃ before after, t.imports = before ++ j :: after ∧ ∀ i ∈ before, i.boundName? ≠ some q := by
  rw [ImportList.find?, List.find?_eq_some_iff_append] at h
  obtain ⟨hj, before, after, himports, hbefore⟩ := h
  refine ⟨eq_of_beq hj, before, after, himports, fun i hi => ?_⟩
  simpa using hbefore i hi

/-- An import that misleads is the one that is found. -/
lemma Misleads.find? (h : Misleads c t q j) : t.find? q = some j := by
  obtain ⟨before, after, himports, hbefore⟩ := h.first
  exact find?_of_first himports hbefore (boundName?_eq_some_iff.2 (.inl ⟨h.unnamed, h.suggests⟩))

/-- The import that is found by a name has it or misleads. -/
lemma trueName?_or_misleads (h : t.find? q = some j) :
    trueName? c j = some q ∨ Misleads c t q j := by
  obtain ⟨hj, hfirst⟩ := first_of_find? h
  by_cases htrue : trueName? c j = some q
  · exact .inl htrue
  rcases boundName?_eq_some_iff.1 hj with ⟨hunnamed, hsuggests⟩ | hnamed
  · exact .inr ⟨hfirst, hunnamed, hsuggests, htrue⟩
  · exact absurd (by rw [trueName?, hnamed]) htrue

/-- An import without a name is known by that of its package. -/
lemma trueName?_unnamed (h : i.naming = .none) :
    trueName? c i = (c i.path).toOption.map (·.name) := by
  rw [trueName?, h]

/-- An import that has a name and is not found by it is asked for the name of its package. -/
lemma mem_unnamedExcept (h : t.find? q = none) (hi : i ∈ t.imports)
    (htrue : trueName? c i = some q) : i ∈ t.unnamedExcept q := by
  have hbound : i.boundName? ≠ some q := by simpa using List.find?_eq_none.1 h i hi
  rw [ne_eq, boundName?_eq_some_iff, not_or, not_and] at hbound
  have hunnamed : i.naming = .none := by
    cases hnaming : i.naming with
    | none => rfl
    | named n =>
      rw [trueName?, hnaming] at htrue
      cases htrue
      exact absurd hnaming hbound.2
    | blank =>
      rw [trueName?, hnaming] at htrue
      cases htrue
    | dot =>
      rw [trueName?, hnaming] at htrue
      cases htrue
  refine List.mem_filter.2 ⟨hi, ?_⟩
  simp [hunnamed, hbound.1 hunnamed]

/-- An import that is looked at further has no name of its own. -/
lemma of_mem_unnamedExcept (hi : i ∈ t.unnamedExcept q) : i ∈ t.imports ∧ i.naming = .none := by
  obtain ⟨hi, h⟩ := List.mem_filter.1 hi
  rw [Bool.and_eq_true] at h
  exact ⟨hi, eq_of_beq h.1⟩

/-- Only one import is known by a name. -/
lemma eq_of_trueName? (hdistinct : (t.imports.filterMap (trueName? c)).Nodup)
    (hi : i ∈ t.imports) (hj : j ∈ t.imports) (hiq : trueName? c i = some q)
    (hjq : trueName? c j = some q) : i = j := by
  refine Classical.byContradiction fun hne => ?_
  have hpairs := List.pairwise_filterMap.1 hdistinct
  have hsymm : Std.Symm fun i j => ∀ a, trueName? c i = some a → ∀ b, trueName? c j = some b →
      a ≠ b := ⟨fun _ _ h a ha b hb => (h b hb a ha).symm⟩
  exact hpairs.forall hi hj hne q hiq q hjq rfl

end

/-! ## The import that is taken -/

section

variable {site : Site} {q : String} {place : SourcePlace} {k : Known}

/-- A qualifier that an import binds leads to its path. -/
lemma outcome_qualifierPath_found {j : Import} (h : site.file.imports.find? q = some j) :
    (outcome (qualifierPath site q place) k).1 = .ok j.path := by
  rw [qualifierPath, h]
  rfl

/-- Where no import is found by a name, the packages of those without a name are asked. -/
lemma outcome_qualifierPath_asked (place : SourcePlace)
    (h : site.file.imports.find? q = none) :
    (∃ i ∈ site.file.imports.unnamedExcept q, trueName? k.packages.catalog i = some q ∧
      (outcome (qualifierPath site q place) k).1 = .ok i.path) ∨
    ((∀ i ∈ site.file.imports.unnamedExcept q, trueName? k.packages.catalog i ≠ some q) ∧
      (outcome (qualifierPath site q place) k).1 = .error (.unresolved place q .importFor)) := by
  have hlooks := (looks_firstNamed q ((site.file.imports.unnamedExcept q).map (·.path))).answer k
  obtain ⟨found, k', ho⟩ | ⟨e, k', ho⟩ := outcome_cases
    (firstNamed q ((site.file.imports.unnamedExcept q).map (·.path))) k
  · rw [ho] at hlooks
    rw [qualifierPath, h, outcome_bind_of_ok ho]
    have hfound : found = firstNamedIn k.packages.catalog q _ := Option.some.inj hlooks
    cases found with
    | some path =>
      have hpath := List.find?_some hfound.symm
      obtain ⟨i, hi, rfl⟩ := List.mem_map.1 (List.mem_of_find?_eq_some hfound.symm)
      refine .inl ⟨i, hi, ?_, rfl⟩
      rw [trueName?_unnamed (of_mem_unnamedExcept hi).2]
      obtain ⟨p, hp, hname⟩ := (Option.any_eq_true _ _).1 hpath
      rw [hp, Option.map_some, eq_of_beq hname]
    | none =>
      refine .inr ⟨fun i hi hq => ?_, rfl⟩
      have hpath := List.find?_eq_none.1 hfound.symm i.path (List.mem_map_of_mem hi)
      rw [trueName?_unnamed (of_mem_unnamedExcept hi).2] at hq
      obtain ⟨p, hp, rfl⟩ := Option.map_eq_some_iff.1 hq
      simp [hp] at hpath
  · rw [ho] at hlooks
    cases hlooks

/-- Whatever is taken has the name or misleads; blank and dot imports have no names. -/
lemma exists_of_qualifierPath {path : String}
    (h : (outcome (qualifierPath site q place) k).1 = .ok path) :
    ∃ i ∈ site.file.imports.imports, i.path = path ∧ i.naming ≠ .blank ∧ i.naming ≠ .dot ∧
      (trueName? k.packages.catalog i = some q ∨
        Misleads k.packages.catalog site.file.imports q i) := by
  have hnaming {i : Import} (hi : trueName? k.packages.catalog i = some q ∨
      Misleads k.packages.catalog site.file.imports q i) : i.naming ≠ .blank ∧ i.naming ≠ .dot := by
    rcases hi with htrue | hmisleads
    · constructor <;> intro hnaming <;> rw [trueName?, hnaming] at htrue <;> cases htrue
    · rw [hmisleads.unnamed]
      exact ⟨nofun, nofun⟩
  cases hfind : site.file.imports.find? q with
  | some j =>
    cases (outcome_qualifierPath_found hfind).symm.trans h
    have hj := trueName?_or_misleads (c := k.packages.catalog) hfind
    obtain ⟨hblank, hdot⟩ := hnaming hj
    exact ⟨j, List.mem_of_find?_eq_some hfind, rfl, hblank, hdot, hj⟩
  | none =>
    obtain ⟨i, hi, hq, hok⟩ | ⟨-, herror⟩ := outcome_qualifierPath_asked place hfind
    · cases hok.symm.trans h
      obtain ⟨hblank, hdot⟩ := hnaming (.inl hq)
      exact ⟨i, (of_mem_unnamedExcept hi).1, rfl, hblank, hdot, .inl hq⟩
    · cases herror.symm.trans h

/-- Where a qualifier has no path no name can be looked up through it. -/
lemma outcome_selectedReferent_of_error {e : ResolutionError} (names : KnownNames) (name : String)
    (h : (outcome (qualifierPath site q place) k).1 = .error e) :
    (outcome (selectedReferent names site q name place) k).1 = .error e := by
  rw [selectedReferent, outcome_bind]
  obtain ⟨path, k', ho⟩ | ⟨e', k', ho⟩ := outcome_cases (qualifierPath site q place) k
  · rw [ho] at h
    cases h
  · rw [ho] at h ⊢
    cases h
    rfl

/-- In a file whose imports have different names a qualifier means the import of that name, in
whatever order the imports stand and whatever their paths suggest, unless the path of another one
misleads. If no import has the name, one that misleads is taken, and without one every reference
through the qualifier fails. -/
theorem qualifier_misread_iff_misleading (site : Site) (q : String) (place : SourcePlace)
    (k : Known)
    (hdistinct : (site.file.imports.imports.filterMap (trueName? k.packages.catalog)).Nodup) :
    (∀ i ∈ site.file.imports.imports, trueName? k.packages.catalog i = some q →
      ((outcome (qualifierPath site q place) k).1 = .ok i.path ↔
        ∀ j, Misleads k.packages.catalog site.file.imports q j → j.path = i.path)) ∧
    ((∀ i ∈ site.file.imports.imports, trueName? k.packages.catalog i ≠ some q) →
      (∀ j, Misleads k.packages.catalog site.file.imports q j →
        (outcome (qualifierPath site q place) k).1 = .ok j.path) ∧
      ((∀ j, ¬ Misleads k.packages.catalog site.file.imports q j) → ∀ names name,
        (outcome (selectedReferent names site q name place) k).1 =
          .error (.unresolved place q .importFor))) ∧
    ∀ path, (outcome (qualifierPath site q place) k).1 = .ok path →
      ∃ i ∈ site.file.imports.imports, i.path = path ∧ i.naming ≠ .blank ∧ i.naming ≠ .dot ∧
        (trueName? k.packages.catalog i = some q ∨
          Misleads k.packages.catalog site.file.imports q i) := by
  have hmisled {j : Import} (hj : Misleads k.packages.catalog site.file.imports q j) :
      (outcome (qualifierPath site q place) k).1 = .ok j.path :=
    outcome_qualifierPath_found hj.find?
  refine ⟨fun i hi hq => ?_, fun hnone => ⟨fun j hj => hmisled hj, fun hnot names name => ?_⟩,
    fun path h => exists_of_qualifierPath h⟩
  · constructor
    · intro hok j hj
      exact Except.ok.inj ((hmisled hj).symm.trans hok)
    · intro hnot
      -- packages are asked for their names only if no path suggests the name
      cases hfind : site.file.imports.find? q with
      | some j =>
        rw [outcome_qualifierPath_found hfind]
        rcases trueName?_or_misleads (c := k.packages.catalog) hfind with hj | hj
        · rw [eq_of_trueName? hdistinct hi (List.mem_of_find?_eq_some hfind) hq hj]
        · rw [hnot j hj]
      | none =>
        obtain ⟨j, hj, hjq, hok⟩ | ⟨hnone, -⟩ := outcome_qualifierPath_asked place hfind
        · rw [hok, eq_of_trueName? hdistinct hi (of_mem_unnamedExcept hj).1 hq hjq]
        · exact absurd hq (hnone i (mem_unnamedExcept hfind hi hq))
  · refine outcome_selectedReferent_of_error names name ?_
    cases hfind : site.file.imports.find? q with
    | some j =>
      rcases trueName?_or_misleads (c := k.packages.catalog) hfind with hj | hj
      · exact absurd hj (hnone j (List.mem_of_find?_eq_some hfind))
      · exact absurd hj (hnot j)
    | none =>
      obtain ⟨i, hi, hq, -⟩ | ⟨-, herror⟩ := outcome_qualifierPath_asked place hfind
      · exact absurd hq (hnone i (of_mem_unnamedExcept hi).1)
      · exact herror

end

/-! ## A version in a path -/

namespace Versions

/-- A file with imports. -/
def file (imports : List Import) : SourceUnit where
  path := ⟨"user/user.go"⟩
  parsed := ⟨"", ⟨[0]⟩, ⟨default, ⟨⟨"user", by decide⟩, default⟩, [], [], none⟩, []⟩
  imports := ⟨imports⟩

/-- A package that declares nothing. -/
def package (path name : String) (imports : List Import) : Package :=
  ofFiles path name ⟨path⟩ "m" [file imports]

/-- The import `"m/api/core/v1"`. -/
def versioned : Import :=
  ⟨"m/api/core/v1", Project.suggestedName "m/api/core/v1", .none, 4⟩

/-- The import `"m/core"`. -/
def plain : Import :=
  ⟨"m/core", Project.suggestedName "m/core", .none, 5⟩

/-- Two packages, of which one has a path that suggests the name of the other. -/
def source : PackageSource :=
  .ofPackages [package "m/api/core/v1" "v1" [], package "m/core" "core" []]

/-- The state before anything is loaded. -/
def start : Known :=
  .start (.ofSource source)

/-- A site in a file that imports both. -/
def site : Site :=
  ⟨package "m/user" "user" [versioned, plain], file [versioned, plain]⟩

/-- A place in the file. -/
def place : SourcePlace :=
  ⟨⟨"user/user.go"⟩, ⟨9, 4⟩⟩

/-- The imports are known by the names of their packages. -/
lemma names_of_imports :
    site.file.imports.imports.filterMap (trueName? start.packages.catalog) = ["v1", "core"] := by
  decide +kernel

/-- The names of the packages are different. -/
lemma distinct_names :
    (site.file.imports.imports.filterMap (trueName? start.packages.catalog)).Nodup := by
  rw [names_of_imports]
  decide

/-- No path suggests the name of the package whose path ends in a version, so it is asked for. -/
theorem versioned_meant :
    (outcome (qualifierPath site "v1" place) start).1 = .ok "m/api/core/v1" := by
  refine ((qualifier_misread_iff_misleading site "v1" place start distinct_names).1 versioned
    (.head _) rfl).2 fun j hj => ?_
  have hnone : site.file.imports.find? "v1" = none := by decide +kernel
  cases hnone.symm.trans hj.find?

/-- The path of that package suggests the name of the other one, which it hides. -/
theorem plain_hidden :
    (∀ i ∈ site.file.imports.imports, ∃ p, start.packages.catalog i.path = .ok p) ∧
    (site.file.imports.imports.filterMap (trueName? start.packages.catalog)).Nodup ∧
    trueName? start.packages.catalog plain = some "core" ∧
    trueName? start.packages.catalog versioned = some "v1" ∧
    (outcome (qualifierPath site "core" place) start).1 = .ok versioned.path ∧
    versioned.path ≠ plain.path := by
  refine ⟨?_, distinct_names, rfl, rfl, ?_, by decide⟩
  · exact List.forall_mem_cons.2 ⟨⟨_, rfl⟩, List.forall_mem_singleton.2 ⟨_, rfl⟩⟩
  · have hfirst : site.file.imports.find? "core" = some versioned := by decide +kernel
    exact outcome_qualifierPath_found hfirst

end Versions

end GoService.Resolution
