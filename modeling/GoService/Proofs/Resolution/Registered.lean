import GoService.Proofs.Resolution.Adequacy
import GoService.Proofs.Resolution.Aliases
import GoService.Proofs.Resolution.Termination

/-!
# Types that need no other package

Names of the framework and of a few packages of the standard library are well-known: they stand for
a type without a look at the package that is imported. `SelfContained` says which written types are
put together from such names, from predeclared ones and from declarations that are themselves
written so. At every moment such a type resolves, to what its form says, and the resolution leaves
packages and structs as they are (`resolve_of_selfContained`); whether there is a package behind a
well-known name, and what is in it, plays no part.
-/

namespace GoService.Resolution

open Data Package Source

/-- A name that needs no declaration, and the type that it stands for. -/
inductive Predeclared : String → DataType → Prop
  | builtin (h : Builtin.ofIdent? x = some b) : Predeclared x (.builtin b)
  | error : Predeclared "error" (.wellKnown .error)
  | any : Predeclared "any" (.wellKnown .any)

/-- A written type that needs no package but that of its file, and the type that it stands for. The
list has the names of the package whose declarations are being expanded; none of them is expanded
again. -/
inductive SelfContained (names : KnownNames) :
    List String → Site → TypeExpr → DataType → Prop
  | paren (h : SelfContained names expanding site nested t) :
      SelfContained names expanding site (.paren span nested) t
  | pointer (h : SelfContained names expanding site elem t) :
      SelfContained names expanding site (.pointer span asterisk elem) (.pointer t)
  | slice (h : SelfContained names expanding site elem t) :
      SelfContained names expanding site (.slice span elem) (.array t)
  | array (h : SelfContained names expanding site elem t) :
      SelfContained names expanding site (.array span len elem) (.array t)
  | map (hkey : SelfContained names expanding site key (.builtin b))
      (hval : SelfContained names expanding site val t) :
      SelfContained names expanding site (.map span key val) (.map b t)
  | emptyInterface : SelfContained names expanding site (.interface span lBrace [] rBrace)
      (.wellKnown .any)
  | predeclared (hown : site.package.type? ident.name = none) (h : Predeclared ident.name t) :
      SelfContained names expanding site (.named span none ident []) t
  | registered (hq : site.file.imports.find? q.name = some i)
      (hw : names.lookup? i.path ident.name = some w) :
      SelfContained names expanding site (.named span (some q) ident []) (.wellKnown w)
  /-- A declaration with type parameters is no type, so it is not among these. -/
  | declared (hd : site.package.type? ident.name = some d) (hplain : d.spec.typeParams = none)
      (hout : ident.name ∉ expanding)
      (h : SelfContained names (ident.name :: expanding) ⟨site.package, d.file⟩ d.spec.type t) :
      SelfContained names expanding site (.named span none ident []) t

variable {names : KnownNames} {store : LoadedPackages} {expanding : List String} {site : Site}
  {written : TypeExpr} {t : DataType} {k : Known}

/-! ## Names -/

/-- Keys in one package are equal only for one name. -/
lemma keyIn_right_injective {p : Package} {x y : String} (h : keyIn p x = keyIn p y) : x = y := by
  have hlist := congrArg String.toList h
  rw [keyIn, keyIn, toList_declKey, toList_declKey] at hlist
  exact String.toList_injective (List.cons.inj (List.append_cancel_left hlist)).2

/-- A name that is not being expanded has a key that is not. -/
lemma notMem_map_keyIn {p : Package} {x : String} (h : x ∉ expanding) :
    keyIn p x ∉ expanding.map (keyIn p) := by
  intro hmem
  obtain ⟨y, hy, hkey⟩ := List.mem_map.1 hmem
  exact h (keyIn_right_injective hkey ▸ hy)

/-- A predeclared name that the package does not declare refers to its type. -/
lemma Predeclared.plainReferent {x : String} (h : Predeclared x t)
    (hown : site.package.type? x = none) (place : SourcePlace) :
    plainReferent site x place = .ok (.type t) := by
  have hcontains : ¬ site.package.types.contains x := by
    have hget : site.package.types.get? x = none := hown
    rw [Dict.contains, hget]
    exact Bool.false_ne_true
  rw [Resolution.plainReferent, if_neg hcontains]
  cases h with
  | builtin hb => rw [hb]
  | error | any => rfl

/-- A name that the package declares refers to the declaration. -/
lemma plainReferent_of_type? {x : String} {d : DeclaredType}
    (hd : site.package.type? x = some d) (place : SourcePlace) :
    plainReferent site x place = .ok (.declared site.package x) := by
  have hcontains : site.package.types.contains x := Option.isSome_iff_exists.2 ⟨d, hd⟩
  rw [plainReferent, if_pos hcontains]

/-- A well-known name is taken before the package behind it is asked for. -/
lemma outcome_qualifierPath_of_find? {q : String} {i : Import} (place : SourcePlace)
    (hq : site.file.imports.find? q = some i) :
    outcome (qualifierPath site q place) k = (.ok i.path, k) := by
  rw [qualifierPath, hq]
  rfl

namespace SelfContained

/-! ## The search for a struct literal -/

/-- No struct literal is behind such a type, and the search for one asks for no package. -/
lemma outcome_structLiteral? (h : SelfContained names expanding site written t)
    (place : SourcePlace) (n : Nat) :
    outcome (structLiteral? names place n site written) k = (.ok none, k) := by
  induction h generalizing n with
  | paren _ ih =>
    cases n with
    | zero => rfl
    | succ n => exact ih n
  | predeclared hown =>
    cases n with
    | zero => rfl
    | succ n =>
      rw [structLiteral?, plainDecl?, hown]
      rfl
  | registered hq hw =>
    cases n with
    | zero => rfl
    | succ n =>
      rw [structLiteral?, outcome_bind_of_ok (outcome_qualifierPath_of_find? place hq), hw]
      rfl
  | declared hd hplain _ _ ih =>
    cases n with
    | zero => rfl
    | succ n =>
      rw [structLiteral?, plainDecl?_of_type? hd hplain]
      exact ih n
  | _ => cases n <;> rfl

/-- A declaration that is written so is in no table: only structs are. -/
lemma notMem_keys {p : Package} {x : String} {d : DeclaredType}
    (h : SelfContained names expanding ⟨p, d.file⟩ d.spec.type t) (hd : p.type? x = some d)
    (hp : k.packages.catalog p.importPath = .ok p)
    (hk : Faithful k.packages.catalog names k.structs) : keyIn p x ∉ k.structs.keys := by
  intro hmem
  obtain ⟨p', x', d', source, hkey, hdeclares, -⟩ := hk.declared hmem
  obtain ⟨rfl, rfl⟩ := keyIn_injective hp hd hdeclares.held hdeclares.declared hkey
  cases hd.symm.trans hdeclares.declared
  have hnone := ((looks_structLiteral? ..).of_ok
    (h.outcome_structLiteral? (k := k) (declPlace p x) nameHopLimit)).2
  cases hnone.symm.trans hdeclares.search

/-! ## Resolutions -/

/-- Such a type has the answer that its form says, with any bound that is not too small, and the
state stays as it is. -/
lemma resolves (h : SelfContained names expanding site written t)
    (hp : k.packages.catalog site.package.importPath = .ok site.package)
    (hk : Faithful k.packages.catalog names k.structs)
    (hout : k.trail.expanding = expanding.map (keyIn site.package)) :
    ∃ n, ∀ m, n ≤ m → Resolves names m k (.type site written) (.type t) k := by
  induction h generalizing k with
  | paren _ ih =>
    obtain ⟨n, hn⟩ := ih hp hk hout
    exact ⟨n, fun m hm => .paren (hn m hm)⟩
  | pointer _ ih =>
    obtain ⟨n, hn⟩ := ih hp hk hout
    exact ⟨n, fun m hm => .pointer (hn m hm)⟩
  | slice _ ih =>
    obtain ⟨n, hn⟩ := ih hp hk hout
    exact ⟨n, fun m hm => .slice (hn m hm)⟩
  | array _ ih =>
    obtain ⟨n, hn⟩ := ih hp hk hout
    exact ⟨n, fun m hm => .array (hn m hm)⟩
  | map _ _ ihkey ihval =>
    obtain ⟨n₁, hkey⟩ := ihkey hp hk hout
    obtain ⟨n₂, hval⟩ := ihval hp hk hout
    exact ⟨max n₁ n₂, fun m hm =>
      .map (hkey m (Nat.max_le.1 hm).1) (hval m (Nat.max_le.1 hm).2)⟩
  | emptyInterface => exact ⟨0, fun m _ => .any⟩
  | predeclared hown hname =>
    refine ⟨0, fun m _ => .known ?_⟩
    rw [referentOf, outcome_liftExcept, hname.plainReferent hown]
  | registered hq hw =>
    refine ⟨0, fun m _ => .known ?_⟩
    rw [referentOf, selectedReferent, outcome_bind_of_ok (outcome_qualifierPath_of_find? _ hq), hw]
    rfl
  | @declared d expanding t site span ident hd hplain hnew h ih =>
    have hopens : Opens names k site.package ident.name (site.placeOf span) d none k :=
      ⟨mt StructTable.contains_iff.1 (h.notMem_keys hd hp hk), hd, hplain,
        h.outcome_structLiteral? ..⟩
    have hname : outcome (referentOf names site none ident (site.placeOf span)) k =
        (.ok (.declared site.package ident.name), k) := by
      rw [referentOf, outcome_liftExcept, plainReferent_of_type? hd]
    obtain ⟨n, hn⟩ := ih (k := k.expand (keyIn site.package ident.name)) hp hk
      (congrArg (keyIn site.package ident.name :: ·) hout)
    -- the declared type is resolved one step deeper, while its name is being expanded
    refine ⟨n + 1, fun m hm => ?_⟩
    obtain ⟨m, rfl⟩ := Nat.exists_eq_add_of_le' (Nat.le_of_add_left_le hm)
    have hexpanding : keyIn site.package ident.name ∉ k.trail.expanding := by
      rw [hout]
      exact notMem_map_keyIn hnew
    exact .declared hname (.expand hopens hexpanding (hn m (Nat.le_of_succ_le_succ hm)))

end SelfContained

/-- At every moment at which nothing is being expanded, a type that needs no other package resolves
to what its form says, and packages, structs and what is on the way stay as they are. Nothing is
supposed about the packages behind well-known names: they may be missing or faulty. -/
theorem resolve_of_selfContained (hk : Moment names store k) (hout : k.trail.expanding = [])
    (hp : k.packages.Holds site.package) (hfile : site.file ∈ site.package.files)
    (h : SelfContained names [] site written t) :
    outcome (resolve names site written) k = (.ok t, k) := by
  obtain ⟨hcatalog, hfaithful⟩ := hk.faithful
  rw [← hcatalog] at hfaithful
  obtain ⟨n, hn⟩ := h.resolves hp.catalog hfaithful hout
  have hok : outcome (typeOf names (stepsWithin names n) site written) k = (.ok t, k) :=
    (hn n (Nat.le_refl n)).computes
  exact (resolve_endsWithin names k hp hfile written).outcome_eq_ok
    (fun m hm => typeOf_approximates (stepsWithin_approximate names hm) site written) hok

/-! ## A package that is not there -/

namespace Stamps

open Elsewhere (typeNamed fileWith)

/-- The name of strings is a word. -/
lemma isWord_string : isWord "string".toList :=
  rfl

/-- The name of the keys. -/
def keyName : Ident := ⟨⟨"Key", by decide⟩, default⟩

/-- The name of the stamps. -/
def stampName : Ident := ⟨⟨"Stamp", by decide⟩, default⟩

/-- The declaration `type Key string`. -/
def keySpec : TypeSpec :=
  ⟨none, keyName, none, none, typeNamed none ⟨⟨"string", isWord_string⟩, default⟩⟩

/-- The declaration `type Stamp (time.Time)`. -/
def stampSpec : TypeSpec :=
  ⟨none, stampName, none, none, .paren default
    (typeNamed (some ⟨⟨"time", by decide⟩, default⟩) ⟨⟨"Time", by decide⟩, default⟩)⟩

/-- The file with both declarations. -/
def file : SourceUnit :=
  fileWith "stamps/stamps.go" ⟨⟨"stamps", by decide⟩, default⟩ [⟨"time", "time", .none, 3⟩]
    [keySpec, stampSpec]

/-- The package with the file. -/
def package : Package :=
  ofFiles "m/stamps" "stamps" ⟨"stamps"⟩ "m" [file]

/-- Nothing but the package itself is there. -/
def source : PackageSource :=
  .ofPackages [package]

/-- The state with the package loaded. -/
def start : Known :=
  (Known.start (.ofSource source)).withPackages
    (LoadedPackages.load (.ofSource source) "m/stamps").2

/-- The type `map[Key][]*Stamp`. -/
def stampsType : TypeExpr :=
  .map default (typeNamed none keyName)
    (.slice default (.pointer default default (typeNamed none stampName)))

/-- A type over a registered one is resolved though its package cannot be loaded. -/
theorem stamps_without_time :
    source.load "time" = .error (.load (.noSources "time" ⟨"time"⟩)) ∧
    outcome (resolve ⟨"rt"⟩ ⟨package, file⟩ stampsType) start =
      (.ok (.map .string (.array (.pointer (.wellKnown .time)))), start) := by
  have hreached : Reached ⟨"rt"⟩ (.ofSource source) start := .load (.refl _) "m/stamps"
  have hkey : SelfContained ⟨"rt"⟩ [] ⟨package, file⟩ (typeNamed none keyName)
      (.builtin .string) :=
    .declared (d := ⟨0, file, keySpec⟩) rfl rfl (by decide)
      (.predeclared rfl (.builtin (by decide)))
  have hstamp : SelfContained ⟨"rt"⟩ [] ⟨package, file⟩ (typeNamed none stampName)
      (.wellKnown .time) :=
    .declared (d := ⟨0, file, stampSpec⟩) rfl rfl (by decide)
      (.paren (.registered (i := ⟨"time", "time", .none, 3⟩) rfl (by decide)))
  refine ⟨rfl, ?_⟩
  exact resolve_of_selfContained (.reached hreached) rfl rfl (List.mem_singleton.2 rfl)
    (.map hkey (.slice (.pointer hstamp)))

end Stamps

end GoService.Resolution
