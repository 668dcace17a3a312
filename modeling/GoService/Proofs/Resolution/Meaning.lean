import GoService.Proofs.Resolution.Catalog
import GoService.Proofs.Resolution.Derivation
import Mathlib.Data.List.TakeWhile

/-!
# Meanings

What types and structs mean, as a function of the catalog alone: `Means` relates a written type to
the type it stands for, and `Flattens` the fields of a struct literal to the fields they contribute,
with embedded structs replaced by what their own declarations contribute. Neither knows of a table,
of an order of resolutions or of declarations on the way.

Both relations are functions (`Means.unique`, `Flattens.unique`). This rests on keys: a name has no
dot, so a key determines the package and the name (`keyIn_injective`).
-/

namespace GoService.Resolution

open Data Package Source

/-! ## Keys -/

/-- A key is the path and the name with a dot between them. -/
lemma toList_declKey (path x : String) :
    (declKey path x).toList = path.toList ++ '.' :: x.toList := by
  simp [declKey]

/-- A key whose name has no dot is split where it was put together. -/
lemma splitKey?_declKey {path x : String} (hx : '.' ∉ x.toList) :
    splitKey? (declKey path x) = some (path, x) := by
  have hall : ∀ c ∈ x.toList.reverse, (c != '.') = true := by
    intro c hc
    rw [bne_iff_ne]
    rintro rfl
    exact hx (List.mem_reverse.1 hc)
  have hreverse : (declKey path x).toList.reverse =
      x.toList.reverse ++ '.' :: path.toList.reverse := by
    simp [toList_declKey]
  simp only [splitKey?, hreverse]
  rw [List.dropWhile_append_of_pos hall, List.takeWhile_append_of_pos hall]
  simp

/-- The parts of a key make it up. -/
lemma declKey_of_splitKey? {key path x : String} (h : splitKey? key = some (path, x)) :
    key = declKey path x := by
  have hparts := List.takeWhile_append_dropWhile (p := (· != '.')) (l := key.toList.reverse)
  simp only [splitKey?] at h
  split at h
  · next c package hdrop =>
    have hdot : c = '.' := by
      have hhead := List.head?_dropWhile_not (· != '.') key.toList.reverse
      rw [hdrop] at hhead
      simpa using hhead
    cases h
    apply String.toList_injective
    rw [toList_declKey]
    rw [hdrop, hdot] at hparts
    have hlist := congrArg List.reverse hparts
    simpa using hlist.symm
  · cases h

/-- A declared name has no dot. -/
lemma dot_notMem_of_type? {p : Package} {x : String} {d : DeclaredType} (h : p.type? x = some d) :
    '.' ∉ x.toList := by
  have hname : d.spec.name.name = x := p.named _ (Dict.mem_of_get? h)
  rw [← hname]
  exact d.spec.name.word.dot_notMem

/-! ## Declarations -/

variable {c : Catalog} {names : KnownNames}

/-- A key determines the package and the name, if they are those of a declared type in the catalog.
-/
lemma keyIn_injective {p p' : Package} {x x' : String} {d d' : DeclaredType}
    (hp : c p.importPath = .ok p) (hd : p.type? x = some d) (hp' : c p'.importPath = .ok p')
    (hd' : p'.type? x' = some d') (hkey : keyIn p x = keyIn p' x') : p = p' ∧ x = x' := by
  have hsplit : splitKey? (keyIn p x) = some (p.importPath, x) :=
    splitKey?_declKey (dot_notMem_of_type? hd)
  have hsplit' : splitKey? (keyIn p' x') = some (p'.importPath, x') :=
    splitKey?_declKey (dot_notMem_of_type? hd')
  rw [hkey, hsplit'] at hsplit
  obtain ⟨hpath, rfl⟩ := Prod.mk.inj (Option.some.inj hsplit)
  rw [← hpath] at hp
  exact ⟨Except.ok.inj (hp.symm.trans hp'), rfl⟩

/-- A declared type of a package in the catalog, and the struct literal behind it if there is one.
-/
structure Declares (c : Catalog) (names : KnownNames) (p : Package) (x : String) (d : DeclaredType)
    (source : Option StructLiteral) : Prop where
  held : c p.importPath = .ok p
  declared : p.type? x = some d
  search : literalIn c names nameHopLimit ⟨p, d.file⟩ d.spec.type = some source

/-- A name has one declaration with one struct. -/
lemma Declares.unique {p : Package} {x : String} {d d' : DeclaredType}
    {source source' : Option StructLiteral} (h : Declares c names p x d source)
    (h' : Declares c names p x d' source') : d = d' ∧ source = source' := by
  obtain rfl := Option.some.inj (h.declared.symm.trans h'.declared)
  exact ⟨rfl, Option.some.inj (h.search.symm.trans h'.search)⟩

/-- Declarations with one key are those of one name in one package. -/
lemma Declares.eq_of_key {p p' : Package} {x x' : String} {d d' : DeclaredType}
    {source source' : Option StructLiteral} (h : Declares c names p x d source)
    (h' : Declares c names p' x' d' source') (hkey : keyIn p x = keyIn p' x') :
    p = p' ∧ x = x' :=
  keyIn_injective h.held h.declared h'.held h'.declared hkey

/-! ## Types -/

/-- What a written type stands for. A declared name stands for a struct if its declaration leads to
a struct literal, and for what its declaration stands for if not. -/
inductive Means (c : Catalog) (names : KnownNames) : Site → TypeExpr → DataType → Prop
  | paren (h : Means c names site nested t) : Means c names site (.paren span nested) t
  | pointer (h : Means c names site elem t) :
      Means c names site (.pointer span asterisk elem) (.pointer t)
  | slice (h : Means c names site elem t) : Means c names site (.slice span elem) (.array t)
  | array (h : Means c names site elem t) : Means c names site (.array span len elem) (.array t)
  | map (hkey : Means c names site key (.builtin b)) (hval : Means c names site val t) :
      Means c names site (.map span key val) (.map b t)
  | any : Means c names site (.interface span lBrace [] rBrace) (.wellKnown .any)
  | known (hname : referentIn c names site qualifier ident = some (.type t)) :
      Means c names site (.named span qualifier ident []) t
  | struct (hname : referentIn c names site qualifier ident = some (.declared p x))
      (hd : Declares c names p x d (some source)) (hplain : d.spec.typeParams = none) :
      Means c names site (.named span qualifier ident []) (.struct (keyIn p x))
  | expand (hname : referentIn c names site qualifier ident = some (.declared p x))
      (hd : Declares c names p x d none) (hplain : d.spec.typeParams = none)
      (h : Means c names ⟨p, d.file⟩ d.spec.type t) :
      Means c names site (.named span qualifier ident []) t

/-- A written type stands for one type at most. -/
theorem Means.unique {site : Site} {type : TypeExpr} {t t' : DataType}
    (h : Means c names site type t) (h' : Means c names site type t') : t = t' := by
  induction h generalizing t' with
  | paren _ ih =>
    cases h' with
    | paren h' => exact ih h'
  | pointer _ ih =>
    cases h' with
    | pointer h' => rw [ih h']
  | slice _ ih =>
    cases h' with
    | slice h' => rw [ih h']
  | array _ ih =>
    cases h' with
    | array h' => rw [ih h']
  | map _ _ ihkey ihval =>
    cases h' with
    | map hkey hval =>
      cases ihkey hkey
      rw [ihval hval]
  | any =>
    cases h' with
    | any => rfl
  -- a name refers to one thing, so of the rules for names only one can have been applied
  | known hname =>
    cases h' with
    | known hname' =>
      cases hname.symm.trans hname'
      rfl
    | struct hname' => cases hname.symm.trans hname'
    | expand hname' => cases hname.symm.trans hname'
  | struct hname hd =>
    cases h' with
    | known hname' => cases hname.symm.trans hname'
    | struct hname' =>
      cases hname.symm.trans hname'
      rfl
    | expand hname' hd' =>
      cases hname.symm.trans hname'
      cases (hd.unique hd').2
  | expand hname hd _ _ ih =>
    cases h' with
    | known hname' => cases hname.symm.trans hname'
    | struct hname' hd' =>
      cases hname.symm.trans hname'
      cases (hd.unique hd').2
    | expand hname' hd' _ h' =>
      cases hname.symm.trans hname'
      obtain ⟨rfl, -⟩ := hd.unique hd'
      exact ih h'

/-! ## Structs -/

/-- What the fields of a struct literal contribute, in source order. Fields that JSON skips
contribute nothing; an embedded struct without a tag name contributes, in its place, the fields of
its own declaration; every other embedded type contributes a field named after it. -/
inductive Flattens (c : Catalog) (names : KnownNames) : Site → List Field → List StructField → Prop
  | nil : Flattens c names site [] []
  | skipped (hskip : (fieldTags f).isJsonSkipped) (hfs : Flattens c names site fs gs) :
      Flattens c names site (f :: fs) gs
  | named (hskip : ¬ (fieldTags f).isJsonSkipped) (hemb : ¬ f.embedded)
      (h : Means c names site f.type t) (hfs : Flattens c names site fs gs) :
      Flattens c names site (f :: fs) (namedFields f t ++ gs)
  | tagged (hskip : ¬ (fieldTags f).isJsonSkipped) (hemb : f.embedded)
      (htag : (fieldTags f).jsonName?.isSome) (h : Means c names site f.type t)
      (hfs : Flattens c names site fs gs) :
      Flattens c names site (f :: fs) (embeddedField site f t :: gs)
  | inlined (hskip : ¬ (fieldTags f).isJsonSkipped) (hemb : f.embedded)
      (htag : ¬ (fieldTags f).jsonName?.isSome)
      (h : Means c names site (behindPointer false f.type).1 (.struct (keyIn p x)))
      (hd : Declares c names p x d (some source))
      (hinner : Flattens c names source.site source.fields hs)
      (hfs : Flattens c names site fs gs) :
      Flattens c names site (f :: fs) (hs.foldl putField [] ++ gs)
  | wrapped (hskip : ¬ (fieldTags f).isJsonSkipped) (hemb : f.embedded)
      (htag : ¬ (fieldTags f).jsonName?.isSome) (ht : ∀ key, t ≠ .struct key)
      (h : Means c names site (behindPointer false f.type).1 t)
      (hfs : Flattens c names site fs gs) :
      Flattens c names site (f :: fs) (embeddedField site f
        (if (behindPointer false f.type).2 then .pointer t else t) :: gs)

/-- Fields are flattened to one list only. -/
theorem Flattens.unique {site : Site} {fs : List Field} {gs gs' : List StructField}
    (h : Flattens c names site fs gs) (h' : Flattens c names site fs gs') : gs = gs' := by
  induction h generalizing gs' with
  | nil =>
    cases h' with
    | nil => rfl
  | skipped hskip _ ih =>
    cases h' with
    | skipped _ hfs' => exact ih hfs'
    | named hskip' => exact absurd hskip hskip'
    | tagged hskip' => exact absurd hskip hskip'
    | inlined hskip' => exact absurd hskip hskip'
    | wrapped hskip' => exact absurd hskip hskip'
  | named hskip hemb h _ ih =>
    cases h' with
    | skipped hskip' => exact absurd hskip' hskip
    | named _ _ h' hfs' => rw [h.unique h', ih hfs']
    | tagged _ hemb' => exact absurd hemb' hemb
    | inlined _ hemb' => exact absurd hemb' hemb
    | wrapped _ hemb' => exact absurd hemb' hemb
  | tagged hskip hemb htag h _ ih =>
    cases h' with
    | skipped hskip' => exact absurd hskip' hskip
    | named _ hemb' => exact absurd hemb hemb'
    | tagged _ _ _ h' hfs' => rw [h.unique h', ih hfs']
    | inlined _ _ htag' => exact absurd htag htag'
    | wrapped _ _ htag' => exact absurd htag htag'
  | inlined hskip hemb htag h hd _ _ ihinner ih =>
    cases h' with
    | skipped hskip' => exact absurd hskip' hskip
    | named _ hemb' => exact absurd hemb hemb'
    | tagged _ _ htag' => exact absurd htag' htag
    | inlined _ _ _ h' hd' hinner' hfs' =>
      obtain ⟨rfl, rfl⟩ := hd.eq_of_key hd' (DataType.struct.inj (h.unique h'))
      obtain ⟨rfl, hsource⟩ := hd.unique hd'
      cases hsource
      rw [ihinner hinner', ih hfs']
    | wrapped _ _ _ ht' h' => exact absurd (h'.unique h) (ht' _)
  | wrapped hskip hemb htag ht h _ ih =>
    cases h' with
    | skipped hskip' => exact absurd hskip' hskip
    | named _ hemb' => exact absurd hemb hemb'
    | tagged _ _ htag' => exact absurd htag' htag
    | inlined _ _ _ h' => exact absurd (h.unique h') (ht _)
    | wrapped _ _ _ _ h' hfs' => rw [h.unique h', ih hfs']

/-- What one field and the fields after it contribute. -/
lemma Flattens.cons {site : Site} {f : Field} {fs : List Field} {gs gs' : List StructField}
    (h : Flattens c names site [f] gs) (h' : Flattens c names site fs gs') :
    Flattens c names site (f :: fs) (gs ++ gs') := by
  cases h with
  | skipped hskip hnil =>
    cases hnil
    exact .skipped hskip h'
  | named hskip hemb ht hnil =>
    cases hnil
    rw [List.append_nil]
    exact .named hskip hemb ht h'
  | tagged hskip hemb htag ht hnil =>
    cases hnil
    exact .tagged hskip hemb htag ht h'
  | inlined hskip hemb htag ht hd hinner hnil =>
    cases hnil
    rw [List.append_nil]
    exact .inlined hskip hemb htag ht hd hinner h'
  | wrapped hskip hemb htag ht hwritten hnil =>
    cases hnil
    exact .wrapped hskip hemb htag ht hwritten h'

end GoService.Resolution
