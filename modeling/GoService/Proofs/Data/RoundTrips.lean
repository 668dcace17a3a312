import GoService.Proofs.Data.Spellings

/-!
# Written and read again

What is written of a type is read again as the same type, and what is written of tags, annotations,
a field or a struct as the same but for the order of the entries; this holds also when the members
of objects have come into another order. So different types are written differently, and nothing is
read but what spells a value (`codec_faithful`).
-/

namespace GoService

/-! ## The order of members -/

/-- The value with the members of its objects, at any depth, in some order. -/
inductive Json.Reordered : Json → Json → Prop where
  | refl (j : Json) : Reordered j j
  | array {es es' : List Json} (h : List.Forall₂ Reordered es es') :
    Reordered (.array es) (.array es')
  | object {ms ms' : List (String × Json)} (hnames : (ms.map Prod.fst).Perm (ms'.map Prod.fst))
    (hvalues : ∀ name v v', (name, v) ∈ ms → (name, v') ∈ ms' → Reordered v v') :
    Reordered (.object ms) (.object ms')

/-- The dictionaries are the same as maps. -/
def Dict.Same {α : Type} (d d' : Dict α) : Prop :=
  ∀ key, d.get? key = d'.get? key

namespace Json.Reordered

variable {j v : Json} {s : String} {b : Bool} {es : List Json} {ms : List (String × Json)}

/-- A text has no members that could be reordered. -/
lemma eq_string (h : Reordered (.string s) j) : j = .string s := by
  cases h
  rfl

/-- A truth value has no members that could be reordered. -/
lemma eq_bool (h : Reordered (.bool b) j) : j = .bool b := by
  cases h
  rfl

/-- The elements of an array stay in their order, each of them reordered. -/
lemma exists_array (h : Reordered (.array es) j) :
    ∃ es', j = .array es' ∧ List.Forall₂ Reordered es es' := by
  cases h with
  | refl => exact ⟨es, rfl, List.forall₂_same.2 fun e _ => .refl e⟩
  | array h => exact ⟨_, rfl, h⟩

/-- An array of texts has no members that could be reordered. -/
lemma eq_array_string {ss : List String} (h : Reordered (.array (ss.map .string)) j) :
    j = .array (ss.map .string) := by
  obtain ⟨es, rfl, hes⟩ := h.exists_array
  rw [List.forall₂_map_left_iff] at hes
  have hsame : List.Forall₂ (fun e s => e = .string s) es ss :=
    (hes.imp fun _ _ h => h.eq_string).flip
  rw [← List.forall₂_map_right_iff (f := Json.string), List.forall₂_eq_eq_eq] at hsame
  rw [hsame]

/-- An object has the same names in another order, and at each of them the value as before, it may
be reordered. -/
lemma exists_object (h : Reordered (.object ms) j) : ∃ ms', j = .object ms' ∧
    (∀ name, ms.lookup name = none → ms'.lookup name = none) ∧
    ∀ name v, ms.lookup name = some v → ∃ v', ms'.lookup name = some v' ∧ Reordered v v' := by
  cases h with
  | refl => exact ⟨ms, rfl, fun _ h => h, fun _ v h => ⟨v, h, .refl v⟩⟩
  | @object _ ms' hnames hvalues =>
    have hmem (ms : List (String × Json)) (name : String) :
        (ms.lookup name).isSome ↔ name ∈ ms.map Prod.fst :=
      Dict.isSome_lookup_iff
    refine ⟨ms', rfl, fun name h => ?_, fun name v h => ?_⟩
    · rw [← Option.not_isSome_iff_eq_none, hmem] at h ⊢
      rwa [← hnames.mem_iff]
    · have hname : name ∈ ms'.map Prod.fst := by
        rw [← hnames.mem_iff, ← hmem, h]
        rfl
      obtain ⟨v', hv'⟩ := Option.isSome_iff_exists.1 ((hmem ms' name).2 hname)
      exact ⟨v', hv', hvalues name v v' (Dict.mem_of_lookup h)
        (Dict.mem_of_lookup hv')⟩

end Json.Reordered

namespace Data

variable {j v : Json} {fields : List String} {name : String} {ms : List (String × Json)}

/-- A field of an object is there when the members are in another order. -/
lemma exists_hasField (name : String) (h : Json.Reordered (.object ms) j)
    (hv : ms.lookup name = some v) :
    ∃ v', HasField fields j name v' ∧ Json.Reordered v v' := by
  obtain ⟨ms', rfl, -, hvalues⟩ := h.exists_object
  obtain ⟨v', hv', hsame⟩ := hvalues name v hv
  exact ⟨v', .member hv', hsame⟩

/-- A field with a text is there when the members are in another order. -/
lemma hasField_string {s : String} (h : Json.Reordered (.object ms) j)
    (hv : ms.lookup name = some (.string s)) : HasField fields j name (.string s) := by
  obtain ⟨v', hv', hsame⟩ := exists_hasField name h hv
  rwa [← hsame.eq_string]

/-- A field with a truth value is there when the members are in another order. -/
lemma hasField_bool {b : Bool} (h : Json.Reordered (.object ms) j)
    (hv : ms.lookup name = some (.bool b)) : HasField fields j name (.bool b) := by
  obtain ⟨v', hv', hsame⟩ := exists_hasField name h hv
  rwa [← hsame.eq_bool]

/-- A documentation that is left out when it is empty is there when the members are in another
order. -/
lemma hasDoc {doc : String} (h : Json.Reordered (.object ms) j)
    (hv : ms.lookup "doc" = if doc.isEmpty then none else some (.string doc)) :
    HasDoc fields j doc := by
  split at hv
  · next hdoc =>
    obtain ⟨ms', rfl, hnone, -⟩ := h.exists_object
    refine .inr ⟨String.isEmpty_iff.1 hdoc, fun v hv' => ?_⟩
    cases hv' with
    | member hv' => cases (hnone _ hv).symm.trans hv'
  · exact .inl (hasField_string h hv)

/-! ## Types -/

namespace DataType

/-- The kind of a type is there when the members are in another order. -/
lemma hasKind {inner : Bool} {k : Kind} (h : Json.Reordered (.object ms) j)
    (hkind : ms.lookup "kind" = some (.string k.name)) : HasKind inner j k j := by
  obtain ⟨ms', rfl, -, hvalues⟩ := h.exists_object
  obtain ⟨v', hv', hsame⟩ := hvalues _ _ hkind
  refine .member hv' ?_
  rw [hsame.eq_string]
  exact .name k

/-- What is written of a type spells it. -/
lemma spelt_of_reordered {t : DataType} {inner : Bool} (h : t.toJson.Reordered j) :
    Spelt inner j t := by
  induction t generalizing inner j with
  | builtin b => exact .builtin (hasKind h rfl) (hasField_string h rfl) (.text _)
  | struct key => exact .struct (hasKind h rfl) (hasField_string h rfl)
  | pointer elem ih =>
    obtain ⟨v, hv, helem⟩ := exists_hasField "elem" h rfl
    exact .pointer (hasKind h rfl) hv (ih helem)
  | array elem ih =>
    obtain ⟨v, hv, helem⟩ := exists_hasField "elem" h rfl
    exact .array (hasKind h rfl) hv (ih helem)
  | map key value ih =>
    obtain ⟨v, hv, hvalue⟩ := exists_hasField "value" h rfl
    exact .map (hasKind h rfl) (hasField_string h rfl) (.text _) hv (ih hvalue)
  | wellKnown w => exact .wellKnown (hasKind h rfl) (hasField_string h rfl) (.text _)

end DataType

/-! ## Tags and annotations -/

section

variable {α : Type} {write : α → Json}

/-- Members that are entries with written values are so in any other order. -/
lemma exists_rows {ms : List (String × Json)} (h : ∀ m ∈ ms, ∃ a, m.2 = write a) :
    ∃ rows : List (String × α), ms = rows.map fun row => (row.1, write row.2) := by
  induction ms with
  | nil => exact ⟨[], rfl⟩
  | cons m ms ih =>
    obtain ⟨⟨a, ha⟩, hms⟩ := List.forall_mem_cons.1 h
    obtain ⟨rows, rfl⟩ := ih hms
    exact ⟨(m.1, a) :: rows, by rw [List.map_cons, ← ha]⟩

/-- What is written of a dictionary has, in any order, its keys and at each of them its value. -/
lemma exists_members (hfixed : ∀ a v, Json.Reordered (write a) v → v = write a) {d : Dict α}
    (h : Json.Reordered (.object (d.entries.map fun e => (e.1, write e.2))) j) :
    ∃ ms, j = .object ms ∧ d.keys.Perm (ms.map Prod.fst) ∧
      ∀ m ∈ ms, ∃ a, (m.1, a) ∈ d.entries ∧ m.2 = write a := by
  have hkeys : (d.entries.map fun e => (e.1, write e.2)).map Prod.fst = d.keys := by
    rw [List.map_map]
    rfl
  cases h with
  | refl =>
    refine ⟨_, rfl, .of_eq hkeys.symm, fun m hm => ?_⟩
    obtain ⟨e, he, rfl⟩ := List.mem_map.1 hm
    exact ⟨e.2, he, rfl⟩
  | @object _ ms hnames hvalues =>
    rw [hkeys] at hnames
    refine ⟨ms, rfl, hnames, fun m hm => ?_⟩
    obtain ⟨e, he, hname⟩ := List.mem_map.1 (hnames.mem_iff.2 (List.mem_map_of_mem hm))
    have hvalue := hvalues m.1 (write e.2) m.2 (hname ▸ List.mem_map_of_mem he) hm
    exact ⟨e.2, hname ▸ he, hfixed _ _ hvalue⟩

/-- What is written of a dictionary spells the same one, where values are written unmistakably. -/
lemma speltDict_of_reordered (hwrite : Function.Injective write)
    (hfixed : ∀ a v, Json.Reordered (write a) v → v = write a) {d : Dict α}
    (h : Json.Reordered (.object (d.entries.map fun e => (e.1, write e.2))) j) :
    ∃ d', SpeltDict write j d' ∧ d.Same d' := by
  obtain ⟨ms, rfl, hkeys, hmembers⟩ := exists_members hfixed h
  obtain ⟨rows, rfl⟩ := exists_rows fun m hm => (hmembers m hm).imp fun a ha => ha.2
  rw [List.map_map] at hkeys
  have hrows : (Dict.ofEntries rows).entries = rows :=
    Dict.entries_ofEntries (hkeys.nodup_iff.1 d.distinct)
  have hmem {key : String} {a : α} (ha : (key, a) ∈ rows) : (key, a) ∈ d.entries := by
    obtain ⟨a', ha', heq⟩ := hmembers _ (List.mem_map_of_mem ha)
    obtain rfl : a = a' := hwrite heq
    exact ha'
  refine ⟨_, ⟨rows, rfl, rfl⟩, fun key => Option.ext fun a => ?_⟩
  rw [Dict.get?_eq_some_iff, Dict.get?_eq_some_iff, hrows]
  refine ⟨fun ha => ?_, hmem⟩
  -- the key has a value among the rows, and the dictionary has no other one for it
  obtain ⟨⟨key', a'⟩, ha', hkey⟩ :=
    List.mem_map.1 (hkeys.mem_iff.1 (List.mem_map_of_mem (f := Prod.fst) ha))
  cases Dict.eq_of_mem_entries (hmem ha') ha hkey
  exact ha'

end

/-- Different values of a tag are written differently. -/
lemma tagValue_injective : Function.Injective tagValue := fun _ _ h =>
  List.map_injective_iff.2 (fun _ _ h => Json.string.inj h) (Json.array.inj h)

/-- What is written of tags spells the same ones. -/
lemma exists_speltDict_tags {t : Tags} (h : (tagsToJson t).Reordered j) :
    ∃ t', SpeltDict tagValue j t' ∧ t.Same t' :=
  speltDict_of_reordered tagValue_injective (fun _ _ h => h.eq_array_string) h

/-- What is written of annotations spells the same ones. -/
lemma exists_speltDict_annotations {a : Annotations} (h : (annotationsToJson a).Reordered j) :
    ∃ a', SpeltDict .string j a' ∧ a.Same a' :=
  speltDict_of_reordered (fun _ _ h => Json.string.inj h) (fun _ _ h => h.eq_string) h

/-! ## Fields and structs -/

/-- The fields are the same but for the order of their tags and annotations. -/
structure StructField.Same (f f' : StructField) : Prop where
  tags : f.tags.Same f'.tags
  annotations : f.annotations.Same f'.annotations
  rest : f' = { f with tags := f'.tags, annotations := f'.annotations }

/-- The structs are the same but for the order of tags and annotations. -/
structure Struct.Same (s s' : Struct) : Prop where
  fields : List.Forall₂ StructField.Same s.fields s'.fields
  annotations : s.annotations.Same s'.annotations
  rest : s' = { s with fields := s'.fields, annotations := s'.annotations }

/-- The member for the documentation is there unless the documentation is empty. -/
lemma lookup_docMember (doc : String) :
    (docMember doc).lookup "doc" = if doc.isEmpty then none else some (.string doc) := by
  rw [docMember]
  split <;> rfl

/-- What is written of a field spells the same one. -/
lemma StructField.spelt_of_reordered {f : StructField} (h : f.toJson.Reordered j) :
    ∃ f', Spelt j f' ∧ f.Same f' := by
  obtain ⟨vtype, hvtype, htype⟩ := exists_hasField "type" h rfl
  obtain ⟨vtags, hvtags, htags⟩ := exists_hasField "tags" h rfl
  obtain ⟨va, hva, hannotations⟩ := exists_hasField "annotations" h rfl
  obtain ⟨tags, htags, hsameTags⟩ := exists_speltDict_tags htags
  obtain ⟨annotations, hannotations, hsame⟩ := exists_speltDict_annotations hannotations
  refine ⟨{ f with tags := tags, annotations := annotations }, ?_, ⟨hsameTags, hsame, rfl⟩⟩
  exact {
    name := hasField_string h rfl
    jsonName := hasField_string h rfl
    type := ⟨vtype, hvtype, DataType.spelt_of_reordered htype⟩
    tags := ⟨vtags, hvtags, htags⟩
    annotations := ⟨va, hva, hannotations⟩
    exported := hasField_bool h rfl
    doc := hasDoc h (lookup_docMember f.doc) }

/-- What is written of fields spells the same ones. -/
lemma exists_spelt_fields {fs : List StructField} {es : List Json}
    (h : List.Forall₂ Json.Reordered (fs.map StructField.toJson) es) :
    ∃ fs', List.Forall₂ StructField.Spelt es fs' ∧ List.Forall₂ StructField.Same fs fs' := by
  induction fs generalizing es with
  | nil =>
    cases h
    exact ⟨[], .nil, .nil⟩
  | cons f fs ih =>
    obtain ⟨e, es, he, hes, rfl⟩ := List.forall₂_cons_left_iff.1 h
    obtain ⟨f', hf', hsame⟩ := f.spelt_of_reordered he
    obtain ⟨fs', hfs', hsames⟩ := ih hes
    exact ⟨f' :: fs', .cons hf' hfs', .cons hsame hsames⟩

/-- What is written of a struct spells the same one. -/
lemma Struct.spelt_of_reordered {s : Struct} (h : s.toJson.Reordered j) :
    ∃ s', Spelt j s' ∧ s.Same s' := by
  obtain ⟨vfields, hvfields, hfields⟩ := exists_hasField "fields" h rfl
  obtain ⟨va, hva, hannotations⟩ := exists_hasField "annotations" h rfl
  obtain ⟨es, rfl, hes⟩ := hfields.exists_array
  obtain ⟨fields, hfields, hsameFields⟩ := exists_spelt_fields hes
  obtain ⟨annotations, hannotations, hsame⟩ := exists_speltDict_annotations hannotations
  refine ⟨{ s with fields := fields, annotations := annotations }, ?_, ⟨hsameFields, hsame, rfl⟩⟩
  exact {
    package := hasField_string h rfl
    name := hasField_string h rfl
    fields := ⟨es, hvfields, hfields⟩
    annotations := ⟨va, hva, hannotations⟩
    exported := hasField_bool h rfl
    doc := hasDoc h (lookup_docMember s.doc) }

/-! ## The whole form -/

/-- A form is faithful: what is written of a value is read again as the same one, also when the
members of objects have come into another order, and what is read is what spells a value. -/
structure Faithful {α : Type} (same : α → α → Prop) (write : α → Json)
    (read : Json → Option α) (spelt : Json → α → Prop) : Prop where
  roundTrip : ∀ a j, (write a).Reordered j → ∃ a', read j = some a' ∧ same a a'
  read_iff : ∀ j a, read j = some a ↔ spelt j a

/-- The JSON forms of types, tags, annotations, fields and structs are faithful, and no two types
are written alike. -/
theorem codec_faithful :
    Faithful Eq DataType.toJson DataType.ofJson? (DataType.Spelt false) ∧
    Function.Injective DataType.toJson ∧
    Faithful Dict.Same tagsToJson tagsOfJson? (SpeltDict tagValue) ∧
    Faithful Dict.Same annotationsToJson annotationsOfJson? (SpeltDict .string) ∧
    Faithful StructField.Same StructField.toJson StructField.ofJson? StructField.Spelt ∧
    Faithful Struct.Same Struct.toJson Struct.ofJson? Struct.Spelt := by
  have htypes (t : DataType) {j : Json} (h : t.toJson.Reordered j) : DataType.ofJson? j = some t :=
    DataType.ofJson?_eq_some_iff.2 (DataType.spelt_of_reordered h)
  refine ⟨⟨fun t j h => ⟨t, htypes t h, rfl⟩, fun j t => DataType.ofJson?_eq_some_iff⟩,
    fun t t' heq => ?_, ⟨fun t j h => ?_, fun j t => tagsOfJson?_eq_some_iff⟩,
    ⟨fun a j h => ?_, fun j a => annotationsOfJson?_eq_some_iff⟩,
    ⟨fun f j h => ?_, fun j f => StructField.ofJson?_eq_some_iff⟩,
    ⟨fun s j h => ?_, fun j s => Struct.ofJson?_eq_some_iff⟩⟩
  · have hread := htypes t (.refl _)
    rw [heq, htypes t' (.refl _)] at hread
    exact (Option.some.inj hread).symm
  · obtain ⟨t', hspelt, hsame⟩ := exists_speltDict_tags h
    exact ⟨t', tagsOfJson?_eq_some_iff.2 hspelt, hsame⟩
  · obtain ⟨a', hspelt, hsame⟩ := exists_speltDict_annotations h
    exact ⟨a', annotationsOfJson?_eq_some_iff.2 hspelt, hsame⟩
  · obtain ⟨f', hspelt, hsame⟩ := f.spelt_of_reordered h
    exact ⟨f', StructField.ofJson?_eq_some_iff.2 hspelt, hsame⟩
  · obtain ⟨s', hspelt, hsame⟩ := s.spelt_of_reordered h
    exact ⟨s', Struct.ofJson?_eq_some_iff.2 hspelt, hsame⟩

/-- A struct with a field that has two tags. -/
def user : Struct :=
  ⟨"m/a", "User", [⟨"ID", "id", .pointer (.builtin .int64),
    .ofEntries [("json", ["id"]), ("db", ["key"])], .empty, true, ""⟩],
    .ofEntries [("title", "User")], true, "A user."⟩

/-- It is read again from what is written of it. -/
theorem user_read_again : ∃ s, Struct.ofJson? user.toJson = some s ∧ user.Same s := by
  obtain ⟨-, -, -, -, -, hstructs⟩ := codec_faithful
  exact hstructs.roundTrip user _ (.refl _)

/-- A type is read from an array without the member for its kind, and the name in it from an
object. -/
theorem positional_type_read :
    let j : Json := .array [.string "well_known", .object [("any", .null)]]
    j.member? "kind" = none ∧ DataType.ofJson? j = some (.wellKnown .any) :=
  ⟨rfl, rfl⟩

end Data

end GoService
