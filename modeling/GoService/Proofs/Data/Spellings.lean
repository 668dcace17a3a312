import GoService.Data.Codec
import GoService.Proofs.Dictionaries

/-!
# What spells a type

The JSON values that spell a type, tags, annotations, a field or a struct, said without a look at
the reader: each field stands in a record with a value of its own shape, by its name in an object or
by its place in an array. The readers accept these values and no others, and read what is spelt
(`DataType.ofJson?_eq_some_iff`, `Struct.ofJson?_eq_some_iff`).
-/

namespace GoService.Json

/-! ## Nesting -/

variable {v : Json}

/-- An element of an array is not nested deeper than all of them. -/
lemma nesting_le_of_mem {es : List Json} (h : v ∈ es) : v.nesting ≤ nestingElems es := by
  induction es with
  | nil => cases h
  | cons e es ih =>
    rw [nestingElems]
    rcases List.mem_cons.1 h with rfl | h
    · exact Nat.le_max_left ..
    · exact (ih h).trans (Nat.le_max_right ..)

/-- A member of an object is not nested deeper than all of them. -/
lemma nesting_le_of_lookup {ms : List (String × Json)} {name : String}
    (h : ms.lookup name = some v) : v.nesting ≤ nestingMembers ms := by
  induction ms with
  | nil => cases h
  | cons m ms ih =>
    rw [Dict.lookup_cons_ite] at h
    rw [nestingMembers]
    split at h
    · cases h
      exact Nat.le_max_left ..
    · exact (ih h).trans (Nat.le_max_right ..)

end GoService.Json

namespace GoService.Data

/-! ## Records -/

/-- A value stands in a record at a field: as the member with the name of the field, or as the
element at its place. -/
inductive HasField (fields : List String) : Json → String → Json → Prop where
  | member {ms : List (String × Json)} {name : String} {v : Json} (h : ms.lookup name = some v) :
    HasField fields (.object ms) name v
  | element {es : List Json} {name : String} {v : Json} (i : Nat)
    (hlength : es.length ≤ fields.length) (hname : fields[i]? = some name)
    (hv : es[i]? = some v) : HasField fields (.array es) name v

variable {fields : List String} {j v : Json} {name s : String}

/-- What an array has at a field is the element at the index of the field. -/
lemma lookup_zip_eq_some_iff (hfields : fields.Nodup) {es : List Json} :
    (fields.zip es).lookup name = some v ↔ ∃ i : Nat, fields[i]? = some name ∧ es[i]? = some v := by
  induction fields generalizing es with
  | nil => simp
  | cons field fields ih =>
    obtain ⟨hnew, hfields⟩ := List.nodup_cons.1 hfields
    cases es with
    | nil => simp
    | cons e es =>
      rw [List.zip_cons_cons, Dict.lookup_cons_ite]
      by_cases hname : name = field
      · subst hname
        rw [if_pos rfl, Option.some.injEq]
        constructor
        · rintro rfl
          exact ⟨0, rfl, rfl⟩
        · rintro ⟨i, hi, hv⟩
          cases i with
          | zero => exact Option.some.inj hv
          -- the name does not come again, so nothing else is found under it
          | succ i => exact absurd (List.mem_of_getElem? (l := fields) (i := i) hi) hnew
      · rw [if_neg hname, ih hfields]
        constructor
        · rintro ⟨i, hi, hv⟩
          exact ⟨i + 1, hi, hv⟩
        · rintro ⟨i, hi, hv⟩
          cases i with
          | zero => exact absurd (Option.some.inj hi).symm hname
          | succ i => exact ⟨i, hi, hv⟩

namespace Record

variable {r : Record}

/-- What is read as the value of a field is what stands there. -/
lemma get?_eq_some_iff (hfields : fields.Nodup) (hr : ofJson? fields j = some r) :
    r.get? name = some v ↔ HasField fields j name v := by
  cases j with
  | object ms =>
    cases hr
    constructor
    · exact .member
    · intro h
      cases h with
      | member h => exact h
  | array es =>
    rw [ofJson?] at hr
    split at hr
    · next hlength =>
      cases hr
      rw [get?, lookup_zip_eq_some_iff hfields]
      constructor
      · rintro ⟨i, hname, hv⟩
        exact .element i hlength hname hv
      · intro h
        cases h with
        | element i _ hname hv => exact ⟨i, hname, hv⟩
    · cases hr
  | _ => cases hr

/-- A value with a field is a record. -/
lemma exists_of_hasField (h : HasField fields j name v) : ∃ r, ofJson? fields j = some r := by
  cases h with
  | member h => exact ⟨_, rfl⟩
  | element i hlength hname hv => exact ⟨_, if_pos hlength⟩

/-- A record has a text at a field exactly if the value has it there. -/
lemma string?_eq_some_iff (hfields : fields.Nodup) (hr : ofJson? fields j = some r) :
    r.string? name = some s ↔ HasField fields j name (.string s) := by
  rw [string?, Option.bind_eq_some_iff, ← get?_eq_some_iff hfields hr]
  constructor
  · rintro ⟨v, hv, hs⟩
    cases v with
    | string s' => rwa [← Option.some.inj hs]
    | _ => cases hs
  · exact fun h => ⟨_, h, rfl⟩

/-- A text that may be missing is empty where it is. -/
lemma stringOrEmpty?_eq_some_iff (hfields : fields.Nodup) (hr : ofJson? fields j = some r) :
    r.stringOrEmpty? name = some s ↔ HasField fields j name (.string s) ∨
      s = "" ∧ ∀ v, ¬ HasField fields j name v := by
  simp only [← get?_eq_some_iff hfields hr]
  rw [stringOrEmpty?]
  cases hget : r.get? name with
  | none => simp [eq_comm]
  | some v =>
    have hv : v.string? = some s ↔ v = .string s := by
      cases v with
      | string s' => simp [Json.string?]
      | _ => simp [Json.string?]
    simp [hv]

end Record

/-! ## Types -/

/-- A value stands for a name from a closed list: the name, or an object with it as the only member
and nothing in it. -/
inductive StandsFor : Json → String → Prop where
  | text (s : String) : StandsFor (.string s) s
  | withNull (s : String) : StandsFor (.object [(s, .null)]) s
  | withEmpty (s : String) : StandsFor (.object [(s, .object [])]) s

/-- A value stands for a name as a text or as an object with that single member. -/
lemma enumName?_eq_some_iff : enumName? j = some s ↔ StandsFor j s := by
  constructor
  · intro h
    rw [enumName?.eq_def] at h
    split at h
    · cases h
      exact .text s
    · cases h
      exact .withNull s
    · cases h
      exact .withEmpty s
    · cases h
  · intro h
    cases h with
    | text => rfl
    | withNull => rfl
    | withEmpty => rfl

/-- In a list in which each thing is found under its name, it is found under no other one. -/
lemma find?_name_eq_some_iff {α : Type} {name : α → String} {all : List α}
    (hall : ∀ a, all.find? (name · == name a) = some a) {a : α} :
    all.find? (name · == s) = some a ↔ s = name a := by
  constructor
  · intro h
    have hname := List.find?_some (p := fun a => name a == s) h
    exact (beq_iff_eq.1 hname).symm
  · rintro rfl
    exact hall a

/-- A builtin type is found exactly by its name. -/
lemma Builtin.ofName?_eq_some_iff {b : Builtin} : ofName? s = some b ↔ s = b.name :=
  find?_name_eq_some_iff fun b => by cases b <;> rfl

/-- A well-known type is found exactly by its name. -/
lemma WellKnown.ofName?_eq_some_iff {w : WellKnown} : ofName? s = some w ↔ s = w.name :=
  find?_name_eq_some_iff fun w => by cases w <;> rfl

namespace DataType

/-- A value names the kind of a type; inside another type a number does, too. -/
inductive NamesKind (inner : Bool) : Json → Kind → Prop where
  | name (k : Kind) : NamesKind inner (.string k.name) k
  | number {k : Kind} (n : Nat) (hinner : inner = true) (hk : Kind.all[n]? = some k) :
    NamesKind inner (.number n) k

variable {inner : Bool} {k : Kind}

/-- A kind is found by its name. -/
lemma Kind.find?_name (k : Kind) : all.find? (·.name == k.name) = some k := by
  cases k <;> rfl

/-- The kind that a value names, by name or inside a type by number. -/
lemma Kind.ofJson?_eq_some_iff : Kind.ofJson? inner j = some k ↔ NamesKind inner j k := by
  constructor
  · intro h
    cases j with
    | string s =>
      rw [(find?_name_eq_some_iff find?_name).1 h]
      exact .name k
    | number n =>
      rw [ofJson?] at h
      split at h
      · next hn =>
        rw [Bool.and_eq_true, decide_eq_true_iff] at hn
        rw [← Int.toNat_of_nonneg hn.2]
        exact .number n.toNat hn.1 h
      · cases h
    | _ => cases h
  · intro h
    cases h with
    | name => exact find?_name k
    | number n hinner hk =>
      rw [ofJson?, hinner, if_pos (by simp)]
      exact hk

/-- A value has a kind and, for the fields of the type, a body: an object with the member `kind` is
its own body, and an array goes on after its kind. -/
inductive HasKind (inner : Bool) : Json → Kind → Json → Prop where
  | member {ms : List (String × Json)} {k : Kind} {kind : Json} (h : ms.lookup "kind" = some kind)
    (hkind : NamesKind inner kind k) : HasKind inner (.object ms) k (.object ms)
  | element {es : List Json} {k : Kind} {kind : Json} (hkind : NamesKind inner kind k) :
    HasKind inner (.array (kind :: es)) k (.array es)

/-- The kind of a type and what has its fields are those of an object or of an array. -/
lemma kindAndFields?_eq_some_iff {body : Json} :
    kindAndFields? inner j = some (k, body) ↔ HasKind inner j k body := by
  constructor
  · intro h
    cases j with
    | object ms =>
      rw [kindAndFields?] at h
      simp only [Option.bind_eq_bind, Option.bind_eq_some_iff, Option.pure_def, Option.some.injEq]
        at h
      obtain ⟨kind, hkind, k', hk, heq⟩ := h
      cases heq
      exact .member hkind (Kind.ofJson?_eq_some_iff.1 hk)
    | array es =>
      cases es with
      | nil => cases h
      | cons kind es =>
        rw [kindAndFields?] at h
        simp only [Option.bind_eq_bind, Option.bind_eq_some_iff, Option.pure_def, Option.some.injEq]
          at h
        obtain ⟨k', hk, heq⟩ := h
        cases heq
        exact .element (Kind.ofJson?_eq_some_iff.1 hk)
    | _ => cases h
  · intro h
    cases h with
    | member h hkind =>
      rw [kindAndFields?, h]
      exact congrArg (Option.bind · _) (Kind.ofJson?_eq_some_iff.2 hkind)
    | element hkind => exact congrArg (Option.bind · _) (Kind.ofJson?_eq_some_iff.2 hkind)

/-- A value spells a type; `inner` says that it stands inside another one. -/
inductive Spelt : Bool → Json → DataType → Prop where
  | builtin {inner : Bool} {j body v : Json} {b : Builtin} (h : HasKind inner j .builtin body)
    (hv : HasField ["name"] body "name" v) (hb : StandsFor v b.name) : Spelt inner j (.builtin b)
  | struct {inner : Bool} {j body : Json} {key : String} (h : HasKind inner j .struct body)
    (hkey : HasField ["key"] body "key" (.string key)) : Spelt inner j (.struct key)
  | pointer {inner : Bool} {j body v : Json} {elem : DataType} (h : HasKind inner j .pointer body)
    (hv : HasField ["elem"] body "elem" v) (helem : Spelt true v elem) :
    Spelt inner j (.pointer elem)
  | array {inner : Bool} {j body v : Json} {elem : DataType} (h : HasKind inner j .array body)
    (hv : HasField ["elem"] body "elem" v) (helem : Spelt true v elem) :
    Spelt inner j (.array elem)
  | map {inner : Bool} {j body u v : Json} {key : Builtin} {value : DataType}
    (h : HasKind inner j .map body) (hu : HasField ["key", "value"] body "key" u)
    (hkey : StandsFor u key.name) (hv : HasField ["key", "value"] body "value" v)
    (hvalue : Spelt true v value) : Spelt inner j (.map key value)
  | wellKnown {inner : Bool} {j body v : Json} {w : WellKnown} (h : HasKind inner j .wellKnown body)
    (hv : HasField ["name"] body "name" v) (hw : StandsFor v w.name) :
    Spelt inner j (.wellKnown w)

section

variable {n : Nat} {t : DataType}

/-- A kind has no field twice. -/
lemma Kind.nodup_fields (k : Kind) : k.fields.Nodup := by
  cases k <;> simp [fields]

/-- What is read is spelt. -/
lemma spelt_of_ofJsonWithin (h : ofJsonWithin n inner j = some t) : Spelt inner j t := by
  induction n generalizing inner j t with
  | zero => cases h
  | succ n ih =>
    rw [ofJsonWithin] at h
    simp only [Option.bind_eq_bind, Option.bind_eq_some_iff, Option.pure_def] at h
    obtain ⟨⟨k, body⟩, hkind, r, hr, h⟩ := h
    have hkind := kindAndFields?_eq_some_iff.1 hkind
    dsimp only at hr h
    have hget {name : String} {v : Json} : r.get? name = some v ↔ HasField k.fields body name v :=
      Record.get?_eq_some_iff k.nodup_fields hr
    -- the kind alone decides which fields are read; a type in one of them has a step less
    cases k with
    | builtin =>
      simp only [Option.bind_eq_some_iff, hget, enumName?_eq_some_iff, Option.some.injEq,
        Builtin.ofName?_eq_some_iff, exists_eq_right] at h
      obtain ⟨b, ⟨v, hv, hb⟩, rfl⟩ := h
      exact .builtin hkind hv hb
    | struct =>
      simp only [Option.bind_eq_some_iff, Record.string?_eq_some_iff Kind.struct.nodup_fields hr,
        Option.some.injEq] at h
      obtain ⟨key, hkey, rfl⟩ := h
      exact .struct hkind hkey
    | pointer =>
      simp only [Option.bind_eq_some_iff, hget, Option.some.injEq] at h
      obtain ⟨elem, ⟨v, hv, helem⟩, rfl⟩ := h
      exact .pointer hkind hv (ih helem)
    | array =>
      simp only [Option.bind_eq_some_iff, hget, Option.some.injEq] at h
      obtain ⟨elem, ⟨v, hv, helem⟩, rfl⟩ := h
      exact .array hkind hv (ih helem)
    | map =>
      simp only [Option.bind_eq_some_iff, hget, enumName?_eq_some_iff, Option.some.injEq,
        Builtin.ofName?_eq_some_iff, exists_eq_right] at h
      obtain ⟨key, ⟨u, hu, hkey⟩, value, ⟨v, hv, hvalue⟩, rfl⟩ := h
      exact .map hkind hu hkey hv (ih hvalue)
    | wellKnown =>
      simp only [Option.bind_eq_some_iff, hget, enumName?_eq_some_iff, Option.some.injEq,
        WellKnown.ofName?_eq_some_iff] at h
      obtain ⟨v, hv, _, hw, w, rfl, rfl⟩ := h
      exact .wellKnown hkind hv hw

/-- The value of a field is nested less deep than the value of the type. -/
lemma HasKind.nesting_field_lt {body : Json} (h : HasKind inner j k body)
    (hv : HasField fields body name v) : v.nesting < j.nesting := by
  cases h with
  | member =>
    cases hv with
    | member hv => exact Nat.lt_succ_of_le (Json.nesting_le_of_lookup hv)
  | element =>
    cases hv with
    | element i _ _ hv =>
      exact Nat.lt_succ_of_le
        (Json.nesting_le_of_mem (List.mem_cons_of_mem _ (List.mem_of_getElem? hv)))

/-- Where a value has a kind and a field, there is a step to read it, and the fields are found. -/
lemma HasKind.exists_step {body : Json} (h : HasKind inner j k body)
    (hv : HasField k.fields body name v) (hn : j.nesting ≤ n) : ∃ n' r, n = n' + 1 ∧
      kindAndFields? inner j = some (k, body) ∧ Record.ofJson? k.fields body = some r ∧
      ∀ {name v}, HasField k.fields body name v → r.get? name = some v := by
  have hpos : 0 < j.nesting := by cases h <;> exact Nat.succ_pos _
  obtain ⟨n', hn'⟩ := Nat.exists_eq_succ_of_ne_zero (hpos.trans_le hn).ne'
  obtain ⟨r, hr⟩ := Record.exists_of_hasField hv
  exact ⟨n', r, hn', kindAndFields?_eq_some_iff.2 h, hr,
    (Record.get?_eq_some_iff k.nodup_fields hr).2⟩

/-- A type that is spelt is read, with as many steps as its value is deep. -/
lemma Spelt.ofJsonWithin_eq (h : Spelt inner j t) (hn : j.nesting ≤ n) :
    ofJsonWithin n inner j = some t := by
  induction h generalizing n with
  | builtin h hv hb =>
    obtain ⟨n, r, rfl, hkind, hr, hget⟩ := h.exists_step hv hn
    rw [ofJsonWithin, hkind]
    simp only [Option.bind_eq_bind, Option.bind_some, hr, hget hv, enumName?_eq_some_iff.2 hb,
      Builtin.ofName?_eq_some_iff.2 rfl, Option.pure_def]
  | struct h hkey =>
    obtain ⟨n, r, rfl, hkind, hr, hget⟩ := h.exists_step hkey hn
    rw [ofJsonWithin, hkind]
    simp only [Option.bind_eq_bind, Option.bind_some, hr, Record.string?, hget hkey, Json.string?,
      Option.pure_def]
  | pointer h hv _ ih =>
    obtain ⟨n, r, rfl, hkind, hr, hget⟩ := h.exists_step hv hn
    have hread := ih (Nat.le_of_lt_succ ((h.nesting_field_lt hv).trans_le hn))
    rw [ofJsonWithin, hkind]
    simp only [Option.bind_eq_bind, Option.bind_some, hr, hget hv, hread, Option.pure_def]
  | array h hv _ ih =>
    obtain ⟨n, r, rfl, hkind, hr, hget⟩ := h.exists_step hv hn
    have hread := ih (Nat.le_of_lt_succ ((h.nesting_field_lt hv).trans_le hn))
    rw [ofJsonWithin, hkind]
    simp only [Option.bind_eq_bind, Option.bind_some, hr, hget hv, hread, Option.pure_def]
  | map h hu hkey hv _ ih =>
    obtain ⟨n, r, rfl, hkind, hr, hget⟩ := h.exists_step hu hn
    have hread := ih (Nat.le_of_lt_succ ((h.nesting_field_lt hv).trans_le hn))
    rw [ofJsonWithin, hkind]
    simp only [Option.bind_eq_bind, Option.bind_some, hr, hget hu, hget hv, hread,
      enumName?_eq_some_iff.2 hkey, Builtin.ofName?_eq_some_iff.2 rfl, Option.pure_def]
  | wellKnown h hv hw =>
    obtain ⟨n, r, rfl, hkind, hr, hget⟩ := h.exists_step hv hn
    rw [ofJsonWithin, hkind]
    simp only [Option.bind_eq_bind, Option.bind_some, hr, hget hv, enumName?_eq_some_iff.2 hw,
      WellKnown.ofName?_eq_some_iff.2 rfl, Option.pure_def]

/-- The types that are read are those that are spelt. -/
theorem ofJson?_eq_some_iff : ofJson? j = some t ↔ Spelt false j t :=
  ⟨spelt_of_ofJsonWithin, fun h => h.ofJsonWithin_eq (Nat.le_refl _)⟩

end

end DataType

/-! ## Tags and annotations -/

section

variable {α : Type}

/-- An object spells a dictionary: its members are entries with written values, and the dictionary
has what was put in by these, one after another. -/
def SpeltDict (write : α → Json) (j : Json) (d : Dict α) : Prop :=
  ∃ rows : List (String × α), j = .object (rows.map fun row => (row.1, write row.2)) ∧
    d = .ofEntries rows

/-- A reader of members whose values are read back as they are written reads dictionaries. -/
lemma speltDict_iff {write : α → Json} {read : String × Json → Option (String × α)}
    (h : ∀ m row, read m = some row ↔ m = (row.1, write row.2)) {d : Dict α} :
    (∃ ms, j.object? = some ms ∧ ∃ rows, ms.mapM read = some rows ∧ Dict.ofEntries rows = d) ↔
      SpeltDict write j d := by
  simp only [mapM_eq_some_iff_map h]
  constructor
  · rintro ⟨ms, hj, rows, rfl, rfl⟩
    cases j with
    | object ms =>
      cases hj
      exact ⟨rows, rfl, rfl⟩
    | _ => cases hj
  · rintro ⟨rows, rfl, rfl⟩
    exact ⟨_, rfl, rows, rfl, rfl⟩

end

/-- The value of a tag as it is written. -/
def tagValue (parts : List String) : Json :=
  .array (parts.map .string)

/-- A value has a text exactly if it is one. -/
lemma string?_eq_some_iff : v.string? = some s ↔ v = .string s := by
  cases v with
  | string s' => simp [Json.string?]
  | _ => simp [Json.string?]

/-- Tags are read exactly of the values that spell them. -/
theorem tagsOfJson?_eq_some_iff {t : Tags} : tagsOfJson? j = some t ↔ SpeltDict tagValue j t := by
  have hread (m : String × Json) (row : String × List String) :
      (do let values ← (← m.2.array?).mapM Json.string?
          return (m.1, values) : Option (String × List String)) = some row ↔
        m = (row.1, tagValue row.2) := by
    obtain ⟨name, v⟩ := m
    obtain ⟨name', parts⟩ := row
    simp only [Option.bind_eq_bind, Option.bind_eq_some_iff, Option.pure_def, Option.some.injEq,
      mapM_eq_some_iff_map fun b a => string?_eq_some_iff, Prod.mk.injEq]
    cases v with
    | array es => simp [Json.array?, tagValue, and_comm]
    | _ => simp [Json.array?, tagValue]
  rw [← speltDict_iff hread, tagsOfJson?]
  simp only [Option.bind_eq_bind, Option.bind_eq_some_iff, Option.pure_def, Option.some.injEq]

/-- Annotations are read exactly of the values that spell them. -/
theorem annotationsOfJson?_eq_some_iff {a : Annotations} :
    annotationsOfJson? j = some a ↔ SpeltDict .string j a := by
  have hread (m : String × Json) (row : String × String) :
      (do return (m.1, ← m.2.string?) : Option (String × String)) = some row ↔
        m = (row.1, .string row.2) := by
    obtain ⟨name, v⟩ := m
    obtain ⟨name', s⟩ := row
    simp only [Option.bind_eq_bind, Option.bind_eq_some_iff, Option.pure_def, Option.some.injEq,
      string?_eq_some_iff, Prod.mk.injEq]
    constructor
    · rintro ⟨s, hs, rfl, rfl⟩
      exact ⟨rfl, hs⟩
    · rintro ⟨rfl, hs⟩
      exact ⟨s, hs, rfl, rfl⟩
  rw [← speltDict_iff hread, annotationsOfJson?]
  simp only [Option.bind_eq_bind, Option.bind_eq_some_iff, Option.pure_def, Option.some.injEq]

/-! ## Fields and structs -/

/-- A record has the documentation, or lacks it where that is empty. -/
def HasDoc (fields : List String) (j : Json) (doc : String) : Prop :=
  HasField fields j "doc" (.string doc) ∨ doc = "" ∧ ∀ v, ¬ HasField fields j "doc" v

/-- A value spells a field. -/
structure StructField.Spelt (j : Json) (f : StructField) : Prop where
  name : HasField recordFields j "name" (.string f.name)
  jsonName : HasField recordFields j "json_name" (.string f.jsonName)
  type : ∃ v, HasField recordFields j "type" v ∧ DataType.Spelt false v f.type
  tags : ∃ v, HasField recordFields j "tags" v ∧ SpeltDict tagValue v f.tags
  annotations : ∃ v, HasField recordFields j "annotations" v ∧ SpeltDict .string v f.annotations
  exported : HasField recordFields j "exported" (.bool f.exported)
  doc : HasDoc recordFields j f.doc

/-- A value spells a struct. -/
structure Struct.Spelt (j : Json) (s : Struct) : Prop where
  package : HasField recordFields j "package" (.string s.package)
  name : HasField recordFields j "name" (.string s.name)
  fields : ∃ es, HasField recordFields j "fields" (.array es) ∧
    List.Forall₂ StructField.Spelt es s.fields
  annotations : ∃ v, HasField recordFields j "annotations" v ∧ SpeltDict .string v s.annotations
  exported : HasField recordFields j "exported" (.bool s.exported)
  doc : HasDoc recordFields j s.doc

/-- A struct field has no field twice in its form. -/
lemma StructField.nodup_recordFields : recordFields.Nodup := by
  simp [recordFields]

/-- A struct has no field twice in its form. -/
lemma Struct.nodup_recordFields : recordFields.Nodup := by
  simp [recordFields]

/-- A value has a truth value exactly if it is one. -/
lemma bool?_eq_some_iff {b : Bool} : v.bool? = some b ↔ v = .bool b := by
  cases v with
  | bool b' => simp [Json.bool?]
  | _ => simp [Json.bool?]

/-- A value has elements exactly if it is an array of them. -/
lemma array?_eq_some_iff {es : List Json} : v.array? = some es ↔ v = .array es := by
  cases v with
  | array es' => simp [Json.array?]
  | _ => simp [Json.array?]

/-- The fields that are read are those that are spelt. -/
theorem StructField.ofJson?_eq_some_iff {f : StructField} : ofJson? j = some f ↔ Spelt j f := by
  have hnodup := nodup_recordFields
  rw [ofJson?]
  cases hr : Record.ofJson? recordFields j with
  | none =>
    -- no record, and so no name either
    refine iff_of_false (fun h => by cases h) fun h => ?_
    obtain ⟨r, hr'⟩ := Record.exists_of_hasField h.name
    cases hr.symm.trans hr'
  | some r =>
    simp only [Option.bind_eq_bind, Option.bind_some, Option.bind_eq_some_iff, Option.pure_def,
      Option.some.injEq, Record.string?_eq_some_iff hnodup hr, Record.get?_eq_some_iff hnodup hr,
      Record.stringOrEmpty?_eq_some_iff hnodup hr, DataType.ofJson?_eq_some_iff,
      tagsOfJson?_eq_some_iff, annotationsOfJson?_eq_some_iff, bool?_eq_some_iff]
    constructor
    · rintro ⟨name, hname, jsonName, hjsonName, vtype, hvtype, type, htype, vtags, hvtags, tags,
        htags, va, hva, annotations, hannotations, vexported, hexported, exported, rfl, doc, hdoc,
        rfl⟩
      exact ⟨hname, hjsonName, ⟨vtype, hvtype, htype⟩, ⟨vtags, hvtags, htags⟩,
        ⟨va, hva, hannotations⟩, hexported, hdoc⟩
    · rintro ⟨hname, hjsonName, ⟨vtype, hvtype, htype⟩, ⟨vtags, hvtags, htags⟩,
        ⟨va, hva, hannotations⟩, hexported, hdoc⟩
      exact ⟨_, hname, _, hjsonName, vtype, hvtype, _, htype, vtags, hvtags, _, htags, va, hva, _,
        hannotations, _, hexported, _, rfl, _, hdoc, rfl⟩

/-- The structs that are read are those that are spelt. -/
theorem Struct.ofJson?_eq_some_iff {s : Struct} : ofJson? j = some s ↔ Spelt j s := by
  have hnodup := nodup_recordFields
  rw [ofJson?]
  cases hr : Record.ofJson? recordFields j with
  | none =>
    refine iff_of_false (fun h => by cases h) fun h => ?_
    obtain ⟨r, hr'⟩ := Record.exists_of_hasField h.name
    cases hr.symm.trans hr'
  | some r =>
    simp only [Option.bind_eq_bind, Option.bind_some, Option.bind_eq_some_iff, Option.pure_def,
      Option.some.injEq, Record.string?_eq_some_iff hnodup hr, Record.get?_eq_some_iff hnodup hr,
      Record.stringOrEmpty?_eq_some_iff hnodup hr, mapM_eq_some_iff,
      StructField.ofJson?_eq_some_iff, annotationsOfJson?_eq_some_iff, bool?_eq_some_iff,
      array?_eq_some_iff]
    constructor
    · rintro ⟨package, hpackage, name, hname, vfields, hvfields, es, rfl, fields, hfields, va, hva,
        annotations, hannotations, vexported, hexported, exported, rfl, doc, hdoc, rfl⟩
      exact ⟨hpackage, hname, ⟨es, hvfields, hfields⟩, ⟨va, hva, hannotations⟩, hexported, hdoc⟩
    · rintro ⟨hpackage, hname, ⟨es, hvfields, hfields⟩, ⟨va, hva, hannotations⟩, hexported, hdoc⟩
      exact ⟨_, hpackage, _, hname, _, hvfields, es, rfl, _, hfields, va, hva, _, hannotations, _,
        hexported, _, rfl, _, hdoc, rfl⟩

end GoService.Data
