/-!
# Dictionaries in insertion order

A `Dict` maps strings to values and remembers the order in which its keys first came. Writing a key
that is present replaces its value and leaves its place. The keys are distinct, which the structure
itself says (`Dict.distinct`), so every entry is found at its key.
-/

namespace GoService

/-- Values by key, in the order in which the keys came. -/
@[ext]
structure Dict (α : Type u) where
  entries : List (String × α)
  /-- No key has two entries. -/
  distinct : (entries.map Prod.fst).Nodup
  deriving DecidableEq

namespace Dict

variable {α : Type u}

/-- The dictionary without entries. -/
def empty : Dict α := ⟨[], List.nodup_nil⟩

instance : Inhabited (Dict α) := ⟨empty⟩

/-- The keys in their order. -/
def keys (d : Dict α) : List String :=
  d.entries.map Prod.fst

/-- The number of entries. -/
def size (d : Dict α) : Nat :=
  d.entries.length

/-- Whether there is no entry. -/
def isEmpty (d : Dict α) : Bool :=
  d.entries.isEmpty

/-- The value at a key. -/
def get? (d : Dict α) (key : String) : Option α :=
  d.entries.lookup key

/-- Whether the key has a value. -/
def contains (d : Dict α) (key : String) : Bool :=
  (d.get? key).isSome

/-! ## Writing one entry -/

/-- Writes a key into entries: over its value if it has one, else at the end. -/
def put (key : String) (value : α) : List (String × α) → List (String × α)
  | [] => [(key, value)]
  | e :: es => if e.1 = key then (key, value) :: es else e :: put key value es

/-- A key that has no entry is written at the end. -/
theorem put_of_not_mem {key : String} {value : α} {es : List (String × α)}
    (h : key ∉ es.map Prod.fst) : put key value es = es ++ [(key, value)] := by
  induction es with
  | nil => rfl
  | cons e es ih =>
    simp only [List.map_cons, List.mem_cons, not_or] at h
    simp [put, Ne.symm h.1, ih h.2]

/-- Writing over a value leaves the keys. -/
theorem map_fst_put_of_mem {key : String} {value : α} {es : List (String × α)}
    (h : key ∈ es.map Prod.fst) : (put key value es).map Prod.fst = es.map Prod.fst := by
  induction es with
  | nil => simp at h
  | cons e es ih =>
    simp only [put]
    split
    · next he => simp [he]
    · next he =>
      simp only [List.map_cons, List.mem_cons] at h
      simp [ih (h.resolve_left (fun h => he h.symm))]

/-- A written key keeps its place, a new one comes last. -/
theorem map_fst_put (key : String) (value : α) (es : List (String × α)) :
    (put key value es).map Prod.fst =
      if key ∈ es.map Prod.fst then es.map Prod.fst else es.map Prod.fst ++ [key] := by
  split
  · next h => exact map_fst_put_of_mem h
  · next h => rw [put_of_not_mem h, List.map_append, List.map_singleton]

/-- Keys stay distinct when one is written. -/
theorem nodup_map_fst_put {es : List (String × α)} (h : (es.map Prod.fst).Nodup) (key : String)
    (value : α) : ((put key value es).map Prod.fst).Nodup := by
  rw [map_fst_put]
  split
  · exact h
  · next hk =>
    rw [List.nodup_append]
    refine ⟨h, by simp, ?_⟩
    rintro a ha b hb rfl
    simp only [List.mem_singleton] at hb
    exact hk (hb ▸ ha)

/-- Writes a key: over its value if it has one, else behind the others. -/
def insert (d : Dict α) (key : String) (value : α) : Dict α :=
  ⟨put key value d.entries, nodup_map_fst_put d.distinct key value⟩

/-- The entries after writing are those with the key written into them. -/
@[simp]
theorem entries_insert (d : Dict α) (key : String) (value : α) :
    (d.insert key value).entries = put key value d.entries :=
  rfl

/-! ## Writing many entries -/

/-- Writes entries into a dictionary, one after another. -/
def insertAll (d : Dict α) (es : List (String × α)) : Dict α :=
  es.foldl (fun d e => d.insert e.1 e.2) d

/-- The dictionary with the entries of another written over it. -/
def merge (d other : Dict α) : Dict α :=
  d.insertAll other.entries

/-- The dictionary into which entries are written one after another. -/
def ofEntries (es : List (String × α)) : Dict α :=
  empty.insertAll es

/-- The first entries. -/
def take (d : Dict α) (n : Nat) : Dict α :=
  ⟨d.entries.take n, d.distinct.sublist ((List.take_sublist ..).map _)⟩

/-- The entries in the order of their keys. -/
def sortedByKey (d : Dict α) : Dict α :=
  ⟨d.entries.mergeSort fun a b => decide (a.1 ≤ b.1),
    (((List.mergeSort_perm ..).map _).nodup_iff).2 d.distinct⟩

/-! ## What is found -/

/-- A written key keeps its place, a new one comes last. -/
theorem keys_insert (d : Dict α) (key : String) (value : α) :
    (d.insert key value).keys = if key ∈ d.keys then d.keys else d.keys ++ [key] :=
  map_fst_put ..

/-- The first entry has the value, if it is at the key. -/
theorem lookup_cons_ite (k : String) (e : String × α) (es : List (String × α)) :
    (e :: es).lookup k = if k = e.1 then some e.2 else es.lookup k := by
  obtain ⟨key, value⟩ := e
  rw [List.lookup_cons]
  by_cases h : k = key
  · simp [h]
  · simp [beq_false_of_ne h, h]

/-- Reading entries after writing one. -/
theorem lookup_put (key k : String) (value : α) (es : List (String × α)) :
    (put key value es).lookup k = if k = key then some value else es.lookup k := by
  induction es with
  | nil => simp [put, lookup_cons_ite]
  | cons e es ih =>
    simp only [put]
    split
    · next he => grind [lookup_cons_ite]
    · next he => grind [lookup_cons_ite]

/-- Something is found exactly at the keys. -/
theorem isSome_lookup_iff {es : List (String × α)} {key : String} :
    (es.lookup key).isSome ↔ key ∈ es.map Prod.fst := by
  induction es with
  | nil => simp
  | cons e es ih =>
    rw [lookup_cons_ite]
    by_cases h : key = e.1
    · simp [h]
    · simp [h, ih]

/-- What is found at a key is an entry. -/
theorem mem_of_lookup {es : List (String × α)} {key : String} {value : α}
    (h : es.lookup key = some value) : (key, value) ∈ es := by
  obtain ⟨l₁, l₂, heq, -⟩ := List.lookup_eq_some_iff.1 h
  rw [heq]
  simp

/-- An entry after writing is the written one or an old one. -/
theorem mem_put {key : String} {value : α} {es : List (String × α)} {e : String × α}
    (h : e ∈ put key value es) : e = (key, value) ∨ e ∈ es := by
  induction es with
  | nil => exact .inl (List.mem_singleton.1 h)
  | cons e' es ih =>
    simp only [put] at h
    split at h
    · exact (List.mem_cons.1 h).imp_right (List.mem_cons_of_mem _)
    · rcases List.mem_cons.1 h with rfl | h
      · exact .inr (List.mem_cons_self ..)
      · exact (ih h).imp_right (List.mem_cons_of_mem _)

/-- Writing over the first entry at a key leaves the others. -/
theorem put_append_cons {key : String} {value old : α} {es fs : List (String × α)}
    (h : key ∉ es.map Prod.fst) :
    put key value (es ++ (key, old) :: fs) = es ++ (key, value) :: fs := by
  induction es with
  | nil => simp [put]
  | cons e es ih =>
    simp only [List.map_cons, List.mem_cons, not_or] at h
    simp [put, Ne.symm h.1, ih h.2]

/-- An entry of a dictionary after writing is the written one or an old one. -/
theorem mem_entries_insert {d : Dict α} {key : String} {value : α} {e : String × α}
    (h : e ∈ (d.insert key value).entries) : e = (key, value) ∨ e ∈ d.entries :=
  mem_put h

/-- An entry after writing many is an old one or one of them. -/
theorem mem_entries_insertAll {d : Dict α} {es : List (String × α)} {e : String × α}
    (h : e ∈ (d.insertAll es).entries) : e ∈ d.entries ∨ e ∈ es := by
  induction es generalizing d with
  | nil => exact .inl h
  | cons e' es ih =>
    rcases ih h with h | h
    · rcases mem_entries_insert h with rfl | h
      · exact .inr (List.mem_cons_self ..)
      · exact .inl h
    · exact .inr (List.mem_cons_of_mem _ h)

/-- A dictionary has only entries that were written into it. -/
theorem mem_entries_ofEntries {es : List (String × α)} {e : String × α}
    (h : e ∈ (ofEntries es).entries) : e ∈ es :=
  (mem_entries_insertAll h).resolve_left List.not_mem_nil

/-- A key that is written is among the keys, and so are the keys before it. -/
theorem mem_keys_insert {d : Dict α} {key k : String} {value : α} :
    k ∈ (d.insert key value).keys ↔ k = key ∨ k ∈ d.keys := by
  rw [keys_insert]
  split
  · next h =>
    constructor
    · exact .inr
    · rintro (rfl | hk)
      · exact h
      · exact hk
  · simp [or_comm]

/-- The keys after writing many entries are the old ones and theirs. -/
theorem mem_keys_insertAll {d : Dict α} {es : List (String × α)} {k : String} :
    k ∈ (d.insertAll es).keys ↔ k ∈ d.keys ∨ k ∈ es.map Prod.fst := by
  induction es generalizing d with
  | nil => simp [insertAll]
  | cons e es ih =>
    have hrest : k ∈ (d.insertAll (e :: es)).keys ↔ _ := ih (d := d.insert e.1 e.2)
    rw [hrest, mem_keys_insert, List.map_cons, List.mem_cons, or_assoc, or_left_comm]

/-- The key of every entry that is written is among the keys. -/
theorem mem_keys_ofEntries {es : List (String × α)} {e : String × α} (h : e ∈ es) :
    e.1 ∈ (ofEntries es).keys :=
  mem_keys_insertAll.2 (.inr (List.mem_map_of_mem h))

/-- Sorting leaves the entries. -/
theorem mem_entries_sortedByKey {d : Dict α} {e : String × α} :
    e ∈ d.sortedByKey.entries ↔ e ∈ d.entries :=
  List.mem_mergeSort

/-- What a dictionary has at a key is an entry of it. -/
theorem mem_of_get? {d : Dict α} {key : String} {value : α} (h : d.get? key = some value) :
    (key, value) ∈ d.entries :=
  mem_of_lookup h

/-- A key has a value exactly if it is among the keys. -/
theorem contains_iff_mem_keys {d : Dict α} {key : String} : d.contains key ↔ key ∈ d.keys :=
  isSome_lookup_iff

/-- Reading after writing. -/
theorem get?_insert (d : Dict α) (key k : String) (value : α) :
    (d.insert key value).get? k = if k = key then some value else d.get? k :=
  lookup_put key k value d.entries

end Dict

/-! ## Keys that are left -/

/-- The more keys are seen, the fewer are left. -/
theorem countP_notMem_le {seen seen' : List String} (h : seen ⊆ seen') (keys : List String) :
    keys.countP (· ∉ seen') ≤ keys.countP (· ∉ seen) :=
  List.countP_mono_left fun k _ hk => by
    rw [decide_eq_true_eq] at hk ⊢
    exact fun hmem => hk (h hmem)

/-- A key that is seen for the first time is no longer left. -/
theorem countP_notMem_cons_lt {keys : List String} {key : String} {seen : List String}
    (hm : key ∈ keys) (hs : key ∉ seen) :
    keys.countP (· ∉ key :: seen) < keys.countP (· ∉ seen) := by
  induction keys with
  | nil => simp at hm
  | cons k ks ih =>
    have hle := countP_notMem_le (List.subset_cons_self key seen) ks
    by_cases hk : k = key
    · subst hk
      rw [List.countP_cons_of_neg (by simp), List.countP_cons_of_pos (by simpa using hs)]
      omega
    · have hlt := ih ((List.mem_cons.1 hm).resolve_left fun h => hk h.symm)
      by_cases hks : k ∈ seen
      · rwa [List.countP_cons_of_neg (by simp [hks]), List.countP_cons_of_neg (by simp [hks])]
      · rw [List.countP_cons_of_pos (by simp [hk, hks]), List.countP_cons_of_pos (by simp [hks])]
        omega

end GoService
