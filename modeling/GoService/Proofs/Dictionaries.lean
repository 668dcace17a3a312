import GoService.Dict
import GoService.Proofs.Lists
import Mathlib.Data.List.Nodup
import Mathlib.Data.List.Perm.Subperm
import Mathlib.Data.List.Induction
import Mathlib.Data.String.Basic

/-!
# Dictionaries that are written entry by entry

Writing entries one after another keeps the last value of each key (`get?_ofEntries`), so a
dictionary has all that was written exactly if the keys were distinct (`size_ofEntries_iff`).
Sorting by key changes nothing but the order (`get?_sortedByKey`, `keys_sortedByKey`).
-/

namespace GoService.Dict

variable {α : Type u}

/-- Entries can be written in two parts. -/
lemma insertAll_append (d : Dict α) (es fs : List (String × α)) :
    d.insertAll (es ++ fs) = (d.insertAll es).insertAll fs :=
  List.foldl_append

/-- The last entry is written over the dictionary of the others. -/
lemma ofEntries_append (es : List (String × α)) (e : String × α) :
    ofEntries (es ++ [e]) = (ofEntries es).insert e.1 e.2 :=
  insertAll_append empty es [e]

/-- The value of a key is the one that was written last. -/
lemma get?_ofEntries (es : List (String × α)) (key : String) :
    (ofEntries es).get? key = ((es.filter (·.1 == key)).map Prod.snd).getLast? := by
  induction es using List.reverseRecOn with
  | nil => rfl
  | append_singleton es e ih =>
    rw [ofEntries_append, get?_insert, List.filter_append, List.map_append]
    by_cases h : key = e.1
    · subst h
      simp
    · have hne : (e.1 == key) = false := beq_false_of_ne (Ne.symm h)
      rw [if_neg h, ih]
      simp [hne]

/-- Entries with distinct keys are all there. -/
lemma entries_ofEntries {es : List (String × α)} (h : (es.map Prod.fst).Nodup) :
    (ofEntries es).entries = es := by
  induction es using List.reverseRecOn with
  | nil => rfl
  | append_singleton es e ih =>
    rw [List.map_append, List.nodup_append] at h
    obtain ⟨hes, -, hdisjoint⟩ := h
    have hnew : e.1 ∉ es.map Prod.fst := fun hmem => hdisjoint _ hmem _ (by simp) rfl
    rw [ofEntries_append, entries_insert, ih hes]
    exact put_of_not_mem hnew

/-- A dictionary has as many entries as were written exactly if no key was written twice. -/
lemma size_ofEntries_iff (es : List (String × α)) :
    (ofEntries es).size = es.length ↔ (es.map Prod.fst).Nodup := by
  constructor
  · intro h
    have hsubset : (ofEntries es).keys ⊆ es.map Prod.fst := fun key hkey => by
      obtain ⟨e, he, rfl⟩ := List.mem_map.1 hkey
      exact List.mem_map_of_mem (mem_entries_ofEntries he)
    have hlength : (es.map Prod.fst).length ≤ (ofEntries es).keys.length := by
      rw [List.length_map, keys, List.length_map]
      exact h.ge
    have hdistinct : (ofEntries es).keys.Nodup := (ofEntries es).distinct
    have hperm := (hdistinct.subperm hsubset).perm_of_length_le hlength
    exact hperm.nodup_iff.1 hdistinct
  · intro h
    rw [size, entries_ofEntries h]

/-- The entries of a dictionary with one key are one and the same. -/
lemma eq_of_mem_entries {d : Dict α} {e f : String × α} (he : e ∈ d.entries) (hf : f ∈ d.entries)
    (hkey : e.1 = f.1) : e = f :=
  List.inj_on_of_nodup_map d.distinct he hf hkey

/-- What a dictionary has at a key is its entry there, and every entry is found. -/
lemma get?_eq_some_iff {d : Dict α} {key : String} {value : α} :
    d.get? key = some value ↔ (key, value) ∈ d.entries := by
  constructor
  · exact mem_of_get?
  · intro hmem
    have hkey : d.contains key := contains_iff_mem_keys.2 (List.mem_map_of_mem hmem)
    obtain ⟨value', hget⟩ := Option.isSome_iff_exists.1 hkey
    cases eq_of_mem_entries (mem_of_get? hget) hmem rfl
    exact hget

/-- Sorting by key changes the order only. -/
lemma get?_sortedByKey (d : Dict α) (key : String) : d.sortedByKey.get? key = d.get? key := by
  apply Option.ext
  intro value
  rw [get?_eq_some_iff, get?_eq_some_iff, mem_entries_sortedByKey]

/-- Sorting by key loses no entry. -/
@[simp]
lemma size_sortedByKey (d : Dict α) : d.sortedByKey.size = d.size :=
  List.length_mergeSort _

/-- The keys go up when they are sorted. -/
lemma keys_sortedByKey (d : Dict α) : d.sortedByKey.keys.Pairwise (· < ·) := by
  have hle : d.sortedByKey.keys.Pairwise (· ≤ ·) := by
    apply List.Pairwise.map Prod.fst (fun a b hab => of_decide_eq_true hab)
    apply List.pairwise_mergeSort
    · intro a b c hab hbc
      exact decide_eq_true (le_trans (of_decide_eq_true hab) (of_decide_eq_true hbc))
    · intro a b
      rw [Bool.or_eq_true, decide_eq_true_eq, decide_eq_true_eq]
      exact le_total a.1 b.1
  exact (hle.and d.sortedByKey.distinct).imp fun hab => lt_of_le_of_ne hab.1 hab.2

/-! ## Dictionaries over one another -/

/-- Of two values that are written at a key the last one stays. -/
lemma put_put (key : String) (value old : α) (es : List (String × α)) :
    put key value (put key old es) = put key value es := by
  induction es with
  | nil => simp [put]
  | cons e es ih =>
    by_cases h : e.1 = key
    · simp [put, h]
    · simp [put, h, ih]

/-- A key that the entries in front do not have is written behind them. -/
lemma put_append_of_notMem {key : String} {es : List (String × α)} (h : key ∉ es.map Prod.fst)
    (value : α) (fs : List (String × α)) : put key value (es ++ fs) = es ++ put key value fs := by
  induction es with
  | nil => rfl
  | cons e es ih =>
    simp only [List.map_cons, List.mem_cons, not_or] at h
    rw [List.cons_append, put, if_neg (Ne.symm h.1), ih h.2, List.cons_append]

/-- A key that is there can be written before or after another one. -/
lemma put_comm {key key' : String} (hne : key ≠ key') (value value' : α) {es : List (String × α)}
    (hmem : key ∈ es.map Prod.fst) :
    put key value (put key' value' es) = put key' value' (put key value es) := by
  induction es with
  | nil => exact absurd hmem List.not_mem_nil
  | cons e es ih =>
    by_cases h : e.1 = key
    · simp [put, h, hne]
    · have hrest : key ∈ es.map Prod.fst := by simpa [Ne.symm h] using hmem
      by_cases h' : e.1 = key'
      · simp [put, h', Ne.symm hne]
      · simp [put, h, h', ih hrest]

/-- Of two values that are written into a dictionary at a key the last one stays. -/
lemma insert_insert (d : Dict α) (key : String) (value old : α) :
    (d.insert key old).insert key value = d.insert key value :=
  Dict.ext (put_put ..)

/-- A key that a dictionary has can be written before or after another one. -/
lemma insert_comm {d : Dict α} {key key' : String} (hne : key ≠ key') (value value' : α)
    (hmem : key ∈ d.keys) :
    (d.insert key' value').insert key value = (d.insert key value).insert key' value' :=
  Dict.ext (put_comm hne value value' hmem)

/-- The value at a key that does not come again can be written before the other entries. -/
lemma insertAll_insert {d : Dict α} {key : String} (value : α) {es : List (String × α)}
    (hmem : key ∈ d.keys) (h : key ∉ es.map Prod.fst) :
    (d.insertAll es).insert key value = (d.insert key value).insertAll es := by
  induction es generalizing d with
  | nil => rfl
  | cons e es ih =>
    simp only [List.map_cons, List.mem_cons, not_or] at h
    have hrest : ((d.insert e.1 e.2).insertAll es).insert key value =
        ((d.insert e.1 e.2).insert key value).insertAll es :=
      ih (mem_keys_insert.2 (.inr hmem)) h.2
    exact hrest.trans (by rw [insert_comm h.1 value e.2 hmem]; rfl)

/-- Writing a key into a dictionary that is written over another one. -/
lemma merge_insert (d other : Dict α) (key : String) (value : α) :
    d.merge (other.insert key value) = (d.merge other).insert key value := by
  by_cases hmem : key ∈ other.keys
  · obtain ⟨⟨key, old⟩, he, rfl⟩ := List.mem_map.1 hmem
    obtain ⟨es, fs, hentries⟩ := List.append_of_mem he
    have hdistinct := other.distinct
    rw [hentries, List.map_append, List.map_cons, List.nodup_append, List.nodup_cons] at hdistinct
    obtain ⟨-, ⟨hfs, -⟩, hapart⟩ := hdistinct
    have hes := fun hes => hapart _ hes _ List.mem_cons_self rfl
    have hput : put key value other.entries = es ++ (key, value) :: fs := by
      rw [hentries, put_append_cons hes]
    -- the old value is written over before the entries that come behind it
    have hlast : ((d.insertAll es).insert key value).insertAll fs =
        (((d.insertAll es).insert key old).insertAll fs).insert key value := by
      rw [insertAll_insert value (mem_keys_insert.2 (.inl rfl)) hfs, insert_insert]
    rw [merge, merge, entries_insert, hput, hentries, insertAll_append, insertAll_append]
    exact hlast
  · rw [merge, entries_insert, put_of_not_mem hmem, insertAll_append]
    rfl

/-- Entries that are written one after another, the later ones as a dictionary of their own. -/
lemma merge_ofEntries (es fs : List (String × α)) :
    (ofEntries es).merge (ofEntries fs) = ofEntries (es ++ fs) := by
  induction fs using List.reverseRecOn with
  | nil =>
    rw [List.append_nil]
    rfl
  | append_singleton fs e ih =>
    rw [ofEntries_append, merge_insert, ih, ← List.append_assoc,
      ofEntries_append]

/-- Keys come in the order of their first entries. -/
lemma keys_ofEntries (es : List (String × α)) :
    (ofEntries es).keys = (es.map Prod.fst).eraseDups := by
  induction es using List.reverseRecOn with
  | nil => rfl
  | append_singleton es e ih =>
    rw [ofEntries_append, keys_insert, ih, List.map_append, List.map_singleton,
      eraseDups_concat]
    simp only [List.mem_eraseDups]

/-- The later entries hold, the earlier ones only at keys that do not come again. -/
lemma get?_ofEntries_append (es fs : List (String × α)) (key : String) :
    (ofEntries (es ++ fs)).get? key =
      ((ofEntries fs).get? key).or ((ofEntries es).get? key) := by
  rw [get?_ofEntries, get?_ofEntries, get?_ofEntries, List.filter_append, List.map_append,
    List.getLast?_append]

/-- Keys come in the order of their first entries, also from two parts. -/
lemma keys_ofEntries_append (es fs : List (String × α)) :
    (ofEntries (es ++ fs)).keys = ((ofEntries es).keys ++ (ofEntries fs).keys).eraseDups := by
  rw [keys_ofEntries, keys_ofEntries, keys_ofEntries, List.map_append, eraseDups_append_eraseDups]

end GoService.Dict
