import GoService.Proofs.Resolution.Growth

/-!
# Closed tables

While structs are in progress their keys stand in the table, so that references to them can end
there. `Sound` says what holds of the finished entries at every moment of a resolution: each stands
at the key of its struct, its fields have different names, and they mention only keys of the table.
A `Closed` table is a sound one in which nothing is in progress. Every resolution that succeeds
keeps both, because a table only grows on the way to a success.
-/

namespace GoService.Data

/-- Fields have different names and mention only structs at the given keys. -/
structure FieldsWithin (keys : List String) (fields : List StructField) : Prop where
  distinct : (fields.map (·.name)).Nodup
  within : ∀ f ∈ fields, f.type.structKeys ⊆ keys

/-- Fields stay within keys when there are more of them. -/
lemma FieldsWithin.mono {keys keys' : List String} {fields : List StructField}
    (h : FieldsWithin keys fields) (hkeys : keys ⊆ keys') : FieldsWithin keys' fields :=
  ⟨h.distinct, fun f hf => List.Subset.trans (h.within f hf) hkeys⟩

/-- No fields are within any keys. -/
lemma FieldsWithin.nil (keys : List String) : FieldsWithin keys [] :=
  ⟨List.nodup_nil, by simp⟩

namespace StructTable

/-- Every finished struct stands at its own key, and its fields have different names and mention
only keys of the table. -/
structure Sound (t : StructTable) : Prop where
  keyed : ∀ {key s}, (key, .resolved s) ∈ t.states.entries → s.key = key
  fields : ∀ {key s}, (key, .resolved s) ∈ t.states.entries → FieldsWithin t.keys s.fields

/-- A sound table in which nothing is in progress. -/
structure Closed (t : StructTable) : Prop extends t.Sound where
  finished : ∀ e ∈ t.states.entries, e.2 ≠ .inProgress

/-- A key whose struct is in progress says nothing wrong. -/
lemma Sound.enter {t : StructTable} {key : String} (h : t.Sound) (hkey : key ∉ t.keys) :
    (t.enter key).Sound := by
  have hmem : ∀ {key' s}, (key', StructState.resolved s) ∈ (t.enter key).states.entries →
      (key', StructState.resolved s) ∈ t.states.entries := by
    intro key' s he
    rw [entries_enter hkey] at he
    rcases List.mem_append.1 he with he | he
    · exact he
    · simp at he
  refine ⟨fun he => h.keyed (hmem he), fun he => (h.fields (hmem he)).mono ?_⟩
  rw [keys_enter hkey]
  exact List.subset_append_left ..

/-- A finished struct at its own key, with fields that mention only keys of the table. -/
lemma Sound.complete {t : StructTable} {key : String} {s : Struct} (h : t.Sound)
    (hkey : s.key = key) (hfields : FieldsWithin t.keys s.fields) : (t.complete key s).Sound := by
  have hmem : ∀ {key' s'}, (key', StructState.resolved s') ∈ (t.complete key s).states.entries →
      key' = key ∧ s' = s ∨ (key', StructState.resolved s') ∈ t.states.entries := by
    intro key' s' he
    rw [StructTable.complete] at he
    split at he
    · rcases Dict.mem_entries_insert he with heq | he
      · cases heq
        exact .inl ⟨rfl, rfl⟩
      · exact .inr he
    · exact .inr he
  constructor
  · intro key' s' he
    obtain ⟨rfl, rfl⟩ | he := hmem he
    · exact hkey
    · exact h.keyed he
  · intro key' s' he
    rw [keys_complete]
    obtain ⟨rfl, rfl⟩ | he := hmem he
    · exact hfields
    · exact h.fields he

/-- The table without entries is closed. -/
lemma Closed.empty : StructTable.empty.Closed where
  keyed h := absurd h List.not_mem_nil
  fields h := absurd h List.not_mem_nil
  finished _ h := absurd h List.not_mem_nil

/-- Every key of a closed table has a finished struct. -/
lemma Closed.get?_of_mem {t : StructTable} (h : t.Closed) {key : String} (hkey : key ∈ t.keys) :
    ∃ s, t.get? key = some s := by
  obtain ⟨state, hstate⟩ := Option.isSome_iff_exists.1 (contains_iff.2 hkey)
  cases state with
  | inProgress => exact absurd rfl (h.finished _ (Dict.mem_of_get? hstate))
  | resolved s => exact ⟨s, by rw [StructTable.get?, StructTable.state?, hstate]⟩

/-- A closed table stays closed when it grows and stays sound. -/
lemma Closed.of_grows {t t' : StructTable} (h : t.Closed) (hgrows : t.Grows t')
    (hsound : t'.Sound) :
    t'.Closed := by
  obtain ⟨new, ha⟩ := hgrows
  refine ⟨hsound, fun e he => ?_⟩
  rw [ha] at he
  rcases List.mem_append.1 he with he | he
  · exact h.finished e he
  · obtain ⟨e', -, rfl⟩ := List.mem_map.1 he
    exact StructState.noConfusion

end StructTable

end GoService.Data

namespace GoService.Resolution

open Data Package Source

/-! ## Lists of fields -/

/-- A field after writing one is the written one or an old one. -/
lemma mem_putField {fields : List StructField} {f g : StructField} (h : g ∈ putField fields f) :
    g = f ∨ g ∈ fields := by
  induction fields with
  | nil => exact .inl (List.mem_singleton.1 h)
  | cons f' fields ih =>
    rw [putField] at h
    split at h
    · exact (List.mem_cons.1 h).imp_right (List.mem_cons_of_mem _)
    · rcases List.mem_cons.1 h with rfl | h
      · exact .inr (List.mem_cons_self ..)
      · exact (ih h).imp_right (List.mem_cons_of_mem _)

/-- A field is written over the one with its name, so names stay different. -/
lemma nodup_putField {fields : List StructField} (f : StructField)
    (h : (fields.map (·.name)).Nodup) : ((putField fields f).map (·.name)).Nodup := by
  induction fields with
  | nil => simp [putField]
  | cons f' fields ih =>
    rw [List.map_cons, List.nodup_cons] at h
    rw [putField]
    split
    · next heq =>
      rw [List.map_cons, List.nodup_cons, ← heq]
      exact h
    · next hne =>
      rw [List.map_cons, List.nodup_cons]
      refine ⟨?_, ih h.2⟩
      intro hmem
      obtain ⟨g, hg, hname⟩ := List.mem_map.1 hmem
      rcases mem_putField hg with rfl | hg
      · exact hne hname.symm
      · exact h.1 (List.mem_map.2 ⟨g, hg, hname⟩)

/-- Writing a field within keys keeps the fields within them. -/
lemma FieldsWithin.put {keys : List String} {fields : List StructField} {f : StructField}
    (h : FieldsWithin keys fields) (hf : f.type.structKeys ⊆ keys) :
    FieldsWithin keys (putField fields f) := by
  refine ⟨nodup_putField f h.distinct, ?_⟩
  intro g hg
  rcases mem_putField hg with rfl | hg
  · exact hf
  · exact h.within g hg

/-- Writing fields within keys keeps the fields within them. -/
lemma FieldsWithin.puts {keys : List String} {fields new : List StructField}
    (h : FieldsWithin keys fields) (hnew : ∀ f ∈ new, f.type.structKeys ⊆ keys) :
    FieldsWithin keys (new.foldl putField fields) := by
  induction new generalizing fields with
  | nil => exact h
  | cons f new ih =>
    exact ih (FieldsWithin.put h (hnew f (List.mem_cons_self ..)))
      fun g hg => hnew g (List.mem_cons_of_mem _ hg)

/-! ## Resolutions keep tables closed -/

variable {names : KnownNames} {n : Nat} {k k' : Known}

/-- The fields that a goal begins with are within keys. -/
def Goal.Within (keys : List String) : Goal → Prop
  | .fields _ _ out | .field _ _ out => FieldsWithin keys out
  | .type .. | .decl .. | .literal .. | .embedded .. => True

/-- The fields that a goal ends with are as they should be. -/
def Answer.Within (keys : List String) : Answer → Prop
  | .type _ => True
  | .fields fs => FieldsWithin keys fs

/-- A resolution that succeeds keeps the table sound, and the fields that it answers are as they
should be. -/
theorem Resolves.sound {g : Goal} {a : Answer} (h : Resolves names n k g a k')
    (hk : k.structs.Sound) (hg : g.Within k.structs.keys) :
    k'.structs.Sound ∧ a.Within k'.structs.keys := by
  induction h with
  | paren _ ih => exact ih hk trivial
  | pointer _ ih => exact ih hk trivial
  | slice _ ih => exact ih hk trivial
  | array _ ih => exact ih hk trivial
  | map _ _ ihkey ihval => exact ihval (ihkey hk trivial).1 trivial
  | any => exact ⟨hk, trivial⟩
  | known hname =>
    rw [← ((looks_referentOf ..).of_ok hname).1.structs] at hk
    exact ⟨hk, trivial⟩
  | declared hname _ ih =>
    rw [← ((looks_referentOf ..).of_ok hname).1.structs] at hk
    exact ih hk trivial
  | entered _ => exact ⟨hk, trivial⟩
  | struct ho _ ih =>
    rw [← ho.loads.structs] at hk
    obtain ⟨hk₂, hfs⟩ := ih (hk.enter ho.notMem_keys) trivial
    exact ⟨hk₂.complete rfl hfs, trivial⟩
  | expand ho _ _ ih =>
    rw [← ho.loads.structs] at hk
    exact ih hk trivial
  | literal _ ih => exact ih hk (.nil _)
  | nil => exact ⟨hk, hg⟩
  | cons _ _ ihf ihfs =>
    obtain ⟨hk₁, hout⟩ := ihf hk hg
    exact ihfs hk₁ hout
  | skipped _ => exact ⟨hk, hg⟩
  | named _ _ h ih =>
    refine ⟨(ih hk trivial).1, FieldsWithin.puts (hg.mono h.grows.structs.keys) ?_⟩
    intro g hgmem
    obtain ⟨x, -, rfl⟩ := List.mem_map.1 hgmem
    exact h.structKeys_subset rfl
  | tagged _ _ _ h ih =>
    have ht := h.structKeys_subset rfl
    exact ⟨(ih hk trivial).1, FieldsWithin.put (hg.mono h.grows.structs.keys) ht⟩
  | inlined _ _ _ h hkey ih ihkey =>
    obtain ⟨hk', hfs⟩ := ihkey (ih hk trivial).1 trivial
    have hout := hg.mono (h.grows.trans hkey.grows).structs.keys
    exact ⟨hk', FieldsWithin.puts hout hfs.within⟩
  | wrapped _ _ _ _ h ih =>
    refine ⟨(ih hk trivial).1, FieldsWithin.put (hg.mono h.grows.structs.keys) ?_⟩
    have ht := h.structKeys_subset rfl
    show DataType.structKeys (if _ then _ else _) ⊆ _
    split
    · exact ht
    · exact ht
  -- copied fields mention keys of the table because finished structs do
  | finished _ hs => exact ⟨hk, hk.fields (StructTable.mem_of_get? hs)⟩
  | unfinished ho _ ih =>
    rw [← ho.loads.structs] at hk
    exact ih hk trivial

/-- From a closed table, resolving a written type leads to a closed table that has grown and that
holds every struct which the type mentions; or it fails and leaves the table as it was. -/
lemma resolve_closed (names : KnownNames) (site : Site) (type : TypeExpr)
    (hk : k.structs.Closed) :
    Ends (resolve names site type) k
      (fun t k' => k.structs.Grows k'.structs ∧ k'.structs.Closed ∧
        t.structKeys ⊆ k'.structs.keys)
      fun _ k' => k'.structs = k.structs := by
  refine (resolve_ends names site type k).imp (fun hr => ?_)
    fun hf => (hf.restores.2 trivial).structs
  have hclosed := hk.of_grows hr.grows.structs (hr.sound hk.toSound trivial).1
  exact ⟨hr.grows.structs, hclosed, hr.structKeys_subset rfl⟩

end GoService.Resolution
