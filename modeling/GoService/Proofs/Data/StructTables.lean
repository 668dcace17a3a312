import GoService.Data.StructTable
import GoService.Proofs.Dictionaries

/-!
# Tables of structs

A key keeps its place for as long as it is in a table, since it is written where it stands and keys
leave from the end (`idxOf_run`). So a table whose entries begin with those of an earlier one is
rewound to it by the mark of that one (`rewind_mark`). The entries of the past stay in front while
only new keys are entered, no key of the past is completed and the table is rewound to marks taken
since (`Extends.run`), whatever else is done in between (`run_rewinds_to_past`).
-/

namespace GoService.Data.StructTable

/-- The keys in the order in which they were entered. -/
def keys (t : StructTable) : List String :=
  t.states.keys

variable {t t' past : StructTable} {key : String} {s : Struct}

/-- Tables with the same entries are the same. -/
lemma ext_entries (h : t.states.entries = t'.states.entries) : t = t' :=
  congrArg StructTable.mk (Dict.ext h)

/-- No key is entered twice. -/
lemma nodup_keys (t : StructTable) : t.keys.Nodup :=
  t.states.distinct

/-- A table contains its keys. -/
lemma contains_iff : t.contains key ↔ key ∈ t.keys :=
  Dict.contains_iff_mem_keys

/-- A struct that is found is a finished entry. -/
lemma mem_of_get? (h : t.get? key = some s) : (key, .resolved s) ∈ t.states.entries := by
  rw [StructTable.get?] at h
  split at h
  · next hstate =>
    obtain rfl := Option.some.inj h
    exact Dict.mem_of_get? hstate
  · simp at h

/-- A new key is entered behind the others. -/
lemma entries_enter (h : key ∉ t.keys) :
    (t.enter key).states.entries = t.states.entries ++ [(key, .inProgress)] :=
  Dict.put_of_not_mem h

/-- The keys after entering a new one. -/
lemma keys_enter (h : key ∉ t.keys) : (t.enter key).keys = t.keys ++ [key] := by
  simp [StructTable.keys, Dict.keys, entries_enter h]

/-- A struct whose key is entered is not known, all the others are as before. -/
lemma get?_enter (t : StructTable) (key key' : String) :
    (t.enter key).get? key' = if key' = key then none else t.get? key' := by
  simp only [StructTable.get?, state?, enter, Dict.get?_insert]
  by_cases h : key' = key
  · simp only [h, if_true]
  · simp only [h, if_false]

/-- Completing a struct leaves the keys. -/
lemma keys_complete (t : StructTable) (key : String) (s : Struct) :
    (t.complete key s).keys = t.keys := by
  rw [complete]
  split
  · next hin =>
    have hkey : key ∈ t.states.keys := contains_iff.1 hin
    show (t.states.insert key (.resolved s)).keys = t.states.keys
    rw [Dict.keys_insert, if_pos hkey]
  · rfl

/-- Rewinding keeps the keys up to the mark. -/
lemma keys_rewind (t : StructTable) (mark : Nat) : (t.rewind mark).keys = t.keys.take mark :=
  List.map_take ..

/-- The finished structs are what is found at the keys, in the order of the keys. -/
lemma finished_eq (t : StructTable) :
    t.finished = t.keys.filterMap fun key => (t.get? key).map fun s => (key, s) := by
  rw [finished, keys, Dict.keys, List.filterMap_map]
  apply List.filterMap_congr
  rintro ⟨key, state⟩ hmem
  have hstate : t.state? key = some state := Dict.get?_eq_some_iff.2 hmem
  show _ = (t.get? key).map fun s => (key, s)
  rw [get?, hstate]
  cases state with
  | inProgress => rfl
  | resolved s => rfl

/-! ## Entries of the past -/

/-- A table is rewound to any table with whose entries its own begin. -/
lemma rewind_mark (h : past.states.entries <+: t.states.entries) : t.rewind past.mark = past :=
  ext_entries (List.prefix_iff_eq_take.1 h).symm

/-- Writing a key that the past does not have leaves the past in front. -/
lemma prefix_insert (h : past.states.entries <+: t.states.entries) (hkey : key ∉ past.keys)
    (state : StructState) : past.states.entries <+: (t.states.insert key state).entries := by
  obtain ⟨new, hnew⟩ := h
  rw [Dict.entries_insert, ← hnew, Dict.put_append_of_notMem hkey]
  exact List.prefix_append ..

/-- Completing a struct that the past does not have leaves the past in front. -/
lemma prefix_complete (h : past.states.entries <+: t.states.entries) (hkey : key ∉ past.keys)
    (s : Struct) : past.states.entries <+: (t.complete key s).states.entries := by
  rw [complete]
  split
  · exact prefix_insert h hkey _
  · exact h

/-! ## Operations -/

/-- What can be done with a table, apart from looking into it. -/
inductive Operation where
  | enter (key : String)
  | complete (key : String) (s : Struct)
  | mark
  | rewind (mark : Nat)
  | clear

/-- The table after an operation. -/
def apply (t : StructTable) : Operation → StructTable
  | .enter key => t.enter key
  | .complete key s => t.complete key s
  | .mark => t
  | .rewind mark => t.rewind mark
  | .clear => .empty

/-- The mark that an operation takes; a key is entered just after its mark. -/
def taken? (t : StructTable) : Operation → Option Nat
  | .enter _ | .mark => some t.mark
  | .complete .. | .rewind _ | .clear => none

/-- The table after operations one after another. -/
def run (t : StructTable) (ops : List Operation) : StructTable :=
  ops.foldl apply t

/-! ## Places of keys -/

/-- Keys come and go at the end. -/
lemma keys_apply (t : StructTable) (op : Operation) :
    t.keys <+: (t.apply op).keys ∨ (t.apply op).keys <+: t.keys := by
  cases op with
  | enter key =>
    left
    show t.keys <+: (t.states.insert key .inProgress).keys
    rw [Dict.keys_insert]
    split
    · exact List.prefix_refl _
    · exact List.prefix_append ..
  | complete key s =>
    have heq : t.keys = (t.complete key s).keys := (keys_complete ..).symm
    exact .inl (heq ▸ List.prefix_refl t.keys)
  | mark => exact .inl (List.prefix_refl _)
  | rewind mark =>
    right
    show (t.rewind mark).keys <+: t.keys
    rw [keys_rewind]
    exact List.take_prefix ..
  | clear => exact .inr List.nil_prefix

/-- A key that is there before and after an operation keeps its place. -/
lemma idxOf_apply {op : Operation} (h : key ∈ t.keys) (h' : key ∈ (t.apply op).keys) :
    (t.apply op).keys.idxOf key = t.keys.idxOf key := by
  rcases keys_apply t op with hfront | hfront
  · exact (hfront.idxOf_eq_of_mem h).symm
  · exact hfront.idxOf_eq_of_mem h'

/-- A key that is there all the time stands where it stood. -/
lemma idxOf_run {ops : List Operation} (h : ∀ before, before <+: ops → key ∈ (t.run before).keys) :
    (t.run ops).keys.idxOf key = t.keys.idxOf key := by
  induction ops generalizing t with
  | nil => rfl
  | cons op ops ih =>
    have hbefore : key ∈ t.keys := h [] List.nil_prefix
    have hafter : key ∈ (t.apply op).keys := h [op] ⟨ops, rfl⟩
    have hrest := ih (t := t.apply op) fun before hfront =>
      h (op :: before) ((List.prefix_cons_inj op).2 hfront)
    exact hrest.trans (idxOf_apply hbefore hafter)

/-! ## Rewinding to a mark of the past -/

/-- Whether an operation may come after a mark of the past, when `marks` are the marks since then:
only new keys are entered, keys of the past are not completed, and the table is rewound to marks
taken since. -/
def Operation.AllowedSince (past t : StructTable) (marks : List Nat) : Operation → Prop
  | .enter key => key ∉ t.keys
  | .complete key _ => key ∉ past.keys
  | .mark => True
  | .rewind m => m ∈ marks
  | .clear => False

/-- Whether operations may come one after another after a mark of the past. -/
def AllowedSince (past t : StructTable) (marks : List Nat) : List Operation → Prop
  | [] => True
  | op :: ops =>
    op.AllowedSince past t marks ∧
      AllowedSince past (t.apply op) ((t.taken? op).toList ++ marks) ops

instance (past t : StructTable) (marks : List Nat) (op : Operation) :
    Decidable (op.AllowedSince past t marks) :=
  match op with
  | .enter key => inferInstanceAs (Decidable (key ∉ t.keys))
  | .complete key _ => inferInstanceAs (Decidable (key ∉ past.keys))
  | .mark => .isTrue True.intro
  | .rewind mark => inferInstanceAs (Decidable (mark ∈ marks))
  | .clear => .isFalse id

instance decidableAllowedSince (past : StructTable) :
    ∀ t marks ops, Decidable (AllowedSince past t marks ops)
  | _, _, [] => .isTrue True.intro
  | t, marks, op :: ops =>
    have := decidableAllowedSince past (t.apply op) ((t.taken? op).toList ++ marks) ops
    inferInstanceAs (Decidable (_ ∧ _))

/-- The table has the past in front, and no mark is below that of the past. -/
structure Extends (past t : StructTable) (marks : List Nat) : Prop where
  entries : past.states.entries <+: t.states.entries
  le_mark : ∀ mark ∈ marks, past.mark ≤ mark

variable {marks : List Nat} {op : Operation} {ops : List Operation}

/-- A table extends itself. -/
lemma extends_start (t : StructTable) : t.Extends t [] :=
  ⟨List.prefix_refl _, nofun⟩

/-- The keys of the past are there. -/
lemma Extends.mem_keys (h : past.Extends t marks) (hkey : key ∈ past.keys) : key ∈ t.keys :=
  (h.entries.map Prod.fst).subset hkey

/-- The mark that an operation takes is that of the table. -/
lemma eq_mark_of_taken? {mark : Nat} (h : t.taken? op = some mark) : mark = t.mark := by
  cases op with
  | enter | mark => exact (Option.some.inj h).symm
  | complete | rewind | clear => cases h

/-- A mark that is taken later is not below that of the past. -/
lemma Extends.le_taken (h : past.Extends t marks) :
    ∀ mark ∈ (t.taken? op).toList ++ marks, past.mark ≤ mark := by
  intro mark hmark
  rcases List.mem_append.1 hmark with hnew | hold
  · rw [eq_mark_of_taken? (Option.mem_toList.1 hnew)]
    exact h.entries.length_le
  · exact h.le_mark mark hold

/-- A table that extends the past does so after an allowed operation. -/
lemma Extends.apply (h : past.Extends t marks) (hop : op.AllowedSince past t marks) :
    past.Extends (t.apply op) ((t.taken? op).toList ++ marks) := by
  refine ⟨?_, h.le_taken⟩
  cases op with
  | enter key =>
    -- the keys of the past are all there, so a new key is none of them
    have hkey : key ∉ past.keys := fun hkey => hop (h.mem_keys hkey)
    exact prefix_insert h.entries hkey _
  | complete key s => exact prefix_complete h.entries hop s
  | mark => exact h.entries
  | rewind mark => exact List.prefix_take_iff.2 ⟨h.entries, h.le_mark mark hop⟩
  | clear => exact hop.elim

/-- The past stays in front after allowed operations. -/
lemma Extends.run (h : past.Extends t marks) (hops : AllowedSince past t marks ops) :
    past.states.entries <+: (t.run ops).states.entries := by
  induction ops generalizing t marks with
  | nil => exact h.entries
  | cons op ops ih => exact ih (h.apply hops.1) hops.2

/-- In every table, and so after any operations on one, the keys are distinct, each keeps its place
for as long as it is there, and the finished structs are listed in the order of their keys. A mark,
be it taken as such or to enter a key, gives back the table as it was just before, after any
operations that are allowed since then. -/
theorem run_rewinds_to_past (t : StructTable) :
    t.keys.Nodup ∧
      (∀ later key, (∀ before, before <+: later → key ∈ (t.run before).keys) →
        (t.run later).keys.idxOf key = t.keys.idxOf key) ∧
      t.finished = (t.keys.filterMap fun key => (t.get? key).map fun s => (key, s)) ∧
      ∀ op mark later, t.taken? op = some mark → AllowedSince t t [] (op :: later) →
        (t.run (op :: later)).rewind mark = t := by
  refine ⟨t.nodup_keys, fun later key => idxOf_run, t.finished_eq, ?_⟩
  intro op mark later htaken hallowed
  rw [eq_mark_of_taken? htaken]
  exact rewind_mark ((extends_start t).run hallowed)

/-! ## A failed attempt -/

namespace Attempt

/-- A struct without fields. -/
def struct (name : String) : Struct :=
  ⟨"p", name, [], .empty, true, ""⟩

/-- A table with one finished struct. -/
def table : StructTable :=
  empty.run [.enter "p.A", .complete "p.A" (struct "A")]

/-- A struct is entered and another one below it; both are finished, and a third one is entered,
dropped and entered again. -/
def later : List Operation :=
  [.enter "p.C", .complete "p.C" (struct "C"), .mark, .complete "p.B" (struct "B"),
    .enter "p.D", .rewind 3, .enter "p.D"]

/-- After the attempt the table is given back by the mark that its first key took. -/
theorem table_given_back : table.taken? (.enter "p.B") = some 1 ∧
    AllowedSince table table [] (.enter "p.B" :: later) ∧
    (table.run (.enter "p.B" :: later)).keys = ["p.A", "p.B", "p.C", "p.D"] ∧
    (table.run (.enter "p.B" :: later)).rewind 1 = table := by
  have htaken : table.taken? (.enter "p.B") = some 1 := by decide
  have hallowed : AllowedSince table table [] (.enter "p.B" :: later) := by decide
  obtain ⟨-, -, -, hback⟩ := run_rewinds_to_past table
  exact ⟨htaken, hallowed, by decide, hback _ 1 later htaken hallowed⟩

end Attempt

end GoService.Data.StructTable
