import GoService.Proofs.Lists
import GoService.Service.Components
import Mathlib.Data.List.Nodup
import Mathlib.Data.String.Basic
import Mathlib.Logic.Relation
import Mathlib.Order.Bounds.Basic

/-!
# Reachability

The components of a service are the least set of keys that holds every struct which the functions
take or give and is closed under references. A traversal visits keys one after another, in any
order: `Step` is one visit, `Sound` what every visit keeps. So every traversal ends
(`wellFounded_step`), and has then seen the least set (`Sound.isLeast`).
-/

namespace GoService.Data.DataType

/-- A type mentions the struct at a key. -/
inductive Mentions : DataType → String → Prop
  | struct : Mentions (.struct key) key
  | pointer (h : Mentions elem key) : Mentions (.pointer elem) key
  | array (h : Mentions elem key) : Mentions (.array elem) key
  | map (h : Mentions value key) : Mentions (.map name value) key

/-- The keys of a type are those that it mentions. -/
lemma mem_structKeys {type : DataType} {key : String} :
    key ∈ type.structKeys ↔ type.Mentions key := by
  constructor
  · intro h
    induction type with
    | struct key' =>
      obtain rfl := List.mem_singleton.1 h
      exact .struct
    | pointer elem ih => exact .pointer (ih h)
    | array elem ih => exact .array (ih h)
    | map name value ih => exact .map (ih h)
    | builtin | wellKnown => cases h
  · intro h
    induction h with
    | struct => exact List.mem_singleton_self _
    | pointer _ ih | array _ ih | map _ ih => exact ih

end GoService.Data.DataType

namespace GoService.Service

open Data Relation

/-! ## References -/

/-- A function takes or gives a value whose type mentions the struct at a key. -/
def Carries (f : Function) (key : String) : Prop :=
  ∃ c, (f.param = some c ∨ f.result = some c) ∧ c.type.Mentions key

/-- The struct at the first key is finished, and the type of one of its fields mentions the struct
at the second. -/
def Refers (structs : StructTable) (key key' : String) : Prop :=
  ∃ s, structs.get? key = some s ∧ ∃ field ∈ s.fields, field.type.Mentions key'

/-- A set of keys that has those which functions carry, and with each key those to which the struct
at it refers. -/
structure HoldsAll (structs : StructTable) (fns : List Function) (keys : Set String) : Prop where
  carried : ∀ f ∈ fns, ∀ key, Carries f key → key ∈ keys
  referred : ∀ key ∈ keys, ∀ key', Refers structs key key' → key' ∈ keys

/-- The keys of a function are those that it carries. -/
lemma mem_structKeys {f : Function} {key : String} : key ∈ f.structKeys ↔ Carries f key := by
  simp only [Function.structKeys, List.mem_flatMap, List.mem_append, Option.mem_toList,
    DataType.mem_structKeys, Carries]

/-- The references of a struct are those of its fields. -/
lemma mem_references {structs : StructTable} {key key' : String} :
    key' ∈ references structs key ↔ Refers structs key key' := by
  rw [references, Refers]
  cases structs.get? key with
  | none => simp
  | some s => simp [DataType.mem_structKeys]

/-! ## Visits -/

/-- The keys that a traversal has seen and those that it has still to visit. -/
structure Visit where
  seen : List String
  pending : List String

namespace Visit

section

variable (structs : StructTable) (fns : List Function)

/-- The traversal takes any of the pending keys. A key that is new is seen from then on, and the
keys to which its struct refers join the pending ones. -/
inductive Step : Visit → Visit → Prop
  | again {key : String} {seen before after : List String} (hin : key ∈ seen) :
      Step ⟨seen, before ++ key :: after⟩ ⟨seen, before ++ after⟩
  | first {key : String} {seen pending before after : List String} (hout : key ∉ seen)
      (hpending : pending.Perm (references structs key ++ (before ++ after))) :
      Step ⟨seen, before ++ key :: after⟩ ⟨key :: seen, pending⟩

/-- What a traversal knows on its way: all keys so far belong to every set that holds what there is
to find, and what is not found yet lies behind a pending key. -/
structure Sound (v : Visit) : Prop where
  distinct : v.seen.Nodup
  within : ∀ keys, HoldsAll structs fns keys → ∀ key ∈ v.seen ++ v.pending, key ∈ keys
  carried : ∀ f ∈ fns, ∀ key, Carries f key → key ∈ v.seen ++ v.pending
  referred : ∀ key ∈ v.seen, ∀ key', Refers structs key key' → key' ∈ v.seen ++ v.pending

end

/-- A traversal of the structs behind functions begins with what these carry. -/
def start (fns : List Function) : Visit :=
  ⟨[], fns.flatMap Function.structKeys⟩

variable {structs : StructTable} {fns : List Function} {v v' : Visit}

/-- A traversal begins soundly. -/
lemma sound_start : Sound structs fns (start fns) := by
  have hmem : ∀ key, key ∈ (start fns).seen ++ (start fns).pending ↔ ∃ f ∈ fns, Carries f key := by
    intro key
    simp only [start, List.nil_append, List.mem_flatMap, mem_structKeys]
  refine ⟨List.nodup_nil, ?_, ?_, nofun⟩
  · intro keys hkeys key hkey
    obtain ⟨f, hf, hcarries⟩ := (hmem key).1 hkey
    exact hkeys.carried f hf key hcarries
  · intro f hf key hcarries
    exact (hmem key).2 ⟨f, hf, hcarries⟩

/-- A step of a traversal keeps it sound. -/
lemma Sound.step (h : Sound structs fns v) (hstep : Step structs v v') : Sound structs fns v' := by
  cases hstep with
  | @again key seen before after hin =>
    -- the key that is dropped is among those seen
    have hsame : ∀ key', key' ∈ seen ++ (before ++ key :: after) ↔
        key' ∈ seen ++ (before ++ after) := by
      intro key'
      simp only [List.mem_append, List.mem_cons]
      constructor
      · rintro (hseen | hbefore | rfl | hafter)
        · exact .inl hseen
        · exact .inr (.inl hbefore)
        · exact .inl hin
        · exact .inr (.inr hafter)
      · rintro (hseen | hbefore | hafter)
        · exact .inl hseen
        · exact .inr (.inl hbefore)
        · exact .inr (.inr (.inr hafter))
    refine ⟨h.distinct, ?_, ?_, ?_⟩
    · intro keys hkeys key' hkey'
      exact h.within keys hkeys key' ((hsame key').2 hkey')
    · intro f hf key' hcarries
      exact (hsame key').1 (h.carried f hf key' hcarries)
    · intro key₁ hkey₁ key₂ hrefers
      exact (hsame key₂).1 (h.referred key₁ hkey₁ key₂ hrefers)
  | @first key seen pending before after hout hpending =>
    -- what the key refers to is added, and nothing else changes
    have hmem : ∀ key', key' ∈ key :: seen ++ pending ↔
        key' ∈ seen ++ (before ++ key :: after) ∨ Refers structs key key' := by
      intro key'
      simp only [List.cons_append, List.mem_cons, List.mem_append, hpending.mem_iff,
        mem_references]
      tauto
    refine ⟨List.nodup_cons.2 ⟨hout, h.distinct⟩, ?_, ?_, ?_⟩
    · intro keys hkeys key' hkey'
      rcases (hmem key').1 hkey' with hold | hrefers
      · exact h.within keys hkeys key' hold
      · have hkey : key ∈ keys := h.within keys hkeys key (by simp)
        exact hkeys.referred key hkey key' hrefers
    · intro f hf key' hcarries
      exact (hmem key').2 (.inl (h.carried f hf key' hcarries))
    · intro key₁ hkey₁ key₂ hrefers
      rcases List.mem_cons.1 hkey₁ with rfl | hkey₁
      · exact (hmem key₂).2 (.inr hrefers)
      · exact (hmem key₂).2 (.inl (h.referred key₁ hkey₁ key₂ hrefers))

/-- A run of a traversal keeps it sound. -/
lemma Sound.run (h : Sound structs fns v) (hrun : ReflTransGen (Step structs) v v') :
    Sound structs fns v' := by
  induction hrun with
  | refl => exact h
  | tail _ hstep ih => exact ih.step hstep

/-- A traversal with nothing left to visit has seen all that there is to find, and nothing else. -/
lemma Sound.isLeast (h : Sound structs fns v) (hend : v.pending = []) :
    IsLeast {keys | HoldsAll structs fns keys} {key | key ∈ v.seen} := by
  have hall : v.seen ++ v.pending = v.seen := by rw [hend, List.append_nil]
  refine ⟨⟨?_, ?_⟩, ?_⟩
  · intro f hf key hcarries
    exact hall ▸ h.carried f hf key hcarries
  · intro key hkey key' hrefers
    exact hall ▸ h.referred key hkey key' hrefers
  · intro keys hkeys key hkey
    exact h.within keys hkeys key (List.mem_append_left _ hkey)

/-! ## The end of a traversal -/

/-- Each step of a traversal leaves less work. -/
lemma Step.work_lt (h : Step structs v v') :
    work structs v'.seen v'.pending < work structs v.seen v.pending := by
  cases h with
  | again =>
    simp only [work, List.length_append, List.length_cons]
    omega
  | @first key seen pending before after hout hpending =>
    have hlt : work structs (key :: seen) (references structs key ++ (before ++ after)) <
        work structs seen (key :: (before ++ after)) := work_visit_lt hout _
    simp only [work, hpending.length_eq, List.length_append, List.length_cons] at hlt ⊢
    omega

/-- No traversal goes on forever. -/
lemma wellFounded_step (structs : StructTable) :
    WellFounded fun v' v => Step structs v v' :=
  Subrelation.wf (fun h => h.work_lt)
    (measure fun v : Visit => work structs v.seen v.pending).wf

/-- A key that was seen is passed over. -/
lemma Step.again_head {key : String} {seen after : List String} (hin : key ∈ seen) :
    Step structs ⟨seen, key :: after⟩ ⟨seen, after⟩ :=
  @Step.again _ key seen [] after hin

/-- A key that is seen for the first time leaves its references pending. -/
lemma Step.first_head {key : String} {seen pending after : List String} (hout : key ∉ seen)
    (hpending : pending.Perm (references structs key ++ after)) :
    Step structs ⟨seen, key :: after⟩ ⟨key :: seen, pending⟩ :=
  @Step.first _ key seen pending [] after hout hpending

/-- The traversal that takes the first pending key each time. -/
lemma run_reach (structs : StructTable) (seen pending : List String) :
    ReflTransGen (Step structs) ⟨seen, pending⟩ ⟨reach structs seen pending, []⟩ := by
  induction seen, pending using reach.induct structs with
  | case1 seen => rw [reach]
  | case2 seen key pending hin ih =>
    rw [reach, if_pos hin]
    exact .head (.again_head hin) ih
  | case3 seen key pending hout ih =>
    rw [reach, if_neg hout]
    exact .head (.first_head hout (.refl _)) ih

/-- What the traversal of the program has seen is sound. -/
lemma sound_reach (structs : StructTable) (fns : List Function) :
    Sound structs fns ⟨reach structs [] (start fns).pending, []⟩ :=
  sound_start.run (run_reach structs [] _)

end Visit

/-! ## Components -/

/-- The components are what the traversal has seen. -/
lemma componentsOf_perm (structs : StructTable) (fns : List Function) :
    (componentsOf structs fns).Perm (reach structs [] (Visit.start fns).pending) :=
  List.mergeSort_perm ..

/-- The components go up. -/
lemma pairwise_componentsOf (structs : StructTable) (fns : List Function) :
    (componentsOf structs fns).Pairwise (· < ·) := by
  have hle : (componentsOf structs fns).Pairwise (· ≤ ·) := pairwise_mergeSort_name id _
  have hne : (componentsOf structs fns).Pairwise (· ≠ ·) :=
    (componentsOf_perm structs fns).nodup_iff.2 (Visit.sound_reach structs fns).distinct
  exact (hle.and hne).imp fun hab => lt_of_le_of_ne hab.1 hab.2

/-- The components of functions are strictly sorted, and the least set of keys that has each struct
which a function carries and each struct to which a finished one of the set refers. Whatever pending
key a traversal takes next, it ends, and with nothing left to visit it has seen the components. -/
theorem components_least (structs : StructTable) (fns : List Function) :
    (componentsOf structs fns).Pairwise (· < ·) ∧
    IsLeast {keys | HoldsAll structs fns keys} {key | key ∈ componentsOf structs fns} ∧
    (WellFounded fun v' v => Visit.Step structs v v') ∧
    ∀ v, ReflTransGen (Visit.Step structs) (Visit.start fns) v → v.pending = [] →
      v.seen.Perm (componentsOf structs fns) := by
  have hsound := Visit.sound_reach structs fns
  have hperm := componentsOf_perm structs fns
  have hleast : IsLeast {keys | HoldsAll structs fns keys}
      {key | key ∈ componentsOf structs fns} := by
    simpa only [hperm.mem_iff] using hsound.isLeast rfl
  refine ⟨pairwise_componentsOf structs fns, hleast, Visit.wellFounded_step structs, ?_⟩
  -- every traversal ends with the least set, and no key is seen twice
  intro v hrun hend
  have hv := Visit.sound_start.run hrun
  have hsame : {key | key ∈ v.seen} = {key | key ∈ componentsOf structs fns} :=
    (hv.isLeast hend).unique hleast
  refine (List.perm_ext_iff_of_nodup hv.distinct ?_).2 fun key => Set.ext_iff.1 hsame key
  exact hperm.nodup_iff.2 hsound.distinct

/-! ## Structs that refer to each other -/

namespace Circle

/-- A field of a type. -/
def field (type : DataType) : StructField :=
  ⟨"F", "F", type, .empty, .empty, true, ""⟩

/-- A struct with fields of these types. -/
def struct (name : String) (types : List DataType) : Struct :=
  ⟨"p", name, types.map field, .empty, true, ""⟩

/-- Two structs refer to each other; one of them also refers to a struct that is still in progress,
the other one to a struct that is not in the table. -/
def structs : StructTable :=
  ⟨.ofEntries [("p.Unused", .resolved (struct "Unused" [.struct "p.A"])),
    ("p.A", .resolved (struct "A" [.array (.struct "p.B"), .map .string (.struct "q.Gone")])),
    ("p.B", .resolved (struct "B" [.pointer (.struct "p.A"), .struct "p.Open"])),
    ("p.Open", .inProgress)]⟩

/-- A function that carries one of the structs. -/
def fns : List Function :=
  [⟨"s", "F", "p", ⟨"x.go"⟩, 1, some ⟨none, .pointer (.struct "p.A")⟩, none, .empty, ""⟩]

/-- A traversal that takes the key which has been pending longest. -/
lemma run_oldest : ReflTransGen (Visit.Step structs) (Visit.start fns)
    ⟨["p.Open", "q.Gone", "p.B", "p.A"], []⟩ := by
  have hA : Visit.Step structs (Visit.start fns) ⟨["p.A"], ["p.B", "q.Gone"]⟩ :=
    .first_head (by decide) (by decide)
  have hB : Visit.Step structs ⟨["p.A"], ["p.B", "q.Gone"]⟩
      ⟨["p.B", "p.A"], ["q.Gone", "p.A", "p.Open"]⟩ :=
    .first_head (by decide) (by decide)
  have hGone : Visit.Step structs ⟨["p.B", "p.A"], ["q.Gone", "p.A", "p.Open"]⟩
      ⟨["q.Gone", "p.B", "p.A"], ["p.A", "p.Open"]⟩ :=
    .first_head (by decide) (by decide)
  have hagain : Visit.Step structs ⟨["q.Gone", "p.B", "p.A"], ["p.A", "p.Open"]⟩
      ⟨["q.Gone", "p.B", "p.A"], ["p.Open"]⟩ :=
    .again_head (by decide)
  have hOpen : Visit.Step structs ⟨["q.Gone", "p.B", "p.A"], ["p.Open"]⟩
      ⟨["p.Open", "q.Gone", "p.B", "p.A"], []⟩ :=
    .first_head (by decide) (by decide)
  exact .head hA (.head hB (.head hGone (.head hagain (.single hOpen))))

/-- The traversal has seen the components, which are sorted. -/
theorem circle_components : ReflTransGen (Visit.Step structs) (Visit.start fns)
      ⟨["p.Open", "q.Gone", "p.B", "p.A"], []⟩ ∧
    componentsOf structs fns = ["p.A", "p.B", "p.Open", "q.Gone"] := by
  obtain ⟨hsorted, -, -, hends⟩ := components_least structs fns
  have hperm : ["p.Open", "q.Gone", "p.B", "p.A"].Perm (componentsOf structs fns) :=
    hends _ run_oldest rfl
  refine ⟨run_oldest, ?_⟩
  refine List.Perm.eq_of_pairwise (fun a b _ _ hab hba => absurd hba (lt_asymm hab)) hsorted
    (by decide) (hperm.symm.trans (by decide))

end Circle

end GoService.Service
