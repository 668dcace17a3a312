import GoService.Project.Layout
import GoService.Proofs.Project.Components
import Mathlib.Logic.Function.Iterate

/-!
# The place that a normalized path leads to

A path leads from a directory down along its names and up at each `..`. What comes out of
`normalize` is short: names, before them one `..` at most, and no dots. For a path that leads at
most one directory above its start this is the same place; of the steps of a path that leads further
up only the rest by two is left (`normalize_place`).
-/

namespace GoService.Project

open Text FilePath

/-! ## Places -/

/-- A place: by the names from the root, or by the names from a directory some steps above the
start. The last name stands first. -/
inductive Place where
  | absolute (names : List String)
  | relative (ascents : Nat) (names : List String)
  deriving DecidableEq

namespace Place

/-- The start of a relative path. -/
def here : Place :=
  relative 0 []

/-- The place that a component leads to. Nothing is above the root. -/
def follow : Place → Component → Place
  | _, .root => absolute []
  | q, .current => q
  | absolute names, .parent => absolute names.tail
  | relative n [], .parent => relative (n + 1) []
  | relative n (_ :: names), .parent => relative n names
  | absolute names, .name s => absolute (s :: names)
  | relative n names, .name s => relative n (s :: names)

/-- How many steps above the start the place lies. -/
def ascents : Place → Nat
  | absolute _ => 0
  | relative n _ => n

/-- The place with an even number of steps up left out. -/
def shortened : Place → Place
  | absolute names => absolute names
  | relative n names => relative (n % 2) names

/-- The place with another one as its start. -/
def seenFrom (s : Place) : Place → Place
  | absolute names => absolute names
  | relative n names => names.foldr (fun name q => q.follow (.name name)) ((·.follow .parent)^[n] s)

/-- A dot leads nowhere else. -/
lemma follow_current (q : Place) : q.follow .current = q := by
  cases q <;> rfl

/-- A step down and one up lead back. -/
lemma follow_name_parent (q : Place) (name : String) :
    (q.follow (.name name)).follow .parent = q := by
  cases q <;> rfl

/-- It does not matter from where a place is seen when a step is taken. -/
lemma seenFrom_follow (s q : Place) (c : Component) :
    s.seenFrom (q.follow c) = (s.seenFrom q).follow c := by
  cases c with
  | root => rfl
  | current => rw [follow_current, follow_current]
  | parent =>
    cases q with
    | absolute names => rfl
    | relative n names =>
      cases names with
      | nil => exact Function.iterate_succ_apply' ..
      | cons name names => exact (follow_name_parent ..).symm
  | name name => cases q <;> rfl

end Place

namespace FilePath

/-- The place that a path leads to from another place. -/
def placeFrom (s : Place) (p : FilePath) : Place :=
  p.components.foldl Place.follow s

/-- How many steps above its start a path ends. -/
def climbs (p : FilePath) : Nat :=
  (p.placeFrom .here).ascents

/-- Where a path leads from a place is what it leads to from here, seen from that place. -/
lemma placeFrom_eq_seenFrom (s : Place) (p : FilePath) :
    p.placeFrom s = s.seenFrom (p.placeFrom .here) := by
  have hrun (cs : List Component) (q : Place) :
      cs.foldl Place.follow (s.seenFrom q) = s.seenFrom (cs.foldl Place.follow q) := by
    induction cs generalizing q with
    | nil => rfl
    | cons c cs ih => rw [List.foldl_cons, List.foldl_cons, ← Place.seenFrom_follow, ih]
  exact hrun p.components .here

/-- Two paths lead to the same place from everywhere if they do so from one start. -/
lemma placeFrom_eq_iff {p q : FilePath} :
    (∀ s, p.placeFrom s = q.placeFrom s) ↔ p.placeFrom .here = q.placeFrom .here := by
  refine ⟨fun h => h .here, fun h s => ?_⟩
  rw [placeFrom_eq_seenFrom, h, ← placeFrom_eq_seenFrom]

end FilePath

/-! ## Joined paths -/

namespace FilePath

/-- A relative path leads from a place step by step. -/
lemma placeFrom_relative {rel : String} (hrel : rel.toList.head? ≠ some '/') (s : Place) :
    (FilePath.mk rel).placeFrom s = (steps rel).foldl Place.follow s := by
  rw [placeFrom, components_eq, List.foldl_append]
  rcases start_of_relative hrel with h | h
  · rw [h, List.foldl_cons, Place.follow_current, List.foldl_nil]
  · rw [h, List.foldl_nil]

/-- A path is followed from where the one before it leads. -/
lemma placeFrom_join (p : FilePath) {rel : String} (hrel : rel.toList.head? ≠ some '/')
    (s : Place) : (p.join rel).placeFrom s = (FilePath.mk rel).placeFrom (p.placeFrom s) := by
  by_cases hp : p.text = ""
  · obtain rfl : p = ⟨""⟩ := by rw [← hp]
    have hslashed : slashed ⟨""⟩ = "" := rfl
    rw [join_of_relative hrel, hslashed, String.empty_append]
    rfl
  · rw [placeFrom_relative hrel, placeFrom, components_join hp hrel, List.foldl_append, placeFrom]

/-- An absolute path leads to one place from everywhere. -/
lemma placeFrom_of_isAbsolute {p : FilePath} (h : p.isAbsolute = true) (s t : Place) :
    p.placeFrom s = p.placeFrom t := by
  rw [placeFrom, placeFrom, components_eq, start_of_isAbsolute h, List.foldl_append,
    List.foldl_append]
  rfl

end FilePath

/-! ## Components of a text -/

/-- A component that can stand anywhere in a path. -/
inductive Component.Inner : Component → Prop
  | parent : Inner .parent
  | name {s : String} (hname : IsName s) (hplain : '/' ∉ s.toList) : Inner (.name s)

namespace Component.Inner

variable {c : Component}

/-- A component inside a path is read of its own text. -/
lemma componentOf?_text (h : c.Inner) : componentOf? c.text = some c := by
  cases h with
  | parent => rfl
  | name hname => exact componentOf?_eq_name hname

/-- A component inside a path has no slash. -/
lemma notMem_text (h : c.Inner) : '/' ∉ c.text.toList := by
  cases h with
  | parent => decide
  | name _ hplain => exact hplain

/-- A component inside a path is not empty. -/
lemma text_ne_empty (h : c.Inner) : c.text ≠ "" := by
  cases h with
  | parent => decide
  | name hname => exact hname.nonempty

/-- A component inside a path is not a dot. -/
lemma text_ne_dot (h : c.Inner) : c.text ≠ "." := by
  cases h with
  | parent => decide
  | name hname => exact hname.notCurrent

end Component.Inner

namespace FilePath

/-- Every step of a text is a component inside a path. -/
lemma inner_of_mem_steps {rel : String} {c : Component} (hc : c ∈ steps rel) : c.Inner := by
  obtain ⟨u, hu, hc⟩ := List.mem_filterMap.1 hc
  rw [componentOf?] at hc
  split at hc
  · cases hc
  · next hkept =>
    obtain ⟨hempty, hdot⟩ := not_or.1 hkept
    split at hc
    · cases hc
      exact .parent
    · next hdots =>
      cases hc
      exact .name ⟨hempty, hdot, hdots⟩ (notMem_of_mem_splitString hu)

variable {cs : List Component}

/-- The steps of components with slashes between them are these components. -/
lemma steps_intercalate (h : ∀ c ∈ cs, c.Inner) :
    steps ("/".intercalate (cs.map Component.text)) = cs := by
  by_cases hcs : cs = []
  · rw [hcs]
    rfl
  · have hplain : ∀ u ∈ cs.map Component.text, '/' ∉ u.toList :=
      List.forall_mem_map.2 fun c hc => (h c hc).notMem_text
    rw [steps, splitString_intercalate (mt List.map_eq_nil_iff.1 hcs) hplain, List.filterMap_map]
    exact (List.filterMap_congr fun c hc => (h c hc).componentOf?_text).trans List.filterMap_some

/-- A path that is written with components has these again. -/
lemma components_ofComponents (h : ∀ c ∈ cs, c.Inner) : (ofComponents cs).components = cs := by
  cases cs with
  | nil => rfl
  | cons c cs =>
    have hc := h c List.mem_cons_self
    have htext : ofComponents (c :: cs) = ⟨"/".intercalate ((c :: cs).map Component.text)⟩ := by
      cases hc <;> rfl
    have hplain : ∀ u ∈ (c :: cs).map Component.text, '/' ∉ u.toList :=
      List.forall_mem_map.2 fun c hc => (h c hc).notMem_text
    have hpieces := splitString_intercalate (List.cons_ne_nil _ _) hplain
    have hfirst : (splitString '/' ("/".intercalate ((c :: cs).map Component.text))).head? ≠
        some "." := by
      rw [List.map_cons, hpieces]
      exact fun hdot => hc.text_ne_dot (Option.some.inj hdot)
    rw [htext, components_eq, steps_intercalate h, start_eq_nil ?_ hfirst]
    · rfl
    · exact head?_intercalate_ne hc.text_ne_empty hc.notMem_text _

/-- An absolute path that is put together has its components again. -/
lemma components_ofComponents_root (h : ∀ c ∈ cs, c.Inner) :
    (ofComponents (.root :: cs)).components = .root :: cs := by
  have htext : ofComponents (.root :: cs) =
      ⟨"" ++ "/" ++ "/".intercalate (cs.map Component.text)⟩ := rfl
  have habsolute : (ofComponents (.root :: cs)).isAbsolute = true := by
    rw [htext, isAbsolute, beq_iff_eq]
    simp
  rw [components_eq, start_of_isAbsolute habsolute, htext, steps_slash, steps_intercalate h]
  rfl

end FilePath

/-! ## Normal paths -/

/-- What is left of a path that leads to a place when it is normalized, the last component first. Of
several steps up it is seen only whether their number is even; at the root they lead nowhere. -/
inductive IsStack : List Component → Place → Prop
  | root : IsStack [.root] (.absolute [])
  | aboveRoot : IsStack [.parent, .root] (.absolute [])
  | even {n : Nat} (h : n % 2 = 0) : IsStack [] (.relative n [])
  | odd {n : Nat} (h : n % 2 = 1) : IsStack [.parent] (.relative n [])
  | name {stack : List Component} {q : Place} {s : String} (hs : (Component.name s).Inner)
      (h : IsStack stack q) : IsStack (.name s :: stack) (q.follow (.name s))

namespace IsStack

variable {stack : List Component} {q : Place}

/-- One component is taken into account as it is by following it. -/
lemma step (h : IsStack stack q) {c : Component} (hc : c.Inner) :
    IsStack (normalizeStep stack c) (q.follow c) := by
  cases hc with
  | name hname hplain => exact .name (.name hname hplain) h
  | parent =>
    cases h with
    | root => exact .aboveRoot
    | aboveRoot => exact .root
    | even hn => exact .odd (by omega)
    -- the second `..` takes the first one away, though both lead up
    | odd hn => exact .even (by omega)
    | name hs h => rwa [Place.follow_name_parent]

/-- Normalizing keeps the stack of the place step by step. -/
lemma run (h : IsStack stack q) {cs : List Component} (hcs : ∀ c ∈ cs, c.Inner) :
    IsStack (cs.foldl normalizeStep stack) (cs.foldl Place.follow q) := by
  induction cs generalizing stack q with
  | nil => exact h
  | cons c cs ih =>
    obtain ⟨hc, hcs⟩ := List.forall_mem_cons.1 hcs
    exact ih (h.step hc) hcs

/-- Followed from the start, what is left leads to the place, but for an even number of steps up. -/
lemma foldl_follow (h : IsStack stack q) :
    stack.reverse.foldl Place.follow .here = q.shortened := by
  induction h with
  | root => rfl
  | aboveRoot => rfl
  | even hn => rw [Place.shortened, hn]; rfl
  | odd hn => rw [Place.shortened, hn]; rfl
  | @name stack q s hs h ih =>
    rw [List.reverse_cons, List.foldl_concat, ih]
    cases q <;> rfl

/-- What is left stays when it is normalized once more. -/
lemma foldl_normalizeStep (h : IsStack stack q) :
    stack.reverse.foldl normalizeStep [] = stack := by
  induction h with
  | root => rfl
  | aboveRoot => rfl
  | even hn => rfl
  | odd hn => rfl
  | name hs h ih =>
    rw [List.reverse_cons, List.foldl_concat, ih]
    rfl

/-- Only the root stands apart from components that can stand anywhere. -/
lemma inner_or_root (h : IsStack stack q) :
    (∀ c ∈ stack, c.Inner) ∨ ∃ cs, stack = cs ++ [.root] ∧ ∀ c ∈ cs, c.Inner := by
  induction h with
  | root => exact .inr ⟨[], rfl, List.forall_mem_nil _⟩
  | aboveRoot => exact .inr ⟨[.parent], rfl, List.forall_mem_singleton.2 .parent⟩
  | even hn => exact .inl (List.forall_mem_nil _)
  | odd hn => exact .inl (List.forall_mem_singleton.2 .parent)
  | @name stack q s hs h ih =>
    rcases ih with ih | ⟨cs, rfl, ih⟩
    · exact .inl (List.forall_mem_cons.2 ⟨hs, ih⟩)
    · exact .inr ⟨.name s :: cs, rfl, List.forall_mem_cons.2 ⟨hs, ih⟩⟩

/-- What is left is written as a path that has the same components again. -/
lemma components_ofComponents (h : IsStack stack q) :
    (ofComponents stack.reverse).components = stack.reverse := by
  rcases h.inner_or_root with hinner | ⟨cs, rfl, hinner⟩
  · exact FilePath.components_ofComponents fun c hc => hinner c (List.mem_reverse.1 hc)
  · rw [List.reverse_append, List.reverse_singleton, List.singleton_append]
    exact components_ofComponents_root fun c hc => hinner c (List.mem_reverse.1 hc)

end IsStack

/-- Components without a dot, and without `..` behind a name. -/
structure IsNormal (cs : List Component) : Prop where
  noDot : .current ∉ cs
  upFirst : cs.Pairwise fun c d => d = .parent → ∀ s, c ≠ .name s

/-- A stack that tells a place is normal when it is read from below. -/
lemma IsStack.isNormal {stack : List Component} {q : Place} (h : IsStack stack q) :
    IsNormal stack.reverse := by
  induction h with
  | root => exact ⟨by decide, List.pairwise_singleton _ _⟩
  | aboveRoot => exact ⟨by decide, by simp⟩
  | even hn => exact ⟨by decide, .nil⟩
  | odd hn => exact ⟨by decide, List.pairwise_singleton _ _⟩
  | name hs h ih =>
    rw [List.reverse_cons]
    refine ⟨?_, List.pairwise_append.2 ⟨ih.upFirst, List.pairwise_singleton _ _, ?_⟩⟩
    · rw [List.mem_append, List.mem_singleton, not_or]
      exact ⟨ih.noDot, Component.noConfusion⟩
    · intro c _ d hd
      rw [List.mem_singleton.1 hd]
      exact nofun

namespace FilePath

/-- The components of the normalized path, the last one first. -/
def normalStack (p : FilePath) : List Component :=
  p.components.foldl normalizeStep []

/-- The stack of a path tells the place to which it leads. -/
lemma isStack_normalStack (p : FilePath) : IsStack p.normalStack (p.placeFrom .here) := by
  have hsteps : ∀ c ∈ steps p.text, c.Inner := fun c hc => inner_of_mem_steps hc
  have hrelative : IsStack [] .here := .even rfl
  rw [normalStack, placeFrom, components_eq, List.foldl_append, List.foldl_append]
  refine IsStack.run ?_ hsteps
  by_cases habsolute : p.isAbsolute = true
  · rw [start_of_isAbsolute habsolute]
    exact .root
  · rcases start_of_relative (mt isAbsolute_iff.2 habsolute) with h | h
    · rw [h]
      exact hrelative
    · rw [h]
      exact hrelative

/-- A normalized path has the components on the stack. -/
lemma components_normalize (p : FilePath) : p.normalize.components = p.normalStack.reverse :=
  p.isStack_normalStack.components_ofComponents

/-- A normalized path leads to the same place, but for an even number of steps up. -/
lemma placeFrom_normalize (p : FilePath) :
    p.normalize.placeFrom .here = (p.placeFrom .here).shortened := by
  rw [placeFrom, components_normalize]
  exact p.isStack_normalStack.foldl_follow

/-- Normalizing twice is normalizing once. -/
lemma normalize_normalize (p : FilePath) : p.normalize.normalize = p.normalize := by
  rw [normalize, components_normalize, p.isStack_normalStack.foldl_normalizeStep]
  rfl

end FilePath

/-- A place is left as it is exactly if it is at most one step above the start. -/
lemma Place.shortened_eq_iff (q : Place) : q.shortened = q ↔ q.ascents ≤ 1 := by
  cases q with
  | absolute names => exact iff_of_true rfl (Nat.zero_le 1)
  | relative n names =>
    rw [shortened, relative.injEq, and_iff_left rfl, Nat.mod_eq_iff_lt (by decide)]
    exact Nat.lt_succ_iff

/-- Of the steps above the start an even number is lost. -/
lemma Place.ascents_shortened (q : Place) : q.shortened.ascents = q.ascents % 2 := by
  cases q <;> rfl

/-- The normalized path leads to the same place just if the path leads at most one step up. -/
lemma FilePath.normalize_faithful_iff (p : FilePath) :
    (∀ s, p.normalize.placeFrom s = p.placeFrom s) ↔ p.climbs ≤ 1 := by
  rw [placeFrom_eq_iff, placeFrom_normalize, Place.shortened_eq_iff, climbs]

/-- The directory that replaces a module is written by a path from the root of the project. -/
lemma Layout.exists_moduleRoot? (l : Layout) {r : Requirement} {p : FilePath}
    (hr : r.replacement = some (.path p.text)) : ∃ written : FilePath,
      l.moduleRoot? r = some written.normalize ∧
        ∀ s, written.placeFrom s = p.placeFrom (l.root.placeFrom s) := by
  rw [moduleRoot?, hr]
  by_cases habsolute : p.isAbsolute = true
  · exact ⟨p, if_pos habsolute, fun s => placeFrom_of_isAbsolute habsolute _ _⟩
  · exact ⟨_, if_neg habsolute, placeFrom_join l.root (mt isAbsolute_iff.2 habsolute)⟩

/-- A normalized path has no dots, and no `..` behind a name, and stays when it is normalized once
more. From everywhere it leads to the same place as the path, unless the path leads two steps or
more above its start; of these steps one is left if their number is odd, and none if it is even. So
the root of a module that is replaced by a directory is where its path leads from the root of the
project, unless both together lead two steps or more above the start. -/
theorem normalize_place (p : FilePath) :
    ((∀ s, p.normalize.placeFrom s = p.placeFrom s) ↔ p.climbs ≤ 1) ∧
      p.normalize.climbs = p.climbs % 2 ∧ IsNormal p.normalize.components ∧
      p.normalize.normalize = p.normalize ∧
      ∀ (l : Layout) (r : Requirement), r.replacement = some (.path p.text) →
        ∃ dir, l.moduleRoot? r = some dir ∧
          ((∀ s, dir.placeFrom s = p.placeFrom (l.root.placeFrom s)) ↔
            (p.placeFrom (l.root.placeFrom .here)).ascents ≤ 1) := by
  refine ⟨p.normalize_faithful_iff, ?_, ?_, p.normalize_normalize, fun l r hr => ?_⟩
  · rw [FilePath.climbs, FilePath.placeFrom_normalize, Place.ascents_shortened, FilePath.climbs]
  · rw [components_normalize]
    exact p.isStack_normalStack.isNormal
  · obtain ⟨written, hroot, hplace⟩ := l.exists_moduleRoot? hr
    refine ⟨written.normalize, hroot, ?_⟩
    simp only [← hplace]
    exact written.normalize_faithful_iff

namespace LocalFork

/-- A layout of a project at a root that has nothing but this root. -/
def layout (root : String) : Layout :=
  ⟨⟨root⟩, ⟨"m", none, none, [], []⟩, none, none, false⟩

/-- A module that is replaced by a directory. -/
def requirement (path : String) : Requirement :=
  ⟨"foo", "v1.0.0", false, some (.path path)⟩

/-- From a root with names the directory is found, however far its path leads up. -/
theorem fork_located : (layout "/work/app").moduleRoot? (requirement "../../../foo") =
      some ⟨"/../foo"⟩ ∧
    ∀ s, (FilePath.mk "/../foo").placeFrom s =
      (FilePath.mk "../../../foo").placeFrom ((FilePath.mk "/work/app").placeFrom s) := by
  have hroot : (layout "/work/app").moduleRoot? (requirement "../../../foo") =
      some ⟨"/../foo"⟩ := by decide +kernel
  obtain ⟨-, -, -, -, hlayout⟩ := normalize_place ⟨"../../../foo"⟩
  obtain ⟨dir, hdir, hplace⟩ := hlayout (layout "/work/app") (requirement "../../../foo") rfl
  obtain rfl := Option.some.inj (hroot.symm.trans hdir)
  exact ⟨hroot, hplace.2 (by decide +kernel)⟩

/-- From a root that is the start itself two steps up are lost, and the directory is looked for in
the project. -/
theorem fork_missed : (layout ".").moduleRoot? (requirement "../../foo") = some ⟨"foo"⟩ ∧
    (FilePath.mk "../../foo").placeFrom ((FilePath.mk ".").placeFrom .here) =
      .relative 2 ["foo"] ∧
    (FilePath.mk "foo").placeFrom .here = .relative 0 ["foo"] ∧
    ¬ ∀ p : FilePath, ∀ s, p.normalize.placeFrom s = p.placeFrom s := by
  refine ⟨by decide +kernel, by decide +kernel, by decide +kernel, fun h => ?_⟩
  exact absurd (h ⟨"../.."⟩ .here) (by decide +kernel)

end LocalFork

end GoService.Project
