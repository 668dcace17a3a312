import GoService.Project.PackageTree
import GoService.Proofs.Lists
import Mathlib.Data.List.Lex
import Mathlib.Data.String.Basic

/-!
# Files by directories

The tree of a project is made by taking files, directory by directory, from all files in the order
of their directories. The files below a directory stand next to each other then, so the same tree
comes from a recursion that only looks at the files below each directory (`takeTree_eq`), by the
names that lead there from it (`FilesByDir.below`).
-/

namespace GoService.Project.FilesByDir

/-! ## Below a directory -/

/-- The files in the directory itself. -/
def own (m : FilesByDir) : List FilePath :=
  (m.lookup []).getD []

/-- The names of the directories directly below, each once. -/
def childNames (m : FilesByDir) : List String :=
  (m.filterMap fun e => e.1.head?).eraseDups

/-- The files in and below the directory with a name, by the names from there. -/
def child (m : FilesByDir) (name : String) : FilesByDir :=
  m.filterMap fun
    | (head :: rest, files) => if head = name then some (rest, files) else none
    | ([], _) => none

/-- The files in and below a directory, by the names from there. -/
def below (m : FilesByDir) (dir : List String) : FilesByDir :=
  dir.foldl child m

/-- The tree of a directory, at most `fuel` directories deep, from the files in and below it;
`under` are the names from the root of the project to it. -/
def toNode (root : FilePath) (importRoot : String) : Nat → List String → FilesByDir → PackageDir
  | fuel, under, m =>
    let importPath := under.foldl (fun p name => p ++ "/" ++ name) importRoot
    let children := match fuel with
      | 0 => []
      | fuel + 1 => m.childNames.map fun name =>
        toNode root importRoot fuel (under ++ [name]) (m.child name)
    .node importPath (suggestedName importPath) (under.foldl FilePath.join root) m.own
      (children.mergeSort PackageDir.before)

variable {m : FilesByDir} {dir rest : List String} {name : String} {files : List FilePath}

/-- No directory is listed twice among those directly below. -/
lemma nodup_childNames (m : FilesByDir) : m.childNames.Nodup :=
  nodup_eraseDups _

/-- What is below a directory in a directory is below the inner one. -/
lemma below_concat (m : FilesByDir) (dir : List String) (name : String) :
    m.below (dir ++ [name]) = (m.below dir).child name :=
  List.foldl_concat ..

/-- The files below a directory, picked from all files at once. -/
lemma below_eq (m : FilesByDir) (dir : List String) :
    m.below dir = m.filterMap fun e => (dir.isPrefixOf? e.1).map (·, e.2) := by
  induction dir generalizing m with
  | nil =>
    have hall : (fun e : List String × List FilePath =>
        (List.isPrefixOf? [] e.1).map (·, e.2)) = some := rfl
    rw [hall, List.filterMap_some]
    rfl
  | cons name dir ih =>
    rw [show m.below (name :: dir) = (m.child name).below dir from rfl, ih, child,
      List.filterMap_filterMap]
    congr 1
    funext e
    obtain ⟨key, files⟩ := e
    cases key with
    | nil => rfl
    | cons head rest =>
      by_cases h : head = name
      · simp [List.isPrefixOf?, h]
      · simp [List.isPrefixOf?, h, Ne.symm h]

/-- A directory below has the files that it has with the full path. -/
lemma mem_below : (rest, files) ∈ m.below dir ↔ (dir ++ rest, files) ∈ m := by
  rw [below_eq, List.mem_filterMap]
  constructor
  · rintro ⟨⟨key, files'⟩, hmem, h⟩
    obtain ⟨rest', hrest, heq⟩ := Option.map_eq_some_iff.1 h
    cases heq
    rwa [List.isPrefixOf?_eq_some_iff_append_eq.1 hrest]
  · intro hmem
    exact ⟨_, hmem, by rw [List.isPrefixOf?_eq_some_iff_append_eq.2 rfl]; rfl⟩

/-- The entries below a name are those whose path begins with it, without the name. -/
lemma child_cons (head : String) (tail : List String) (files : List FilePath) (m : FilesByDir)
    (name : String) : child ((head :: tail, files) :: m) name =
      if head = name then (tail, files) :: m.child name else m.child name := by
  simp only [child, List.filterMap_cons]
  split <;> simp_all

/-- The files of a directory below a name are those of its full path. -/
lemma lookup_child (m : FilesByDir) (name : String) (rest : List String) :
    (m.child name).lookup rest = m.lookup (name :: rest) := by
  induction m with
  | nil => rfl
  | cons e m ih =>
    obtain ⟨key, files⟩ := e
    cases key with
    | nil => exact ih
    | cons head tail =>
      rw [child_cons]
      by_cases hhead : head = name
      · rw [if_pos hhead, List.lookup_cons, List.lookup_cons, ih, hhead, List.cons_beq_cons,
          beq_self_eq_true, Bool.true_and]
      · rw [if_neg hhead, ih, List.lookup_cons, List.cons_beq_cons,
          beq_false_of_ne (Ne.symm hhead), Bool.false_and]

/-- The directories directly below one are those on the way to its entries. -/
lemma mem_childNames_below :
    name ∈ (m.below dir).childNames ↔ ∃ e ∈ m, dir ++ [name] <+: e.1 := by
  rw [childNames, List.mem_eraseDups, List.mem_filterMap]
  constructor
  · rintro ⟨⟨key, files⟩, hmem, hname⟩
    obtain ⟨rest, rfl⟩ := List.head?_eq_some_iff.1 hname
    exact ⟨_, mem_below.1 hmem, ⟨rest, List.append_assoc ..⟩⟩
  · rintro ⟨⟨key, files⟩, hmem, rest, rfl⟩
    rw [List.append_assoc] at hmem
    exact ⟨_, mem_below.2 hmem, rfl⟩

/-- The files of a directory below another are those of its full path. -/
lemma lookup_below (m : FilesByDir) (dir rest : List String) :
    (m.below dir).lookup rest = m.lookup (dir ++ rest) := by
  induction dir using List.reverseRecOn generalizing rest with
  | nil => rfl
  | append_singleton dir name ih =>
    rw [below_concat, lookup_child, ih, List.append_assoc, List.singleton_append]

/-- The files directly in a directory are those at its path. -/
lemma own_below (m : FilesByDir) (dir : List String) :
    (m.below dir).own = (m.lookup dir).getD [] := by
  rw [own, lookup_below, List.append_nil]

/-- What is taken elsewhere does not matter below a directory. -/
lemma below_filter {p : List String × List FilePath → Bool}
    (h : ∀ e ∈ m, dir <+: e.1 → p e = true) : below (m.filter p) dir = m.below dir := by
  rw [below_eq, below_eq, List.filterMap_filter]
  refine List.filterMap_congr fun e he => ?_
  cases hrest : dir.isPrefixOf? e.1 with
  | none => simp
  | some rest =>
    rw [if_pos (h e he ⟨rest, List.isPrefixOf?_eq_some_iff_append_eq.1 hrest⟩)]

/-! ## Maps -/

/-- The directories are different and in order, and each has files. -/
structure IsMap (m : FilesByDir) : Prop where
  sorted : m.Pairwise fun a b => a.1 < b.1
  nonempty : ∀ e ∈ m, e.2 ≠ []

/-- In a map the files of a directory are found under it. -/
lemma IsMap.lookup_eq_some_iff (h : m.IsMap) :
    m.lookup dir = some files ↔ (dir, files) ∈ m := by
  rw [List.lookup_eq_some_iff]
  constructor
  · rintro ⟨before, after, rfl, -⟩
    exact List.mem_append_right _ List.mem_cons_self
  · intro hmem
    obtain ⟨before, after, rfl⟩ := List.append_of_mem hmem
    refine ⟨before, after, rfl, fun e he => ?_⟩
    exact bne_iff_ne.2 ((List.pairwise_append.1 h.sorted).2.2 e he _ List.mem_cons_self).ne'

/-- A map has no entry twice. -/
lemma IsMap.nodup (h : m.IsMap) : m.Nodup :=
  h.sorted.imp fun hlt heq => (heq ▸ hlt).false

/-- An entry after adding a file is that of its directory or an old one. -/
lemma mem_add {file : FilePath} {e : List String × List FilePath} (h : e ∈ m.add dir file) :
    e.1 = dir ∧ e.2 ≠ [] ∨ e ∈ m := by
  induction m with
  | nil =>
    cases List.mem_singleton.1 h
    exact .inl ⟨rfl, List.cons_ne_nil _ _⟩
  | cons e' m ih =>
    rw [add] at h
    split at h
    · rcases List.mem_cons.1 h with rfl | h
      · exact .inl ⟨rfl, List.append_ne_nil_of_right_ne_nil _ (List.cons_ne_nil _ _)⟩
      · exact .inr (List.mem_cons_of_mem _ h)
    · split at h
      · rcases List.mem_cons.1 h with rfl | h
        · exact .inl ⟨rfl, List.cons_ne_nil _ _⟩
        · exact .inr h
      · rcases List.mem_cons.1 h with rfl | h
        · exact .inr List.mem_cons_self
        · exact (ih h).imp_right (List.mem_cons_of_mem _)

/-- Adding a file to its directory keeps a map a map. -/
lemma IsMap.add (h : m.IsMap) (dir : List String) (file : FilePath) : (m.add dir file).IsMap := by
  refine ⟨?_, fun e he => (mem_add he).elim (·.2) (h.nonempty e)⟩
  have hsorted := h.sorted
  clear h
  induction m with
  | nil => exact List.pairwise_singleton _ _
  | cons e m ih =>
    obtain ⟨hfirst, hrest⟩ := List.pairwise_cons.1 hsorted
    rw [FilesByDir.add]
    split
    · next heq => exact List.pairwise_cons.2 ⟨fun b hb => heq ▸ hfirst b hb, hrest⟩
    · next hne =>
      split
      · next hlt =>
        refine List.pairwise_cons.2 ⟨fun b hb => ?_, hsorted⟩
        rcases List.mem_cons.1 hb with rfl | hb
        · exact hlt
        · exact hlt.trans (hfirst b hb)
      · next hnlt =>
        refine List.pairwise_cons.2 ⟨fun b hb => ?_, ih hrest⟩
        rcases mem_add hb with ⟨rfl, -⟩ | hb
        · exact lt_of_le_of_ne (not_lt.1 hnlt) hne
        · exact hfirst b hb

/-- What a walk meets is collected in a map. -/
lemma IsMap.collectSources {m m' : FilesByDir} (hm : m.IsMap)
    {met : List (Except WalkError WalkEntry)} (h : collectSources m met = .ok m') : m'.IsMap := by
  induction met generalizing m with
  | nil =>
    cases h
    exact hm
  | cons r met ih =>
    cases r with
    | error e =>
      rw [Project.collectSources] at h
      split at h
      · exact ih hm h
      · cases h
    | ok e =>
      rw [Project.collectSources] at h
      refine ih ?_ h
      split
      · exact hm.add e.under e.path
      · exact hm

/-- There is a map without entries. -/
lemma isMap_nil : IsMap [] :=
  ⟨.nil, fun _ h => absurd h List.not_mem_nil⟩

/-- Part of a map is a map. -/
lemma IsMap.filter (h : m.IsMap) (p : List String × List FilePath → Bool) :
    IsMap (m.filter p) :=
  ⟨h.sorted.filter p, fun e he => h.nonempty e (List.mem_of_mem_filter he)⟩

/-! ## Directories in a directory -/

/-- Paths below one directory are in the order in which they go on. -/
lemma lt_of_append_lt {dir rest rest' : List String} (h : dir ++ rest < dir ++ rest') :
    rest < rest' := by
  induction dir with
  | nil => exact h
  | cons name dir ih =>
    rcases List.cons_lt_cons_iff.1 h with h | ⟨-, h⟩
    · exact absurd h (lt_irrefl name)
    · exact ih h

/-- In a map the names of the directories below a directory are in order. -/
lemma IsMap.pairwise_names (h : m.IsMap) (dir : List String) :
    ((m.below dir).filterMap fun e => e.1.head?).Pairwise (· ≤ ·) := by
  rw [below_eq, List.filterMap_filterMap]
  refine List.Pairwise.filterMap _ ?_ h.sorted
  rintro e e' hlt name hname name' hname'
  obtain ⟨r, hr, hname⟩ := Option.bind_eq_some_iff.1 hname
  obtain ⟨r', hr', hname'⟩ := Option.bind_eq_some_iff.1 hname'
  obtain ⟨rest, hrest, rfl⟩ := Option.map_eq_some_iff.1 hr
  obtain ⟨rest', hrest', rfl⟩ := Option.map_eq_some_iff.1 hr'
  rw [← List.isPrefixOf?_eq_some_iff_append_eq.1 hrest,
    ← List.isPrefixOf?_eq_some_iff_append_eq.1 hrest'] at hlt
  obtain ⟨tail, rfl⟩ := List.head?_eq_some_iff.1 hname
  obtain ⟨tail', rfl⟩ := List.head?_eq_some_iff.1 hname'
  rcases List.cons_lt_cons_iff.1 (lt_of_append_lt hlt) with hlt | ⟨rfl, -⟩
  · exact hlt.le
  · exact le_rfl

/-- When the files of a directory are taken, the directories in it are found by their names. -/
lemma IsMap.inner_eq (h : m.IsMap) (dir : List String) :
    inner (m.filter (·.1 != dir)) dir = (m.below dir).childNames.map (dir ++ [·]) := by
  have hinjective : Function.Injective fun name : String => dir ++ [name] := fun _ _ heq =>
    List.singleton_inj.1 (List.append_cancel_left heq)
  have hnames : (m.filter (·.1 != dir)).filterMap
      (fun e => (dir.isPrefixOf? e.1).bind List.head?) =
        (m.below dir).filterMap fun e => e.1.head? := by
    rw [below_eq, List.filterMap_filterMap, List.filterMap_filter]
    refine List.filterMap_congr fun e _ => ?_
    rw [Option.bind_map]
    split
    · rfl
    · next heq =>
      obtain rfl : e.1 = dir := by simpa using heq
      rw [List.isPrefixOf?_eq_some_iff_append_eq.2 (List.append_nil e.1)]
      rfl
  rw [inner, hnames, eraseReps_map hinjective, eraseReps_eq_eraseDups (h.pairwise_names dir),
    childNames]

/-! ## Taking the files of a tree -/

/-- No path is longer than the depth. -/
lemma le_depth {e : List String × List FilePath} (he : e ∈ m) : e.1.length ≤ m.depth := by
  have hfold : ∀ (es : FilesByDir) (n : Nat),
      n ≤ es.foldl (fun n e => max n e.1.length) n ∧
        ∀ e ∈ es, e.1.length ≤ es.foldl (fun n e => max n e.1.length) n := by
    intro es
    induction es with
    | nil => exact fun n => ⟨le_rfl, fun _ h => absurd h List.not_mem_nil⟩
    | cons e' es ih =>
      intro n
      obtain ⟨hle, hall⟩ := ih (max n e'.1.length)
      refine ⟨(le_max_left ..).trans hle, List.forall_mem_cons.2 ⟨?_, hall⟩⟩
      exact (le_max_right ..).trans hle
  exact (hfold m 0).2 e he

/-- No directory is deeper below another one than a number. -/
def Within (m : FilesByDir) (dir : List String) (fuel : Nat) : Prop :=
  ∀ e ∈ m, dir <+: e.1 → e.1.length ≤ dir.length + fuel

/-- One step down leaves one step less to go. -/
lemma Within.child {fuel : Nat} (h : m.Within dir (fuel + 1)) (name : String) :
    m.Within (dir ++ [name]) fuel := by
  intro e he hpre
  have hlength := h e he ((List.prefix_append ..).trans hpre)
  rw [List.length_append, List.length_singleton]
  omega

/-- No directory is deeper below the root than the deepest one. -/
lemma within_depth (m : FilesByDir) : m.Within [] m.depth := by
  intro e he _
  rw [List.length_nil, Nat.zero_add]
  exact le_depth he

/-- The files outside a directory. -/
def outside (m : FilesByDir) (dir : List String) : FilesByDir :=
  m.filter fun e => !dir.isPrefixOf e.1

/-- Without steps left a tree is a single directory. -/
lemma takeTree_zero (root : FilePath) (importRoot : String) (dir : List String) (m : FilesByDir) :
    takeTree root importRoot 0 dir m =
      (.node (dir.foldl (fun p name => p ++ "/" ++ name) importRoot)
        (suggestedName (dir.foldl (fun p name => p ++ "/" ++ name) importRoot))
        (dir.foldl FilePath.join root) ((m.lookup dir).getD []) ([].mergeSort PackageDir.before),
        m.filter (·.1 != dir)) :=
  rfl

/-- With steps left a tree takes the trees of the directories below it from the map. -/
lemma takeTree_succ (root : FilePath) (importRoot : String) (fuel : Nat) (dir : List String)
    (m : FilesByDir) :
    takeTree root importRoot (fuel + 1) dir m =
      let taken := (inner (m.filter (·.1 != dir)) dir).mapM (takeTree root importRoot fuel)
        (m.filter (·.1 != dir))
      (.node (dir.foldl (fun p name => p ++ "/" ++ name) importRoot)
        (suggestedName (dir.foldl (fun p name => p ++ "/" ++ name) importRoot))
        (dir.foldl FilePath.join root) ((m.lookup dir).getD [])
        (taken.1.mergeSort PackageDir.before), taken.2) :=
  rfl

/-- A state goes through the elements of a list from the first one on. -/
lemma mapM_cons_state {α β σ : Type} (f : α → StateM σ β) (a : α) (as : List α) (s : σ) :
    (a :: as).mapM f s =
      ((f a s).1 :: (as.mapM f (f a s).2).1, (as.mapM f (f a s).2).2) := by
  rw [List.mapM_cons]
  rfl

section

variable {fuel : Nat}

/-- Two names lead from a directory to different directories. -/
lemma name_eq_of_both {name' : String} {key : List String} (h : dir ++ [name] <+: key)
    (h' : dir ++ [name'] <+: key) : name = name' := by
  have hsame : dir ++ [name] = dir ++ [name'] :=
    (List.prefix_of_prefix_length_le h h' (by simp)).eq_of_length (by simp)
  exact List.singleton_inj.1 (List.append_cancel_left hsame)

/-- What lies below a directory does not matter below another one beside it. -/
lemma below_outside {name' : String} (hne : name ≠ name') :
    (m.outside (dir ++ [name])).below (dir ++ [name']) = m.below (dir ++ [name']) := by
  refine below_filter fun e _ hpre => ?_
  rw [Bool.not_eq_true', ← Bool.not_eq_true, List.isPrefixOf_iff_prefix]
  exact fun hpre' => hne (name_eq_of_both hpre' hpre)

/-- The trees of directories that stand beside each other are made one after another from what is
left, and each from its own files. -/
lemma takeTrees_eq (root : FilePath) (importRoot : String) {names : List String}
    (hnames : names.Nodup) (hm : m.IsMap)
    (hdepth : ∀ name ∈ names, m.Within (dir ++ [name]) fuel)
    (ih : ∀ name, ∀ m' : FilesByDir, m'.IsMap → m'.Within (dir ++ [name]) fuel →
      takeTree root importRoot fuel (dir ++ [name]) m' =
        (toNode root importRoot fuel (dir ++ [name]) (m'.below (dir ++ [name])),
          m'.outside (dir ++ [name]))) :
    (names.map (dir ++ [·])).mapM (takeTree root importRoot fuel) m =
      (names.map fun name => toNode root importRoot fuel (dir ++ [name]) (m.below (dir ++ [name])),
        m.filter fun e => names.all fun name => !(dir ++ [name]).isPrefixOf e.1) := by
  induction names generalizing m with
  | nil =>
    rw [List.map_nil, List.mapM_nil, List.map_nil]
    exact Prod.ext rfl (List.filter_eq_self.2 fun _ _ => rfl).symm
  | cons name names ih' =>
    obtain ⟨hnew, hnames⟩ := List.nodup_cons.1 hnames
    obtain ⟨hfirst, hdepth⟩ := List.forall_mem_cons.1 hdepth
    have hleft : (m.outside (dir ++ [name])).IsMap := hm.filter _
    have hwithin : ∀ name' ∈ names, (m.outside (dir ++ [name])).Within (dir ++ [name']) fuel :=
      fun name' h e he => hdepth name' h e (List.mem_of_mem_filter he)
    have hbelow : ∀ name' ∈ names,
        (m.outside (dir ++ [name])).below (dir ++ [name']) = m.below (dir ++ [name']) :=
      fun name' h => below_outside (ne_of_mem_of_not_mem h hnew).symm
    have htrees := List.map_congr_left fun name' h =>
      congrArg (toNode root importRoot fuel (dir ++ [name'])) (hbelow name' h)
    have hrest : (m.outside (dir ++ [name])).filter
        (fun e => names.all fun name' => !(dir ++ [name']).isPrefixOf e.1) =
          m.filter fun e => (name :: names).all fun name' => !(dir ++ [name']).isPrefixOf e.1 := by
      rw [outside, List.filter_filter]
      exact List.filter_congr fun e _ => by rw [List.all_cons, Bool.and_comm]
    rw [List.map_cons, mapM_cons_state, ih name m hm hfirst, ih' hnames hleft hwithin,
      List.map_cons]
    dsimp only
    rw [htrees, hrest]

/-- Outside a directory lies what is not in the directory itself and not below one in it. -/
lemma outside_eq (m : FilesByDir) (dir : List String) :
    m.outside dir = (m.filter (·.1 != dir)).filter fun e =>
      (m.below dir).childNames.all fun name => !(dir ++ [name]).isPrefixOf e.1 := by
  rw [outside, List.filter_filter]
  refine List.filter_congr fun e he => ?_
  rw [Bool.eq_iff_iff]
  simp only [Bool.not_eq_true', ← Bool.not_eq_true, List.isPrefixOf_iff_prefix, Bool.and_eq_true,
    List.all_eq_true, bne_iff_ne]
  constructor
  · intro hout
    refine ⟨fun name _ hpre => hout ((List.prefix_append ..).trans hpre), ?_⟩
    rintro rfl
    exact hout List.prefix_rfl
  · rintro ⟨hchild, hne⟩ ⟨rest, hrest⟩
    cases rest with
    | nil => exact hne (by rw [← hrest, List.append_nil])
    | cons name rest =>
      have hmem : (name :: rest, e.2) ∈ m.below dir := mem_below.2 (by rw [hrest]; exact he)
      refine hchild name (List.mem_eraseDups.2 (List.mem_filterMap.2 ⟨_, hmem, rfl⟩)) ⟨rest, ?_⟩
      rw [← hrest, List.append_assoc, List.singleton_append]

/-- From the files in the order of their directories each directory takes those that are in it or
below it, and makes the tree that comes from these alone. -/
theorem takeTree_eq (root : FilePath) (importRoot : String) (hm : m.IsMap)
    (hdepth : m.Within dir fuel) :
    takeTree root importRoot fuel dir m =
      (toNode root importRoot fuel dir (m.below dir), m.outside dir) := by
  induction fuel generalizing dir m with
  | zero =>
    rw [takeTree_zero, toNode, own_below]
    refine Prod.ext rfl (List.filter_congr fun e he => ?_)
    rw [Bool.eq_iff_iff, bne_iff_ne, Bool.not_eq_true', ← Bool.not_eq_true,
      List.isPrefixOf_iff_prefix]
    refine not_congr ⟨fun heq => heq ▸ List.prefix_rfl, fun hpre => ?_⟩
    exact (hpre.eq_of_length_le (hdepth e he hpre)).symm
  | succ fuel ih =>
    have hwithin : ∀ name, FilesByDir.Within (m.filter (·.1 != dir)) (dir ++ [name]) fuel :=
      fun name e he => hdepth.child name e (List.mem_of_mem_filter he)
    have hbelow : ∀ name, below (m.filter (·.1 != dir)) (dir ++ [name]) =
        (m.below dir).child name := by
      intro name
      rw [below_filter, below_concat]
      intro e _ hpre
      rw [bne_iff_ne]
      rintro rfl
      have hlength := hpre.length_le
      simp only [List.length_append, List.length_singleton] at hlength
      omega
    have htrees := takeTrees_eq root importRoot (m.below dir).nodup_childNames (hm.filter _)
      (fun name _ => hwithin name) fun name m' hm' h => ih hm' h
    -- what the directories in it leave of the rest is what lies outside
    rw [takeTree_succ, hm.inner_eq, htrees, toNode, own_below, outside_eq]
    simp only [hbelow]

end

/-- The tree of a project, made by a recursion on the files below each directory. -/
theorem toTree_eq (root : FilePath) (importRoot : String) (hm : m.IsMap) :
    m.toTree root importRoot = m.toNode root importRoot m.depth [] := by
  rw [toTree, takeTree_eq root importRoot hm m.within_depth]
  rfl

end GoService.Project.FilesByDir
