import GoService.Proofs.Project.WalkDepth
import Mathlib.Data.String.Basic

/-!
# Ignored entries

What a project has besides its sources does not matter: tests, other files, and whatever a name with
a dot or an underscore hides. If two file trees differ in such entries only, and the links that are
not ignored lead to the same places in both, then their walks tell the same (`filter_below_eq`).
What is not hidden is where a link leads: every link is followed before its name is looked at, so
one that leads nowhere stops the walk though it is ignored. Apart from this the packages are the
same (`same_packages_or_stopped`).
-/

namespace GoService.Project

/-! ## Trees without ignored entries -/

namespace FileTree

/-- Whether an entry below a project is ignored. -/
def isIgnored (name : String) : FileTree → Bool
  | dir _ => isHiddenName name || name == "testdata" || name == "vendor"
  | file _ => isHiddenName name || !isSourceName name
  | link _ => isHiddenName name

mutual

/-- The tree without the ignored entries at any depth. -/
def pruned : FileTree → FileTree
  | dir es => dir (prunedOf es)
  | file content => file content
  | link target => link target

/-- The entries that are not ignored, with what is not ignored of each. -/
def prunedOf : List (String × FileTree) → List (String × FileTree)
  | [] => []
  | (name, t) :: es => if t.isIgnored name then prunedOf es else (name, t.pruned) :: prunedOf es

end

/-- Pruned entries are those that are not ignored, each pruned. -/
lemma prunedOf_eq (es : List (String × FileTree)) :
    prunedOf es = (es.filter fun e => !e.2.isIgnored e.1).map fun e => (e.1, e.2.pruned) := by
  induction es with
  | nil => rfl
  | cons e es ih =>
    obtain ⟨name, t⟩ := e
    rw [prunedOf, List.filter_cons]
    cases h : t.isIgnored name with
    | true => exact ih
    | false => exact congrArg ((name, t.pruned) :: ·) ih

mutual

/-- No directory has two entries of one name. -/
def DistinctNames : FileTree → Prop
  | dir es => (es.map Prod.fst).Nodup ∧ DistinctNamesIn es
  | file _ | link _ => True

/-- The entries have distinct names at every depth. -/
def DistinctNamesIn : List (String × FileTree) → Prop
  | [] => True
  | (_, t) :: es => DistinctNames t ∧ DistinctNamesIn es

end

/-- Names are as in a file system: none has a slash, and those in a directory are different. -/
structure WellNamed (files : FileTree) : Prop where
  plain : files.PlainNames
  distinct : files.DistinctNames

/-- Pruning leaves a directory a directory. -/
lemma isDirNode_pruned (t : FileTree) : t.pruned.isDirNode = t.isDirNode := by
  cases t with
  | file content => rfl
  | dir es => rfl
  | link target => rfl

/-- A directory node has entries. -/
lemma exists_of_isDirNode {t : FileTree} (h : t.isDirNode = true) : ∃ es, t = dir es := by
  cases t with
  | file content => cases h
  | dir es => exact ⟨es, rfl⟩
  | link target => cases h

variable {files node : FileTree} {names : List String}

/-- An entry has distinct names at every depth if its directory has. -/
lemma distinctNames_of_mem {es : List (String × FileTree)} {e : String × FileTree} (he : e ∈ es)
    (h : DistinctNamesIn es) : e.2.DistinctNames := by
  induction es with
  | nil => cases he
  | cons e' es ih =>
    rcases List.mem_cons.1 he with rfl | he
    · exact h.1
    · exact ih he h.2

/-- A node that names lead to has proper names if the tree has. -/
lemma Leads.wellNamed (h : Leads files names node) (hfiles : files.WellNamed) :
    node.WellNamed := by
  induction h with
  | here t => exact hfiles
  | inside he _ ih =>
    refine ih ⟨fun name hname => ?_, distinctNames_of_mem he hfiles.distinct.2⟩
    exact hfiles.plain name ((entryNames_of_mem he).2 hname)

end FileTree

/-! ## The last name of a path -/

/-- What stands after the last slash. -/
def FilePath.lastName (p : FilePath) : String :=
  String.ofList (p.text.toList.reverse.takeWhile (· != '/')).reverse

/-- A name that is joined to a path is the last one of it. -/
lemma FilePath.lastName_join (p : FilePath) {name : String} (h : '/' ∉ name.toList) :
    (p.join name).lastName = name := by
  have hplain : ∀ c ∈ name.toList.reverse, (c != '/') = true := by
    intro c hc
    have hne : c ≠ '/' := by
      rintro rfl
      exact h (List.mem_reverse.1 hc)
    simpa using hne
  have hlast {before : String} (hbefore : before = "" ∨ before.toList.getLast? = some '/') :
      FilePath.lastName ⟨before ++ name⟩ = name := by
    have hstop : before.toList.reverse.takeWhile (· != '/') = [] := by
      rcases hbefore with rfl | hbefore
      · rfl
      · obtain ⟨before', heq⟩ := List.getLast?_eq_some_iff.1 hbefore
        rw [heq, List.reverse_append]
        rfl
    rw [lastName, String.toList_append, List.reverse_append, List.takeWhile_append_of_pos hplain,
      hstop, List.append_nil, List.reverse_reverse, String.ofList_toList]
  have hrelative : ¬ (name.toList.head? == some '/') = true := by
    intro hhead
    exact h (List.mem_of_mem_head? (by simpa using hhead))
  rw [join, if_neg hrelative]
  split
  · next hend =>
    rw [Bool.or_eq_true, String.isEmpty_iff, beq_iff_eq] at hend
    exact hlast hend
  · exact hlast (.inr (by simp))

/-! ## Directories that a walk is in -/

namespace OpenDir

/-- A walk from `start` is in a directory, and in `ancestors` around it. -/
inductive Reached (files : FileTree) (start : OpenDir) : List OpenDir → OpenDir → Prop where
  | start : Reached files start [] start
  | enter {ancestors : List OpenDir} {d i : OpenDir} {e : String × FileTree} {entry : WalkEntry}
    (h : Reached files start ancestors d) (he : e ∈ d.entries)
    (hvisit : visit files (d :: ancestors) d e = .ok (entry, some i))
    (hkept : entry.isLeftOut = false) : Reached files start (d :: ancestors) i

/-- Directories that are the same but for ignored entries. -/
structure Alike (d d' : OpenDir) : Prop where
  names : d.names = d'.names
  path : d.path = d'.path
  under : d.under = d'.under
  entries : FileTree.prunedOf d.entries = FileTree.prunedOf d'.entries

variable {files : FileTree} {start d : OpenDir} {ancestors : List OpenDir}

/-- A directory that a walk reaches has proper names. -/
lemma Reached.wellNamed (h : Reached files start ancestors d) (hfiles : files.WellNamed)
    (hstart : (FileTree.dir start.entries).WellNamed) : (FileTree.dir d.entries).WellNamed := by
  induction h with
  | start => exact hstart
  | @enter ancestors d i e entry _ he hvisit _ ih =>
    obtain ⟨-, -, ⟨hdir, -⟩ | ⟨-, hplace, -⟩⟩ := (visit_eq_ok hvisit).2 i rfl
    · rw [← hdir]
      exact FileTree.Leads.wellNamed (.inside he (.here e.2)) ih
    · exact (FileTree.leads_of_lookup hplace).wellNamed hfiles

/-- What goes wrong at an entry: a link that leads nowhere, or back to where the walk is. -/
lemma visit_eq_error {e : String × FileTree} {error : WalkError}
    (h : visit files ancestors d e = .error error) : error.path = d.path.join e.1 ∧
      (error.isLoop = true ∨ ∃ target err, e.2 = .link target ∧
        files.lookup (d.path.join e.1) = .error err ∧ error = .file (d.path.join e.1) err) := by
  obtain ⟨name, node⟩ := e
  rw [visit] at h
  cases node with
  | file _ => cases h
  | dir es => cases h
  | link target =>
    dsimp only at h
    split at h
    · next err hlookup =>
      cases h
      exact ⟨rfl, .inr ⟨target, err, rfl, hlookup, rfl⟩⟩
    · split at h
      · cases h
        exact ⟨rfl, .inl rfl⟩
      · cases h
    · cases h

/-! ## What a walk tells of an entry -/

/-- Whether something that is met tells of the sources of a project: a source file, or what goes
wrong at an entry that is not hidden. -/
def tells : Except WalkError WalkEntry → Bool
  | .error e => !e.isLoop && !isHiddenName e.path.lastName
  | .ok e => e.isSource

/-- What is met at an entry and below it. -/
def metAt (files : FileTree) (fuel : Nat) (ancestors : List OpenDir) (d : OpenDir)
    (e : String × FileTree) : List (Except WalkError WalkEntry) :=
  match visit files (d :: ancestors) d e with
  | .error error => [.error error]
  | .ok (entry, inner) =>
    if entry.isLeftOut then []
    else
      match inner with
      | none => [.ok entry]
      | some inner =>
        .ok entry ::
          if FileTree.isTooLong inner.path then [.error (.file inner.path .nameTooLong)]
          else below files WalkEntry.isLeftOut fuel (d :: ancestors) inner

/-- A walk below a directory meets what is met at each of its entries. -/
lemma below_succ (files : FileTree) (fuel : Nat) (ancestors : List OpenDir) (d : OpenDir) :
    d.below files WalkEntry.isLeftOut (fuel + 1) ancestors =
      d.sortedEntries.flatMap (metAt files fuel ancestors d) := by
  rw [below]
  rfl

/-- An ignored entry tells nothing, whatever it is. -/
lemma filter_metAt_of_isIgnored {e : String × FileTree} (he : e.2.isIgnored e.1 = true)
    (hplain : '/' ∉ e.1.toList) (fuel : Nat) :
    (metAt files fuel ancestors d e).filter tells = [] := by
  obtain ⟨name, node⟩ := e
  cases node with
  | file content =>
    have hmet : metAt files fuel ancestors d (name, .file content) =
        if isHiddenName name then [] else [.ok ⟨d.path.join name, name, d.under, false⟩] := by
      simp [metAt, visit, WalkEntry.isLeftOut]
    rw [hmet]
    split
    · rfl
    · next hshown =>
      have hsource : isSourceName name = false := by simpa [FileTree.isIgnored, hshown] using he
      simp [tells, WalkEntry.isSource, hsource]
  | dir es =>
    have hleft : WalkEntry.isLeftOut ⟨d.path.join name, name, d.under, true⟩ = true := by
      simpa [FileTree.isIgnored, WalkEntry.isLeftOut, or_assoc] using he
    simp [metAt, visit, hleft]
  | link target =>
    change isHiddenName name = true at he
    rw [metAt]
    split
    · next error hvisit =>
      obtain ⟨hpath, -⟩ := visit_eq_error hvisit
      have hname : error.path.lastName = name := by rw [hpath, FilePath.lastName_join d.path hplain]
      simp [tells, hname, he]
    · next entry inner hvisit =>
      obtain ⟨rfl, -⟩ := visit_eq_ok hvisit
      simp [WalkEntry.isLeftOut, he]

/-! ## Entries in order -/

section

variable {α β γ : Type} {as : List α} {bs : List β}

/-- Lists that agree under two functions give the same lists together. -/
lemma flatMap_eq_of_map_eq {f : α → γ} {f' : β → γ} {δ : Type}
    {g : α → List δ} {g' : β → List δ}
    (h : as.map f = bs.map f') (hg : ∀ a ∈ as, ∀ b ∈ bs, f a = f' b → g a = g' b) :
    as.flatMap g = bs.flatMap g' := by
  induction as generalizing bs with
  | nil =>
    rw [List.map_nil, List.nil_eq, List.map_eq_nil_iff] at h
    rw [h]
    rfl
  | cons a as ih =>
    cases bs with
    | nil => cases h
    | cons b bs =>
      obtain ⟨hab, hrest⟩ := List.cons.inj h
      rw [List.flatMap_cons, List.flatMap_cons,
        hg a (List.mem_cons_self ..) b (List.mem_cons_self ..) hab,
        ih hrest fun a ha b hb => hg a (List.mem_cons_of_mem _ ha) b (List.mem_cons_of_mem _ hb)]

/-- What contributes nothing can be left out. -/
lemma flatMap_filter_of_eq_nil {p : α → Bool} {g : α → List β}
    (h : ∀ a ∈ as, p a = false → g a = []) : (as.filter p).flatMap g = as.flatMap g := by
  induction as with
  | nil => rfl
  | cons a as ih =>
    obtain ⟨ha, has⟩ := List.forall_mem_cons.1 h
    rw [List.flatMap_cons, List.filter_cons]
    cases hp : p a with
    | true => rw [if_pos rfl, List.flatMap_cons, ih has]
    | false => rw [if_neg Bool.false_ne_true, ih has, ha hp, List.nil_append]

end

/-- Entries of different names are in one order only. -/
lemma filter_sortedEntries (hd : (d.entries.map Prod.fst).Nodup) (p : String × FileTree → Bool) :
    d.sortedEntries.filter p =
      (d.entries.filter p).mergeSort fun a b => decide (a.1 ≤ b.1) := by
  have hsorted (es : List (String × FileTree)) :
      (es.mergeSort fun a b => decide (a.1 ≤ b.1)).Pairwise fun a b => decide (a.1 ≤ b.1) := by
    apply List.pairwise_mergeSort
    · intro a b c hab hbc
      exact decide_eq_true (le_trans (of_decide_eq_true hab) (of_decide_eq_true hbc))
    · intro a b
      rw [Bool.or_eq_true, decide_eq_true_eq, decide_eq_true_eq]
      exact le_total a.1 b.1
  refine List.Perm.eq_of_pairwise (fun a b ha hb hab hba => ?_)
    ((hsorted d.entries).filter p) (hsorted _) ?_
  · have ha := mem_entries_of_mem_sortedEntries (List.mem_filter.1 ha).1
    have hb := (List.mem_filter.1 (List.mem_mergeSort.1 hb)).1
    exact List.inj_on_of_nodup_map hd ha hb
      (le_antisymm (of_decide_eq_true hab) (of_decide_eq_true hba))
  · exact ((List.mergeSort_perm d.entries _).filter p).trans (List.mergeSort_perm _ _).symm

/-- The sorted entries that are not ignored are the pruned entries, sorted. -/
lemma map_pruned_sortedEntries (hd : (d.entries.map Prod.fst).Nodup) :
    (d.sortedEntries.filter fun e => !e.2.isIgnored e.1).map (fun e => (e.1, e.2.pruned)) =
      (FileTree.prunedOf d.entries).mergeSort fun a b => decide (a.1 ≤ b.1) := by
  rw [filter_sortedEntries hd, FileTree.prunedOf_eq]
  exact List.map_mergeSort fun _ _ _ _ => rfl

/-! ## Trees that are the same but for ignored entries -/

end OpenDir

/-- A place without the ignored entries below it. -/
def FileTree.Place.pruned (p : FileTree.Place) : FileTree.Place :=
  ⟨p.names, p.node.pruned⟩

/-- A path leads to the same place in both trees, ignored entries below it aside. -/
def LeadsAlike (files files' : FileTree) (p : FilePath) : Prop :=
  (files.lookup p).map FileTree.Place.pruned = (files'.lookup p).map FileTree.Place.pruned

/-- Such a path leads nowhere in both trees, or to places with the same names. -/
lemma LeadsAlike.cases {files files' : FileTree} {p : FilePath} (h : LeadsAlike files files' p) :
    (∃ error, files.lookup p = .error error ∧ files'.lookup p = .error error) ∨
    ∃ names node node', files.lookup p = .ok ⟨names, node⟩ ∧ files'.lookup p = .ok ⟨names, node'⟩ ∧
      node.pruned = node'.pruned := by
  rw [LeadsAlike] at h
  cases hplace : files.lookup p with
  | error error =>
    cases hplace' : files'.lookup p with
    | error error' =>
      rw [hplace, hplace'] at h
      cases h
      exact .inl ⟨error, rfl, rfl⟩
    | ok place' =>
      rw [hplace, hplace'] at h
      cases h
  | ok place =>
    cases hplace' : files'.lookup p with
    | error error' =>
      rw [hplace, hplace'] at h
      cases h
    | ok place' =>
      rw [hplace, hplace'] at h
      obtain ⟨names, node⟩ := place
      obtain ⟨names', node'⟩ := place'
      obtain ⟨hnames, hnode⟩ := FileTree.Place.mk.inj (Except.ok.inj h)
      dsimp only at hnames hnode
      subst hnames
      exact .inr ⟨names, node, node', rfl, rfl, hnode⟩

/-- Trees that are the same but for ignored entries are both directories or both not. -/
lemma FileTree.isDirNode_eq {t t' : FileTree} (h : t.pruned = t'.pruned) :
    t.isDirNode = t'.isDirNode := by
  rw [← isDirNode_pruned, h, isDirNode_pruned]

namespace OpenDir

variable {files files' : FileTree} {start start' d d' : OpenDir}
variable {ancestors ancestors' : List OpenDir}

/-- What is seen of an entry in one tree is what is seen of it in the other. -/
inductive SeenAlike : Except WalkError (WalkEntry × Option OpenDir) →
    Except WalkError (WalkEntry × Option OpenDir) → Prop where
  | wrong (error : WalkError) : SeenAlike (.error error) (.error error)
  | loop (path path' path'' : FilePath) :
    SeenAlike (.error (.loop path path')) (.error (.loop path path''))
  | file (entry : WalkEntry) : SeenAlike (.ok (entry, none)) (.ok (entry, none))
  | dir (entry : WalkEntry) {i i' : OpenDir} (h : i.Alike i') :
    SeenAlike (.ok (entry, some i)) (.ok (entry, some i'))

/-- Whether a walk is in a directory can be read off the names. -/
lemma find?_names_eq_none (inside : List OpenDir) (names : List String) :
    inside.find? (·.names == names) = none ↔ names ∉ inside.map OpenDir.names := by
  simp [List.find?_eq_none]

section

variable {name target : String} {names : List String} {es : List (String × FileTree)}

/-- A link that cannot be followed is an error. -/
lemma visit_link_of_error {error : FileError} (h : files.lookup (d.path.join name) = .error error) :
    visit files ancestors d (name, .link target) = .error (.file (d.path.join name) error) := by
  rw [visit]
  dsimp only
  rw [h]

/-- A link to a directory that the walk is in is a loop. -/
lemma visit_link_of_loop (h : files.lookup (d.path.join name) = .ok ⟨names, .dir es⟩)
    {a : OpenDir} (hfind : ancestors.find? (·.names == names) = some a) :
    visit files ancestors d (name, .link target) = .error (.loop (d.path.join name) a.path) := by
  rw [visit]
  dsimp only
  rw [h]
  dsimp only
  rw [hfind]

/-- A link to another directory is entered. -/
lemma visit_link_of_dir (h : files.lookup (d.path.join name) = .ok ⟨names, .dir es⟩)
    (hfind : ancestors.find? (·.names == names) = none) :
    visit files ancestors d (name, .link target) =
      .ok (⟨d.path.join name, name, d.under, true⟩,
        some ⟨names, d.path.join name, d.under ++ [name], es⟩) := by
  rw [visit]
  dsimp only
  rw [h]
  dsimp only
  rw [hfind]

/-- A link to a file is met like the file. -/
lemma visit_link_of_not_dir {place : FileTree.Place}
    (h : files.lookup (d.path.join name) = .ok place)
    (hnode : place.node.isDirNode = false) :
    visit files ancestors d (name, .link target) =
      .ok (⟨d.path.join name, name, d.under, false⟩, none) := by
  obtain ⟨names, node⟩ := place
  rw [visit]
  dsimp only
  rw [h]
  cases node with
  | file content => rfl
  | dir es => cases hnode
  | link target => rfl

end

/-- A link that leads to the same place in both trees is followed alike. -/
lemma seenAlike_link (hd : d.Alike d')
    (hancestors : ancestors.map OpenDir.names = ancestors'.map OpenDir.names) {name : String}
    (h : LeadsAlike files files' (d.path.join name)) (target target' : String) :
    SeenAlike (visit files ancestors d (name, .link target))
      (visit files' ancestors' d' (name, .link target')) := by
  have hpath : d'.path.join name = d.path.join name := by rw [hd.path]
  rcases h.cases with ⟨error, hplace, hplace'⟩ | ⟨names, node, node', hplace, hplace', hnode⟩
  · rw [visit_link_of_error hplace, visit_link_of_error (hpath ▸ hplace'), hpath]
    exact .wrong _
  · have hdirs := FileTree.isDirNode_eq hnode
    cases hdir : node.isDirNode with
    | false =>
      rw [visit_link_of_not_dir hplace hdir,
        visit_link_of_not_dir (hpath ▸ hplace') (hdirs.symm.trans hdir), hpath, hd.under]
      exact .file _
    | true =>
      obtain ⟨es, rfl⟩ := FileTree.exists_of_isDirNode hdir
      obtain ⟨es', rfl⟩ := FileTree.exists_of_isDirNode (hdirs.symm.trans hdir)
      cases hfind : ancestors.find? (·.names == names) with
      | none =>
        have hfind' : ancestors'.find? (·.names == names) = none := by
          rw [find?_names_eq_none] at hfind ⊢
          rwa [← hancestors]
        rw [visit_link_of_dir hplace hfind, visit_link_of_dir (hpath ▸ hplace') hfind', hpath,
          hd.under]
        exact .dir _ ⟨rfl, rfl, rfl, FileTree.dir.inj hnode⟩
      | some a =>
        obtain ⟨a', hfind'⟩ : ∃ a', ancestors'.find? (·.names == names) = some a' := by
          rw [← Option.ne_none_iff_exists', ne_eq, find?_names_eq_none, ← hancestors,
            ← find?_names_eq_none, hfind]
          exact Option.some_ne_none a
        rw [visit_link_of_loop hplace hfind, visit_link_of_loop (hpath ▸ hplace') hfind', hpath]
        exact .loop _ _ _

/-- An entry is seen alike in both trees if its links lead alike. -/
lemma seenAlike_visit (hd : d.Alike d')
    (hancestors : ancestors.map OpenDir.names = ancestors'.map OpenDir.names)
    {e e' : String × FileTree} (hname : e.1 = e'.1) (hnode : e.2.pruned = e'.2.pruned)
    (hlink : ∀ target, e.2 = .link target → LeadsAlike files files' (d.path.join e.1)) :
    SeenAlike (visit files ancestors d e) (visit files' ancestors' d' e') := by
  obtain ⟨name, node⟩ := e
  obtain ⟨name', node'⟩ := e'
  dsimp only at hname hnode hlink
  subst hname
  cases node with
  | file content =>
    cases node' with
    | file content' =>
      rw [visit, visit, hd.path, hd.under]
      exact .file _
    | dir es => cases hnode
    | link target => cases hnode
  | dir es =>
    cases node' with
    | file content' => cases hnode
    | dir es' =>
      rw [visit, visit, hd.names, hd.path, hd.under]
      exact .dir _ ⟨rfl, rfl, rfl, FileTree.dir.inj hnode⟩
    | link target => cases hnode
  | link target =>
    cases node' with
    | file content' => cases hnode
    | dir es' => cases hnode
    | link target' => exact seenAlike_link hd hancestors (hlink target rfl) target target'

/-- The links that a walk meets, hidden ones apart, lead to the same places in both trees. -/
def LinksLeadAlike (files files' : FileTree) (start : OpenDir) : Prop :=
  ∀ ancestors d, Reached files start ancestors d → ∀ name target,
    (name, .link target) ∈ d.entries → isHiddenName name = false →
      LeadsAlike files files' (d.path.join name)

/-- Entry names have no slashes. -/
lemma plain_of_mem {es : List (String × FileTree)} (h : (FileTree.dir es).WellNamed)
    {e : String × FileTree} (he : e ∈ es) : '/' ∉ e.1.toList :=
  h.plain e.1 (FileTree.entryNames_of_mem he).1

/-- What a walk tells of a directory is told by the entries that are not ignored. -/
lemma filter_below_succ (h : (FileTree.dir d.entries).WellNamed) (fuel : Nat) :
    (d.below files WalkEntry.isLeftOut (fuel + 1) ancestors).filter tells =
      (d.sortedEntries.filter fun e => !e.2.isIgnored e.1).flatMap fun e =>
        (metAt files fuel ancestors d e).filter tells := by
  rw [below_succ, List.filter_flatMap, flatMap_filter_of_eq_nil]
  intro e he hignored
  exact filter_metAt_of_isIgnored (by simpa using hignored)
    (plain_of_mem h (mem_entries_of_mem_sortedEntries he)) fuel

/-- Walks of trees that are the same but for ignored entries tell the same. -/
theorem filter_below_eq (hfiles : files.WellNamed) (hfiles' : files'.WellNamed)
    (hstart : (FileTree.dir start.entries).WellNamed)
    (hstart' : (FileTree.dir start'.entries).WellNamed)
    (hlinks : LinksLeadAlike files files' start) (hd : Reached files start ancestors d)
    (hd' : Reached files' start' ancestors' d') (h : d.Alike d')
    (hancestors : ancestors.map OpenDir.names = ancestors'.map OpenDir.names) (fuel : Nat) :
    (d.below files WalkEntry.isLeftOut fuel ancestors).filter tells =
      (d'.below files' WalkEntry.isLeftOut fuel ancestors').filter tells := by
  induction fuel generalizing ancestors ancestors' d d' with
  | zero => rfl
  | succ fuel ih =>
    have hwell := hd.wellNamed hfiles hstart
    have hwell' := hd'.wellNamed hfiles' hstart'
    have hinside : (d :: ancestors).map OpenDir.names = (d' :: ancestors').map OpenDir.names := by
      rw [List.map_cons, List.map_cons, h.names, hancestors]
    rw [filter_below_succ hwell, filter_below_succ hwell']
    -- what is shown of the two directories is alike, so their entries are visited in pairs
    have hshownAlike := (map_pruned_sortedEntries hwell.distinct.1).trans
      (h.entries ▸ (map_pruned_sortedEntries hwell'.distinct.1).symm)
    refine flatMap_eq_of_map_eq hshownAlike fun e he e' he' hsame => ?_
    obtain ⟨he, hshown⟩ := List.mem_filter.1 he
    have he := mem_entries_of_mem_sortedEntries he
    have he' := mem_entries_of_mem_sortedEntries (List.mem_filter.1 he').1
    obtain ⟨hname, hnode⟩ := Prod.mk.inj hsame
    have hlink : ∀ target, e.2 = .link target → LeadsAlike files files' (d.path.join e.1) := by
      intro target htarget
      refine hlinks ancestors d hd e.1 target (htarget ▸ he) ?_
      rw [htarget, FileTree.isIgnored] at hshown
      simpa using hshown
    have hseen := seenAlike_visit h hinside hname hnode hlink
    rw [metAt, metAt]
    generalize hvisit : visit files (d :: ancestors) d e = seen at hseen
    generalize hvisit' : visit files' (d' :: ancestors') d' e' = seen' at hseen
    -- only a directory that is not left out is gone into, and there the claim holds again
    cases hseen with
    | wrong error => rfl
    | loop path path' path'' => rfl
    | file entry => rfl
    | dir entry hinner =>
      dsimp only
      cases hkept : entry.isLeftOut with
      | true => rfl
      | false =>
        rw [if_neg Bool.false_ne_true, if_neg Bool.false_ne_true, hinner.path]
        split
        · rfl
        · rw [List.filter_cons, List.filter_cons, ih (.enter hd he hvisit hkept)
            (.enter hd' he' hvisit' hkept) hinner hinside]

/-! ## Walks that are stopped -/

/-- Something that goes wrong at a hidden name is an ignored link that leads nowhere. -/
lemma exists_link_of_error_mem_below (hfiles : files.WellNamed)
    (hstart : (FileTree.dir start.entries).WellNamed) (hd : Reached files start ancestors d)
    {fuel : Nat} {error : WalkError}
    (h : .error error ∈ d.below files WalkEntry.isLeftOut fuel ancestors)
    (hloop : error.isLoop = false) (hhidden : isHiddenName error.path.lastName = true) :
    ∃ ancestors d name target err, Reached files start ancestors d ∧
      (name, .link target) ∈ d.entries ∧ isHiddenName name = true ∧
      files.lookup (d.path.join name) = .error err ∧ error = .file (d.path.join name) err := by
  induction fuel generalizing ancestors d with
  | zero => cases h
  | succ fuel ih =>
    rw [below_succ] at h
    obtain ⟨e, he, h⟩ := List.mem_flatMap.1 h
    have he := mem_entries_of_mem_sortedEntries he
    have hplain := plain_of_mem (hd.wellNamed hfiles hstart) he
    rw [metAt] at h
    split at h
    · next error' hvisit =>
      cases List.mem_singleton.1 h
      obtain ⟨hpath, hloop' | ⟨target, err, htarget, hlookup, rfl⟩⟩ := visit_eq_error hvisit
      · rw [hloop] at hloop'
        cases hloop'
      · rw [hpath, FilePath.lastName_join d.path hplain] at hhidden
        exact ⟨ancestors, d, e.1, target, err, hd, htarget ▸ he, hhidden, hlookup, rfl⟩
    · next entry inner hvisit =>
      split at h
      · cases h
      · next hkept =>
        obtain ⟨hentry, hinner⟩ := visit_eq_ok hvisit
        split at h
        · cases List.mem_singleton.1 h
        · next i =>
          rcases List.mem_cons.1 h with h | h
          · cases h
          · split at h
            · cases List.mem_singleton.1 h
              -- the name of a directory that is entered is not hidden
              rw [WalkError.path, (hinner i rfl).path, FilePath.lastName_join d.path hplain]
                at hhidden
              rw [hentry, WalkEntry.isLeftOut, hhidden] at hkept
              exact absurd rfl hkept
            · exact ih (.enter hd he hvisit (Bool.eq_false_of_not_eq_true hkept)) h

end OpenDir

/-- Sources are collected up to something that goes wrong at a hidden name. -/
def StopsAtHidden (m : FilesByDir) (met : List (Except WalkError WalkEntry)) : Prop :=
  ∃ error, .error error ∈ met ∧ error.isLoop = false ∧ isHiddenName error.path.lastName = true ∧
    collectSources m met = .error (.walk error.path error)

/-- What does not stop the collection before a hidden entry can stand in front of it. -/
lemma StopsAtHidden.cons {m m' : FilesByDir} {met : List (Except WalkError WalkEntry)}
    {r : Except WalkError WalkEntry} (h : StopsAtHidden m' met)
    (hr : collectSources m (r :: met) = collectSources m' met) : StopsAtHidden m (r :: met) := by
  obtain ⟨error, herror, hloop, hhidden, hstop⟩ := h
  exact ⟨error, List.mem_cons_of_mem _ herror, hloop, hhidden, hr.trans hstop⟩

/-- Only what tells of sources matters, unless the first thing that goes wrong has a hidden name. -/
lemma collectSources_filter_tells (m : FilesByDir) (met : List (Except WalkError WalkEntry)) :
    collectSources m met = collectSources m (met.filter OpenDir.tells) ∨ StopsAtHidden m met := by
  induction met generalizing m with
  | nil => exact .inl rfl
  | cons r met ih =>
    have hskip (hr : OpenDir.tells r = false)
        (heq : collectSources m (r :: met) = collectSources m met) :
        collectSources m (r :: met) = collectSources m ((r :: met).filter OpenDir.tells) ∨
          StopsAtHidden m (r :: met) := by
      rw [List.filter_cons_of_neg (by rw [hr]; exact Bool.false_ne_true), heq]
      exact (ih m).imp_right fun h => h.cons heq
    cases r with
    | ok e =>
      cases hsource : e.isSource with
      | true =>
        rw [List.filter_cons_of_pos (by exact hsource), collectSources, collectSources]
        exact (ih _).imp_right fun h => h.cons (by rw [collectSources])
      | false =>
        apply hskip hsource
        rw [collectSources, hsource, if_neg Bool.false_ne_true]
    | error error =>
      cases hloop : error.isLoop with
      | true =>
        apply hskip
        · rw [OpenDir.tells, hloop]
          rfl
        · rw [collectSources, hloop, if_pos rfl]
      | false =>
        have hstop (met : List (Except WalkError WalkEntry)) :
            collectSources m (.error error :: met) = .error (.walk error.path error) := by
          rw [collectSources, hloop, if_neg Bool.false_ne_true]
        -- an error below a hidden name ends the collection, though it should not be met
        cases hhidden : isHiddenName error.path.lastName with
        | true => exact .inr ⟨error, List.mem_cons_self .., hloop, hhidden, hstop met⟩
        | false =>
          have htells : OpenDir.tells (.error error) = true := by
            rw [OpenDir.tells, hloop, hhidden]
            rfl
          rw [List.filter_cons_of_pos htells, hstop, hstop]
          exact .inl rfl

/-! ## Packages -/

open OpenDir (Reached LinksLeadAlike)

/-- Two file trees in which a project is the same but for ignored entries. -/
structure SameButIgnored (files files' : FileTree) (root : FilePath) : Prop where
  place : LeadsAlike files files' root
  links : ∀ start, files.walkStart root = .ok (some start) → LinksLeadAlike files files' start

/-- The packages of a project could not be listed because of an ignored link that leads nowhere. -/
def StoppedByIgnored (files : FileTree) (root : FilePath)
    (result : Except ListingError PackageDir) : Prop :=
  ∃ start ancestors d name target error, files.walkStart root = .ok (some start) ∧
    Reached files start ancestors d ∧ (name, .link target) ∈ d.entries ∧
    isHiddenName name = true ∧ files.lookup (d.path.join name) = .error error ∧
    result = .error (.walk (d.path.join name) (.file (d.path.join name) error))

/-- A walk with more steps than it needs meets the same. -/
lemma walk_eq_below {files : FileTree} {root : FilePath} {start : OpenDir}
    (hstart : files.walkStart root = .ok (some start))
    (hleads : FileTree.Leads files start.names (.dir start.entries)) {fuel : Nat}
    (hfuel : (files.weight + 1) * (files.weight + 1) ≤ fuel) :
    files.walk WalkEntry.isLeftOut root = start.below files WalkEntry.isLeftOut fuel [] := by
  rw [FileTree.walk, hstart]
  exact OpenDir.below_eq (OpenDir.reach_lt hleads)
    (Nat.lt_of_lt_of_le (OpenDir.reach_lt hleads) hfuel)

/-- A walk starts at a directory as the path leads to it. -/
lemma exists_start_of_isDir {files : FileTree} {root : FilePath} (h : files.isDir root = true) :
    ∃ names es, files.lookup root = .ok ⟨names, .dir es⟩ ∧
      files.walkStart root = .ok (some ⟨names, root, [], es⟩) := by
  rw [FileTree.isDir] at h
  split at h
  · next place hplace =>
    obtain ⟨names, node⟩ := place
    obtain ⟨es, rfl⟩ := FileTree.exists_of_isDirNode h
    refine ⟨names, es, hplace, ?_⟩
    rw [FileTree.walkStart, hplace]
  · cases h

/-- A walk that stops at a hidden entry is what an ignored link does to a project. -/
lemma stoppedByIgnored_of_stopsAtHidden {files : FileTree} (hfiles : files.WellNamed)
    {root : FilePath} (hdir : files.isDir root = true) (importRoot : String)
    (h : StopsAtHidden [] (files.walk WalkEntry.isLeftOut root)) :
    StoppedByIgnored files root (packageTree files root importRoot) := by
  obtain ⟨names, es, hplace, hstart⟩ := exists_start_of_isDir hdir
  have hleads := FileTree.leads_of_lookup hplace
  obtain ⟨error, herror, hloop, hhidden, hstop⟩ := h
  rw [walk_eq_below hstart hleads (Nat.le_refl _)] at herror
  obtain ⟨ancestors, d, name, target, err, hd, hmem, hname, hlookup, rfl⟩ :=
    OpenDir.exists_link_of_error_mem_below hfiles (hleads.wellNamed hfiles) .start herror hloop
      hhidden
  refine ⟨_, ancestors, d, name, target, err, hstart, hd, hmem, hname, hlookup, ?_⟩
  rw [packageTree, if_pos hdir, hstop]
  rfl

/-- A path that leads alike leads to a directory in both trees or in none. -/
lemma LeadsAlike.isDir_eq {files files' : FileTree} {p : FilePath} (h : LeadsAlike files files' p) :
    files.isDir p = files'.isDir p := by
  rw [FileTree.isDir, FileTree.isDir]
  rcases h.cases with ⟨error, hplace, hplace'⟩ | ⟨names, node, node', hplace, hplace', hnode⟩
  · rw [hplace, hplace']
  · rw [hplace, hplace']
    exact FileTree.isDirNode_eq hnode

/-- The two walks of a project that is the same but for ignored entries tell the same. -/
lemma filter_walk_eq {files files' : FileTree} (hfiles : files.WellNamed)
    (hfiles' : files'.WellNamed) {root : FilePath} (h : SameButIgnored files files' root)
    (hdir : files.isDir root = true) :
    (files.walk WalkEntry.isLeftOut root).filter OpenDir.tells =
      (files'.walk WalkEntry.isLeftOut root).filter OpenDir.tells := by
  have hdir' : files'.isDir root = true := h.place.isDir_eq.symm.trans hdir
  obtain ⟨names, es, hplace, hstart⟩ := exists_start_of_isDir hdir
  obtain ⟨names', es', hplace', hstart'⟩ := exists_start_of_isDir hdir'
  have hleads := FileTree.leads_of_lookup hplace
  have hleads' := FileTree.leads_of_lookup hplace'
  have halike : OpenDir.Alike ⟨names, root, [], es⟩ ⟨names', root, [], es'⟩ := by
    have hsame := h.place
    rw [LeadsAlike, hplace, hplace'] at hsame
    obtain ⟨hnames, hnode⟩ := FileTree.Place.mk.inj (Except.ok.inj hsame)
    exact ⟨hnames, rfl, rfl, FileTree.dir.inj hnode⟩
  -- neither walk needs more steps than the larger of the two bounds
  have hbelow := OpenDir.filter_below_eq hfiles hfiles' (hleads.wellNamed hfiles)
    (hleads'.wellNamed hfiles') (h.links _ hstart) .start .start halike rfl
    (max ((files.weight + 1) * (files.weight + 1)) ((files'.weight + 1) * (files'.weight + 1)))
  rwa [← walk_eq_below hstart hleads (Nat.le_max_left ..),
    ← walk_eq_below hstart' hleads' (Nat.le_max_right ..)] at hbelow

/-- Where a project is the same in two trees but for ignored entries, it has the same packages, or
they cannot be listed for the same reason; unless an ignored link that leads nowhere gets in the
way. -/
theorem same_packages_or_stopped {files files' : FileTree} (hfiles : files.WellNamed)
    (hfiles' : files'.WellNamed) {root : FilePath} (h : SameButIgnored files files' root)
    (importRoot : String) :
    packageTree files root importRoot = packageTree files' root importRoot ∨
      StoppedByIgnored files root (packageTree files root importRoot) ∨
      StoppedByIgnored files' root (packageTree files' root importRoot) := by
  have hisDir := h.place.isDir_eq
  cases hdir : files.isDir root with
  | false =>
    rw [hdir] at hisDir
    refine .inl ?_
    rw [packageTree, packageTree, ← hisDir, hdir, if_neg Bool.false_ne_true,
      if_neg Bool.false_ne_true]
  | true =>
    have hdir' : files'.isDir root = true := hisDir.symm.trans hdir
    rcases collectSources_filter_tells [] (files.walk WalkEntry.isLeftOut root) with hmet | hstop
    · rcases collectSources_filter_tells [] (files'.walk WalkEntry.isLeftOut root)
        with hmet' | hstop'
      · refine .inl ?_
        rw [packageTree, packageTree, hdir, hdir', hmet, hmet',
          filter_walk_eq hfiles hfiles' h hdir]
      · exact .inr (.inr (stoppedByIgnored_of_stopsAtHidden hfiles' hdir' importRoot hstop'))
    · exact .inr (.inl (stoppedByIgnored_of_stopsAtHidden hfiles hdir importRoot hstop))

/-! ## Projects without links -/

namespace FileTree

mutual

/-- There are no links in the tree. -/
def LinkFree : FileTree → Prop
  | dir es => LinkFreeIn es
  | file _ => True
  | link _ => False

/-- There is no link in the entries at any depth. -/
def LinkFreeIn : List (String × FileTree) → Prop
  | [] => True
  | (_, t) :: es => LinkFree t ∧ LinkFreeIn es

end

/-- There is no link in an entry if there is none in its directory. -/
lemma linkFree_of_mem {es : List (String × FileTree)} {e : String × FileTree} (he : e ∈ es)
    (h : LinkFreeIn es) : e.2.LinkFree := by
  induction es with
  | nil => cases he
  | cons e' es ih =>
    rcases List.mem_cons.1 he with rfl | he
    · exact h.1
    · exact ih he h.2

/-- Where only ignored links are, an entry that is not ignored has none. -/
lemma linkFree_pruned_of_mem {es : List (String × FileTree)} {e : String × FileTree} (he : e ∈ es)
    (hshown : e.2.isIgnored e.1 = false) (h : LinkFreeIn (prunedOf es)) : e.2.pruned.LinkFree := by
  have hmem : (e.1, e.2.pruned) ∈ prunedOf es := by
    rw [prunedOf_eq]
    exact List.mem_map.2 ⟨e, List.mem_filter.2 ⟨he, by rw [hshown]; rfl⟩, rfl⟩
  exact linkFree_of_mem hmem h

end FileTree

/-- There is no link that is not ignored in a directory which a walk reaches. -/
lemma OpenDir.Reached.linkFree {files : FileTree} {start d : OpenDir} {ancestors : List OpenDir}
    (h : Reached files start ancestors d)
    (hstart : FileTree.LinkFreeIn (FileTree.prunedOf start.entries)) :
    FileTree.LinkFreeIn (FileTree.prunedOf d.entries) := by
  induction h with
  | start => exact hstart
  | @enter ancestors d i e entry _ he hvisit hkept ih =>
    obtain ⟨rfl, hinner⟩ := visit_eq_ok hvisit
    obtain ⟨hshown, hname⟩ := Bool.or_eq_false_iff.1 hkept
    obtain ⟨-, -, ⟨hdir, -⟩ | ⟨⟨target, htarget⟩, -⟩⟩ := hinner i rfl
    · have hignored : e.2.isIgnored e.1 = false := by
        rw [hdir, FileTree.isIgnored, Bool.or_assoc, Bool.or_eq_false_iff]
        exact ⟨hshown, hname⟩
      have hfree := FileTree.linkFree_pruned_of_mem he hignored ih
      rw [hdir] at hfree
      exact hfree
    · have hfree := FileTree.linkFree_pruned_of_mem he (by rw [htarget]; exact hshown) ih
      rw [htarget] at hfree
      exact hfree.elim

/-- A project whose only links are ignored is the same in two trees if it is the same in its
place. -/
theorem sameButIgnored_of_linkFree {files files' : FileTree} {root : FilePath}
    (h : LeadsAlike files files' root)
    (hfree : ∀ place, files.lookup root = .ok place → place.node.pruned.LinkFree) :
    SameButIgnored files files' root := by
  refine ⟨h, fun start hstart ancestors d hd name target hmem hshown => ?_⟩
  have hstartFree : FileTree.LinkFreeIn (FileTree.prunedOf start.entries) := by
    rw [FileTree.walkStart] at hstart
    split at hstart
    · cases hstart
    · next hplace =>
      cases hstart
      exact hfree _ hplace
    · cases hstart
  exact (FileTree.linkFree_pruned_of_mem hmem hshown (hd.linkFree hstartFree)).elim

/-! ## The link that an editor leaves -/

namespace EditorLock

/-- A project with one file. -/
def tidy : FileTree :=
  .dir [("app", .dir [("a.go", .file .empty)])]

/-- The same project with a test, notes, data of tools and a link to the file. -/
def littered : FileTree :=
  .dir [("app", .dir [(".git", .dir [("HEAD", .file .empty)]), ("_last", .link "a.go"),
    ("a.go", .file .empty), ("a_test.go", .file .empty), ("notes.md", .file .empty),
    ("vendor", .dir [("v.go", .file .empty)])])]

/-- The same project with a link to nothing by which an editor marks the file as open. -/
def locked : FileTree :=
  .dir [("app", .dir [(".#a.go", .link "user@host.1234"), ("a.go", .file .empty)])]

/-- The names in the tidy project are proper. -/
lemma wellNamed_tidy : tidy.WellNamed :=
  ⟨by decide, by simp [tidy, FileTree.DistinctNames, FileTree.DistinctNamesIn]⟩

/-- The names in the littered project are proper. -/
lemma wellNamed_littered : littered.WellNamed :=
  ⟨by decide, by simp [littered, FileTree.DistinctNames, FileTree.DistinctNamesIn]⟩

/-- The tidy project has no links. -/
lemma linkFree_tidy (place : FileTree.Place) (h : tidy.lookup ⟨"/app"⟩ = .ok place) :
    place.node.pruned.LinkFree := by
  have hplace : tidy.lookup ⟨"/app"⟩ = .ok ⟨["app"], .dir [("a.go", .file .empty)]⟩ := rfl
  rw [hplace] at h
  cases h
  exact ⟨True.intro, True.intro⟩

/-- The littered project differs only in what is ignored. -/
lemma same_littered : SameButIgnored tidy littered ⟨"/app"⟩ :=
  sameButIgnored_of_linkFree rfl linkFree_tidy

/-- The project with a lock differs only in what is ignored. -/
lemma same_locked : SameButIgnored tidy locked ⟨"/app"⟩ :=
  sameButIgnored_of_linkFree rfl linkFree_tidy

/-- What lies beside the file does not matter. -/
theorem litter_hidden : tidy.WellNamed ∧ littered.WellNamed ∧
    SameButIgnored tidy littered ⟨"/app"⟩ ∧
    (packageTree tidy ⟨"/app"⟩ "m" = packageTree littered ⟨"/app"⟩ "m" ∨
      StoppedByIgnored tidy ⟨"/app"⟩ (packageTree tidy ⟨"/app"⟩ "m") ∨
      StoppedByIgnored littered ⟨"/app"⟩ (packageTree littered ⟨"/app"⟩ "m")) :=
  ⟨wellNamed_tidy, wellNamed_littered, same_littered,
    same_packages_or_stopped wellNamed_tidy wellNamed_littered same_littered "m"⟩

/-- The root of the project as a walk opens it. -/
def openDir (files : FileTree) : OpenDir :=
  ⟨["app"], ⟨"/app"⟩, [], ((files.at? ["app"]).map FileTree.entries).getD []⟩

/-- A walk of the tidy project meets its file. -/
lemma walk_tidy : tidy.walk WalkEntry.isLeftOut ⟨"/app"⟩ =
    [.ok ⟨⟨"/app/a.go"⟩, "a.go", [], false⟩] := by
  have hstart : tidy.walkStart ⟨"/app"⟩ = .ok (some (openDir tidy)) := rfl
  have hsorted : (openDir tidy).sortedEntries = (openDir tidy).entries :=
    List.mergeSort_singleton ..
  rw [FileTree.walk, hstart]
  dsimp only
  rw [show (tidy.weight + 1) * (tidy.weight + 1) = 15 + 1 from rfl, OpenDir.below, hsorted]
  rfl

/-- A walk of the project with a lock meets an error before the file. -/
lemma walk_locked : locked.walk WalkEntry.isLeftOut ⟨"/app"⟩ =
    [.error (.file ⟨"/app/.#a.go"⟩ .notFound), .ok ⟨⟨"/app/a.go"⟩, "a.go", [], false⟩] := by
  have hstart : locked.walkStart ⟨"/app"⟩ = .ok (some (openDir locked)) := rfl
  have hsorted : (openDir locked).sortedEntries = (openDir locked).entries :=
    List.mergeSort_of_pairwise (by decide +kernel)
  rw [FileTree.walk, hstart]
  dsimp only
  rw [show (locked.weight + 1) * (locked.weight + 1) = 24 + 1 from rfl, OpenDir.below, hsorted]
  rfl

/-- The link is ignored and all else is the same, but the packages cannot be listed. -/
theorem lock_stops_listing : SameButIgnored tidy locked ⟨"/app"⟩ ∧
    packageTree tidy ⟨"/app"⟩ "m" = .ok (.node "m" "m" ⟨"/app"⟩ [⟨"/app/a.go"⟩] []) ∧
    packageTree locked ⟨"/app"⟩ "m" =
      .error (.walk ⟨"/app/.#a.go"⟩ (.file ⟨"/app/.#a.go"⟩ .notFound)) := by
  refine ⟨same_locked, ?_, ?_⟩
  · have hdir : tidy.isDir ⟨"/app"⟩ = true := by decide +kernel
    have hname : suggestedName "m" = "m" := by decide +kernel
    have hsources : collectSources [] (tidy.walk WalkEntry.isLeftOut ⟨"/app"⟩) =
        .ok [([], [⟨"/app/a.go"⟩])] := by
      rw [walk_tidy]
      decide +kernel
    rw [packageTree_of_own hdir hsources, hname]
  · have hdir : locked.isDir ⟨"/app"⟩ = true := by decide +kernel
    rw [packageTree, if_pos hdir, walk_locked]
    rfl

end EditorLock

end GoService.Project
