import GoService.Project.FilePath
import GoService.Proofs.Text.Pieces

/-!
# Components of joined paths

When a path is followed from another one, its components come behind those of the other
(`components_join`). Names that are joined one by one can be joined with slashes between them at
once (`joinPieces_eq_join`).
-/

namespace GoService.Project.FilePath

open Text

variable {p : FilePath} {rel : String}

/-! ## Beginnings and steps -/

/-- The component that only a path can begin with: the root, or a dot. -/
def start (p : FilePath) : List Component :=
  if p.isAbsolute then [.root] else if (splitString '/' p.text).head? == some "." then [.current]
  else []

/-- The components that a text stands for anywhere in a path. -/
def steps (rel : String) : List Component :=
  (splitString '/' rel).filterMap componentOf?

/-- The components of a path are its start and the steps after it. -/
lemma components_eq (p : FilePath) : p.components = p.start ++ steps p.text :=
  rfl

/-- The steps of two texts with a slash between them are those of each. -/
lemma steps_slash (a b : String) : steps (a ++ "/" ++ b) = steps a ++ steps b := by
  rw [steps, splitString_slash, List.filterMap_append]
  rfl

/-- A piece of a path that names something in a directory. -/
structure IsName (s : String) : Prop where
  nonempty : s ≠ ""
  notCurrent : s ≠ "."
  notParent : s ≠ ".."

instance (s : String) : Decidable (IsName s) :=
  decidable_of_iff (s ≠ "" ∧ s ≠ "." ∧ s ≠ "..")
    ⟨fun h => ⟨h.1, h.2.1, h.2.2⟩, fun h => ⟨h.1, h.2, h.3⟩⟩

/-- A name is a component of its own. -/
lemma componentOf?_eq_name {s : String} (h : IsName s) : componentOf? s = some (.name s) := by
  rw [componentOf?, if_neg (not_or.2 ⟨h.nonempty, h.notCurrent⟩), if_neg h.notParent]

/-- A text made of names has them as its steps. -/
lemma steps_of_isName (h : ∀ u ∈ splitString '/' rel, IsName u) :
    steps rel = (splitString '/' rel).map .name := by
  rw [steps, ← List.filterMap_eq_map]
  exact List.filterMap_congr fun u hu => componentOf?_eq_name (h u hu)

/-- A text with a character other than a dot is a name. -/
lemma isName_of_mem {s : String} {c : Char} (hc : c ∈ s.toList) (hdot : c ≠ '.') : IsName s := by
  constructor
  · rintro rfl
    exact List.not_mem_nil hc
  · rintro rfl
    exact hdot (List.mem_singleton.1 hc)
  · rintro rfl
    exact hdot ((List.mem_cons.1 hc).elim id List.mem_singleton.1)

/-- A path is absolute exactly if it begins with a slash. -/
lemma isAbsolute_iff : p.isAbsolute = true ↔ p.text.toList.head? = some '/' :=
  beq_iff_eq

/-- An absolute path starts at the root. -/
lemma start_of_isAbsolute (h : p.isAbsolute = true) : p.start = [.root] :=
  if_pos h

/-- A path that begins with neither a slash nor a dot has only its steps. -/
lemma start_eq_nil (hslash : rel.toList.head? ≠ some '/')
    (hdot : (splitString '/' rel).head? ≠ some ".") : start ⟨rel⟩ = [] := by
  rw [start, isAbsolute, if_neg (by simpa using hslash), if_neg (by simpa using hdot)]

/-- A relative path starts where it is, with a dot or without one. -/
lemma start_of_relative (h : rel.toList.head? ≠ some '/') :
    start ⟨rel⟩ = [.current] ∨ start ⟨rel⟩ = [] := by
  rw [start, isAbsolute, if_neg (by simpa using h)]
  split
  · exact .inl rfl
  · exact .inr rfl

/-- The start of a path depends on its first character and its first piece only. -/
lemma start_congr {q : FilePath} (hhead : q.text.toList.head? = p.text.toList.head?)
    (hfirst : (splitString '/' q.text).head? = (splitString '/' p.text).head?) :
    q.start = p.start := by
  rw [start, start, isAbsolute, isAbsolute, hhead, hfirst]

/-- What a path begins with is seen before a slash, if anything is. -/
lemma start_append_slash {a : String} (ha : a ≠ "") (b : String) :
    start ⟨a ++ "/" ++ b⟩ = start ⟨a⟩ := by
  refine start_congr ?_ ?_
  · rw [String.append_assoc, String.toList_append]
    exact List.head?_append_of_ne_nil _ (mt String.toList_eq_nil_iff.1 ha)
  · rw [splitString_slash]
    exact List.head?_append_of_ne_nil _ (splitString_ne_nil '/' a)

/-- What comes after a slash does not change the start. -/
lemma start_slash_append (a b : String) : start ⟨a ++ "/" ++ b⟩ = start ⟨a ++ "/"⟩ := by
  refine start_congr ?_ ?_
  · rw [String.toList_append]
    exact List.head?_append_of_ne_nil _ (by simp)
  · have hne := splitString_ne_nil '/' a
    rw [splitString_slash, splitString_slash_end, List.head?_append_of_ne_nil _ hne,
      List.head?_append_of_ne_nil _ hne]

/-! ## Joined paths -/

/-- The text of the path, with a slash at the end unless it is empty. -/
def slashed (p : FilePath) : String :=
  if p.text.isEmpty || p.text.toList.getLast? == some '/' then p.text else p.text ++ "/"

/-- A relative path is joined behind the slash of the other one. -/
lemma join_of_relative (hrel : rel.toList.head? ≠ some '/') : p.join rel = ⟨p.slashed ++ rel⟩ := by
  rw [join, if_neg (by simpa using hrel), slashed]
  split <;> rfl

/-- A path that is not empty keeps the slash at its end, or gets one. -/
lemma exists_slashed_eq (hp : p.text ≠ "") :
    ∃ a, p.slashed = a ++ "/" ∧ (p.text = a ∨ p.text = a ++ "/") := by
  rw [slashed]
  by_cases hlast : p.text.toList.getLast? = some '/'
  · obtain ⟨cs, hcs⟩ := List.getLast?_eq_some_iff.1 hlast
    have htext : p.text = String.ofList cs ++ "/" := by
      rw [← String.ofList_toList (s := p.text), hcs, String.ofList_append]
    rw [if_pos (by simp [hlast])]
    exact ⟨String.ofList cs, htext, .inr htext⟩
  · rw [if_neg (by simp [hp, hlast])]
    exact ⟨p.text, rfl, .inl rfl⟩

/-- The components of a path that is followed from another one come behind those of the other. -/
lemma components_join (hp : p.text ≠ "") (hrel : rel.toList.head? ≠ some '/') :
    (p.join rel).components = p.components ++ steps rel := by
  obtain ⟨a, hslashed, htext⟩ := exists_slashed_eq hp
  rw [join_of_relative hrel, hslashed, components_eq, components_eq, steps_slash]
  rcases htext with rfl | htext
  · rw [start_append_slash hp, List.append_assoc]
  -- a slash at the end of the first path adds only an empty piece, which is no component
  · have hsteps : steps p.text = steps a := by
      rw [htext, steps, splitString_slash_end, List.filterMap_append]
      exact List.append_nil _
    have hstart : start ⟨a ++ "/" ++ rel⟩ = p.start := by
      rw [start_slash_append, ← htext]
    rw [hstart, hsteps, List.append_assoc]

/-- A path of names only is relative. -/
lemma head?_ne_of_isName (h : ∀ u ∈ splitString '/' rel, IsName u) :
    rel.toList.head? ≠ some '/' := by
  intro hhead
  obtain ⟨cs, hcs⟩ := List.head?_eq_some_iff.1 hhead
  have hpieces : splitString '/' rel = "" :: (split '/' cs).map String.ofList := by
    rw [splitString, hcs, split_cons_self]
    rfl
  exact (h "" (hpieces ▸ List.mem_cons_self)).nonempty rfl

/-- Joining names appends them to the components. -/
lemma components_join_of_isName (h : ∀ u ∈ splitString '/' rel, IsName u) :
    (p.join rel).components = p.components ++ (splitString '/' rel).map .name := by
  have hhead := head?_ne_of_isName h
  rw [← steps_of_isName h]
  by_cases hp : p.text = ""
  · have hdot : (splitString '/' rel).head? ≠ some "." := fun hdot =>
      (h "." (List.mem_of_mem_head? hdot)).notCurrent rfl
    obtain rfl : p = ⟨""⟩ := by rw [← hp]
    have hslashed : slashed ⟨""⟩ = "" := rfl
    rw [join_of_relative hhead, hslashed, String.empty_append, components_eq,
      start_eq_nil hhead hdot]
    rfl
  · exact components_join hp hhead

/-! ## Names joined one by one -/

/-- A text that begins with a name is no absolute path. -/
lemma head?_ne_slash {u : String} (hne : u ≠ "") (hplain : '/' ∉ u.toList) (rest : String) :
    (u ++ rest).toList.head? ≠ some '/' := by
  rw [String.toList_append, List.head?_append_of_ne_nil _ (mt String.toList_eq_nil_iff.1 hne)]
  exact fun h => hplain (List.mem_of_mem_head? h)

/-- A text that begins with a plain name does not begin with a slash. -/
lemma head?_intercalate_ne {u : String} (hne : u ≠ "") (hplain : '/' ∉ u.toList)
    (us : List String) : ("/".intercalate (u :: us)).toList.head? ≠ some '/' := by
  cases us with
  | nil => simpa using head?_ne_slash hne hplain ""
  | cons v us =>
    rw [String.intercalate_cons_cons, String.append_assoc]
    exact head?_ne_slash hne hplain _

/-- Joining a name and then a relative path is joining both at once. -/
lemma join_join {u : String} (hne : u ≠ "") (hplain : '/' ∉ u.toList)
    (hrel : rel.toList.head? ≠ some '/') : (p.join u).join rel = p.join (u ++ "/" ++ rel) := by
  have hu : u.toList.head? ≠ some '/' := by
    simpa using head?_ne_slash hne hplain ""
  have hboth : (u ++ "/" ++ rel).toList.head? ≠ some '/' := by
    rw [String.append_assoc]
    exact head?_ne_slash hne hplain _
  have hlast : u.toList.getLast? ≠ some '/' := fun h => hplain (List.mem_of_getLast? h)
  have hslashed : slashed ⟨p.slashed ++ u⟩ = p.slashed ++ u ++ "/" := by
    rw [slashed, if_neg (by simp [hne, hlast])]
  rw [join_of_relative hu, join_of_relative hrel, hslashed, join_of_relative hboth]
  simp only [String.append_assoc]

/-- Pieces without slashes that are not empty make one relative path. -/
lemma foldl_join {us : List String} (hus : us ≠ []) (hnonempty : ∀ u ∈ us, u ≠ "")
    (hplain : ∀ u ∈ us, '/' ∉ u.toList) (p : FilePath) :
    us.foldl join p = p.join ("/".intercalate us) := by
  induction us generalizing p with
  | nil => exact absurd rfl hus
  | cons u us ih =>
    obtain ⟨hu, hnonempty⟩ := List.forall_mem_cons.1 hnonempty
    obtain ⟨hslash, hplain⟩ := List.forall_mem_cons.1 hplain
    cases us with
    | nil => rw [List.foldl_cons, List.foldl_nil, String.intercalate_singleton]
    | cons v us =>
      have hhead := head?_intercalate_ne (hnonempty v List.mem_cons_self)
        (hplain v List.mem_cons_self) us
      rw [List.foldl_cons, ih (List.cons_ne_nil _ _) hnonempty hplain, join_join hu hslash hhead,
        String.intercalate_cons_cons]

/-- The pieces of a text that are not empty are joined as they stand in it. -/
lemma joinPieces_eq_join (hrel : ∀ u ∈ splitString '/' rel, u ≠ "") :
    p.joinPieces rel = p.join rel := by
  have hkept : (splitString '/' rel).filter (!·.isEmpty) = splitString '/' rel :=
    List.filter_eq_self.2 fun u hu => by simpa using hrel u hu
  rw [joinPieces, hkept, foldl_join (splitString_ne_nil '/' rel) hrel
    (fun _ h => notMem_of_mem_splitString h), intercalate_splitString]

/-- A last piece is joined by itself. -/
lemma joinPieces_slash {u : String} (hne : u ≠ "") (hplain : '/' ∉ u.toList) :
    p.joinPieces (rel ++ "/" ++ u) = (p.joinPieces rel).join u := by
  have hlast : [u].filter (!·.isEmpty) = [u] := List.filter_eq_self.2 (by simpa using hne)
  rw [joinPieces, splitString_slash, splitString_of_notMem hplain, List.filter_append, hlast,
    List.foldl_concat, joinPieces]

end GoService.Project.FilePath
