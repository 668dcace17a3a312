import GoService.Proofs.Text.Pieces

/-!
# Lines of a text

How a text is written in lines is said by `HasLines`: each line is ended by a line feed, with a
carriage return before it or without, and the last one may go without an end. The reader of lines
finds just these lines (`lines_eq_iff`). A text that goes on after a line feed has the lines of its
two parts, but that the line feed ends the last line of the first part (`lines_append_lineFeed`).
-/

namespace GoService.Text

/-! ## Texts in lines -/

/-- The text is written in these lines. -/
inductive HasLines : List (List Char) → List Char → Prop
  | nil : HasLines [] []
  | last (hne : l ≠ []) (hl : '\n' ∉ l) : HasLines [l] l
  | lineFeed (hl : '\n' ∉ l) (hreturn : l.getLast? ≠ some '\r') (h : HasLines ls text) :
      HasLines (l :: ls) (l ++ '\n' :: text)
  | returnLineFeed (hl : '\n' ∉ l) (h : HasLines ls text) :
      HasLines (l :: ls) (l ++ '\r' :: '\n' :: text)

/-- A line that does not end with a carriage return stays as it is. -/
lemma dropReturn_of_getLast?_ne {l : List Char} (h : l.getLast? ≠ some '\r') :
    dropReturn l = l :=
  if_neg h

/-- The carriage return at the end of a line is dropped. -/
lemma dropReturn_concat (l : List Char) : dropReturn (l ++ ['\r']) = l := by
  rw [dropReturn, List.getLast?_concat, if_pos rfl, List.dropLast_concat]

/-- A piece that is followed by others is a line. -/
lemma linesOfPieces_cons (p : List Char) {ps : List (List Char)} (h : ps ≠ []) :
    linesOfPieces (p :: ps) = dropReturn p :: linesOfPieces ps := by
  cases ps with
  | nil => exact absurd rfl h
  | cons q qs => rfl

/-- A text begins with the line before its first line feed. -/
lemma lines_lineFeed {p : List Char} (hp : '\n' ∉ p) (cs : List Char) :
    lines (p ++ '\n' :: cs) = dropReturn p :: lines cs := by
  rw [lines, split_append_of_notMem hp, linesOfPieces_cons p (split_ne_nil '\n' cs), lines]

/-- The lines in which a text is written are the lines that are read. -/
lemma HasLines.lines_eq {ls : List (List Char)} {text : List Char} (h : HasLines ls text) :
    lines text = ls := by
  induction h with
  | nil => rfl
  | @last l hne hl =>
    rw [lines, split_of_notMem hl, linesOfPieces, if_neg (mt List.isEmpty_iff.1 hne)]
  | @lineFeed l ls text hl hreturn h ih =>
    rw [lines_lineFeed hl, ih, dropReturn_of_getLast?_ne hreturn]
  | @returnLineFeed l ls text hl h ih =>
    have hreturn : '\n' ∉ l ++ ['\r'] := by simpa using hl
    rw [← List.singleton_append, ← List.append_assoc, lines_lineFeed hreturn, ih,
      dropReturn_concat]

/-- Pieces without line feeds are the lines of the text that joins them. -/
lemma hasLines_joinWith {ps : List (List Char)} (h : ∀ p ∈ ps, '\n' ∉ p) :
    HasLines (linesOfPieces ps) (joinWith ['\n'] ps) := by
  induction ps with
  | nil => exact .nil
  | cons p ps ih =>
    obtain ⟨hp, hps⟩ := List.forall_mem_cons.1 h
    cases ps with
    | nil =>
      rw [linesOfPieces, joinWith]
      split
      · next hempty =>
        rw [List.isEmpty_iff.1 hempty]
        exact .nil
      · next hne => exact .last (mt List.isEmpty_iff.2 hne) hp
    | cons q qs =>
      rw [linesOfPieces, joinWith, List.append_assoc, List.singleton_append]
      by_cases hreturn : p.getLast? = some '\r'
      · obtain ⟨l, rfl⟩ := List.getLast?_eq_some_iff.1 hreturn
        rw [dropReturn_concat, List.append_assoc, List.singleton_append]
        exact .returnLineFeed (fun hmem => hp (List.mem_append_left _ hmem)) (ih hps)
      · rw [dropReturn_of_getLast?_ne hreturn]
        exact .lineFeed hp hreturn (ih hps)

/-- The lines of a text are those in which it is written. -/
lemma lines_eq_iff {ls : List (List Char)} {text : List Char} :
    lines text = ls ↔ HasLines ls text := by
  refine ⟨?_, HasLines.lines_eq⟩
  rintro rfl
  have hpieces : ∀ p ∈ split '\n' text, '\n' ∉ p := fun p hp => notMem_of_mem_split hp
  have h := hasLines_joinWith hpieces
  rwa [joinWith_split] at h

instance (ls : List (List Char)) (text : List Char) : Decidable (HasLines ls text) :=
  decidable_of_iff _ lines_eq_iff

/-- Rows that are each ended by a line feed are the lines of a text. -/
lemma hasLines_flatMap {ls : List (List Char)}
    (h : ∀ l ∈ ls, '\n' ∉ l ∧ l.getLast? ≠ some '\r') : HasLines ls (ls.flatMap (· ++ ['\n'])) := by
  induction ls with
  | nil => exact .nil
  | cons l ls ih =>
    obtain ⟨⟨hl, hreturn⟩, hls⟩ := List.forall_mem_cons.1 h
    rw [List.flatMap_cons, List.append_assoc, List.singleton_append]
    exact .lineFeed hl hreturn (ih hls)

/-! ## Texts in two parts -/

/-- The lines of pieces are those of the first and those of the others. -/
lemma linesOfPieces_append (ps : List (List Char)) {qs : List (List Char)} (h : qs ≠ []) :
    linesOfPieces (ps ++ qs) = ps.map dropReturn ++ linesOfPieces qs := by
  induction ps with
  | nil => rfl
  | cons p ps ih =>
    rw [List.cons_append, linesOfPieces_cons p (List.append_ne_nil_of_right_ne_nil ps h), ih,
      List.map_cons, List.cons_append]

/-- A line feed between two texts ends the last line of the first one. If that line was empty or had
a return at its end, it becomes a line, or goes without the return. -/
lemma lines_append_lineFeed (a b : List Char) : ∃ before l,
    (lines a = before ∧ l = [] ∨ lines a = before ++ [l]) ∧
      lines (a ++ '\n' :: b) = before ++ dropReturn l :: lines b := by
  obtain ⟨before, l, hsplit⟩ : ∃ before l, split '\n' a = before ++ [l] :=
    ⟨_, _, (List.dropLast_append_getLast (split_ne_nil '\n' a)).symm⟩
  refine ⟨before.map dropReturn, l, ?_, ?_⟩
  · rw [lines, hsplit, linesOfPieces_append before (List.cons_ne_nil _ _), linesOfPieces]
    split
    · next hl => exact .inl ⟨List.append_nil _, List.isEmpty_iff.1 hl⟩
    · exact .inr rfl
  · rw [lines, split_append_cons, linesOfPieces_append _ (split_ne_nil '\n' b), hsplit, ← lines,
      List.map_append, List.append_assoc]
    rfl

/-! ## Trimmed texts -/

section

variable {cs front : List Char}

/-- Blanks before a text are cut off at the front. -/
lemma trimStart_append (hfront : ∀ c ∈ front, isBlank c) (cs : List Char) :
    trimStart (front ++ cs) = trimStart cs :=
  List.dropWhile_append_of_pos hfront

/-- A text that begins with no blank is not cut off at the front. -/
lemma trimStart_of_not_isBlank {c : Char} (hc : isBlank c = false) (cs : List Char) :
    trimStart (c :: cs) = c :: cs :=
  List.dropWhile_cons_of_neg (by simp [hc])

/-- Blanks behind a text are cut off at the end. -/
lemma trimEnd_append (cs : List Char) {back : List Char} (hback : ∀ c ∈ back, isBlank c) :
    trimEnd (cs ++ back) = trimEnd cs := by
  rw [trimEnd, trimEnd, List.reverse_append,
    List.dropWhile_append_of_pos fun c hc => hback c (List.mem_reverse.1 hc)]

/-- What is behind a character that is not blank is trimmed by itself. -/
lemma trimEnd_append_of_not_isBlank (init : List Char) {c : Char} (hc : isBlank c = false)
    (cs : List Char) : trimEnd (init ++ c :: cs) = init ++ c :: trimEnd cs := by
  rw [trimEnd, trimEnd, List.reverse_append, List.reverse_cons, List.append_assoc,
    List.dropWhile_append]
  split
  · next hempty =>
    rw [List.isEmpty_iff.1 hempty, List.singleton_append,
      List.dropWhile_cons_of_neg (by simp [hc]), List.reverse_cons, List.reverse_reverse]
    rfl
  · rw [List.reverse_append, List.reverse_append, List.reverse_reverse, List.append_assoc]
    rfl

/-- A text is white space, its trimmed end, and white space. -/
lemma exists_append_trimEnd (cs : List Char) :
    ∃ back, (∀ c ∈ back, isBlank c) ∧ cs = trimEnd cs ++ back := by
  refine ⟨(cs.reverse.takeWhile isBlank).reverse, fun c hc => ?_, ?_⟩
  · exact List.mem_takeWhile_imp (List.mem_reverse.1 hc)
  · rw [trimEnd, ← List.reverse_append, List.takeWhile_append_dropWhile, List.reverse_reverse]

/-- A text is its trimmed form between blanks. -/
lemma exists_append_trim (cs : List Char) : ∃ front back,
    (∀ c ∈ front, isBlank c) ∧ (∀ c ∈ back, isBlank c) ∧ cs = front ++ (trim cs ++ back) := by
  obtain ⟨back, hback, heq⟩ := exists_append_trimEnd (trimStart cs)
  refine ⟨cs.takeWhile isBlank, back, fun c hc => List.mem_takeWhile_imp hc, hback, ?_⟩
  rw [trim, ← heq, trimStart, List.takeWhile_append_dropWhile]

/-- Trimming takes all white space at either end. -/
lemma trim_append (hfront : ∀ c ∈ front, isBlank c) (cs : List Char) {back : List Char}
    (hback : ∀ c ∈ back, isBlank c) : trim (front ++ (cs ++ back)) = trim cs := by
  rw [trim, trimStart_append hfront, trim, trimStart, trimStart, List.dropWhile_append]
  split
  · next h =>
    rw [List.isEmpty_iff.1 h, List.dropWhile_eq_nil_iff.2 hback]
  · exact trimEnd_append _ hback

/-- Blanks before a text are trimmed. -/
lemma trim_append_left (hfront : ∀ c ∈ front, isBlank c) (cs : List Char) :
    trim (front ++ cs) = trim cs := by
  have h := trim_append hfront cs (List.forall_mem_nil _)
  rwa [List.append_nil] at h

/-- Blanks behind a text are trimmed. -/
lemma trim_append_right (cs : List Char) {back : List Char} (hback : ∀ c ∈ back, isBlank c) :
    trim (cs ++ back) = trim cs :=
  trim_append (List.forall_mem_nil _) cs hback

/-- A return at the end of a line is white space. -/
lemma trim_dropReturn (l : List Char) : trim (dropReturn l) = trim l := by
  rw [dropReturn]
  split
  · next h =>
    obtain ⟨init, rfl⟩ := List.getLast?_eq_some_iff.1 h
    rw [List.dropLast_concat, trim_append_right init fun c hc => by
      cases List.mem_singleton.1 hc
      decide]
  · rfl

end

end GoService.Text
