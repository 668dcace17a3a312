import GoService.Proofs.Annotation.Readings

/-!
# Writing annotations

A documentation text is written from lines of prose and from annotations, whose values stand on one
line or between fences (`Written`). What is written so is read again: the annotations of the text
have the names that were written, in the order of their first appearance, each with the value that
was written last (`written_annotations`).
-/

namespace GoService.Annotations

/-- What a documentation text is written from. -/
inductive Written where
  | prose (line : List Char)
  | valued (indent name gap value : List Char)
  | fenced (indent name gap : List Char) (body : List (List Char))

namespace Written

/-- The lines that are written. -/
def rows : Written → List (List Char)
  | prose line => [line]
  | valued indent name gap value => [indent ++ '@' :: (name ++ (gap ++ value))]
  | fenced indent name gap body =>
    (indent ++ '@' :: (name ++ (gap ++ fenceStart))) :: (body ++ [fenceEnd])

/-- The name and the value that are written. -/
def annotation? : Written → Option (String × String)
  | prose _ => none
  | valued _ name _ value => some (String.ofList name, String.ofList value)
  | fenced _ name _ body => some (String.ofList name, String.ofList (Text.joinWith ['\n'] body))

end Written

/-- The text can stand on a line. -/
def IsRow (l : List Char) : Prop :=
  '\n' ∉ l ∧ l.getLast? ≠ some '\r'

/-- White space on a line. -/
def IsGap (cs : List Char) : Prop :=
  ∀ c ∈ cs, Text.isBlank c ∧ c ≠ '\n' ∧ c ≠ '\r'

instance (l : List Char) : Decidable (IsRow l) :=
  inferInstanceAs (Decidable (_ ∧ _))

instance (cs : List Char) : Decidable (IsGap cs) :=
  List.decidableBAll (fun c => Text.isBlank c ∧ c ≠ '\n' ∧ c ≠ '\r') cs

/-- What is written can be told apart: prose does not begin an annotation, a value on one line is
trimmed and does not open a fence, and nothing between fences closes them. Without a value nothing
need stand behind a name. -/
inductive Written.Legible : Written → Prop
  | prose (hline : IsRow line) (hprose : ¬ Begins line) : Legible (.prose line)
  | valued (hindent : IsGap indent) (hname : IsName name) (hgap : IsGap gap)
      (hapart : gap = [] → value = []) (hline : '\n' ∉ value) (htrim : Text.trim value = value)
      (hvalue : value ≠ fenceStart) : Legible (.valued indent name gap value)
  | fenced (hindent : IsGap indent) (hname : IsName name) (hgap : IsGap gap) (hne : gap ≠ [])
      (hrows : ∀ l ∈ body, IsRow l) (hbody : ∀ l ∈ body, Text.trim l ≠ fenceEnd) :
      Legible (.fenced indent name gap body)

/-! ## One piece -/

section

variable {indent name gap value : List Char}

/-- A gap is blank. -/
lemma IsGap.isBlank (h : IsGap gap) : ∀ c ∈ gap, Text.isBlank c :=
  fun c hc => (h c hc).1

/-- A gap has no line feed. -/
lemma IsGap.lineFeed_notMem (h : IsGap gap) : '\n' ∉ gap :=
  fun hmem => (h _ hmem).2.1 rfl

/-- White space behind the name, or nothing at all, sets the value apart. -/
lemma annotates_written (hindent : IsGap indent) (hname : IsName name) (hgap : IsGap gap)
    (hapart : gap = [] → value = []) (htrim : Text.trim value = value) :
    Annotates (indent ++ '@' :: (name ++ (gap ++ value))) name value := by
  have htail : ∀ c ∈ (gap ++ value).head?, Text.isBlank c := by
    intro c hc
    cases gap with
    | nil =>
      rw [hapart rfl] at hc
      cases hc
    | cons d gap =>
      cases hc
      exact (hgap _ List.mem_cons_self).1
  have hintro := Annotates.intro hindent.isBlank hname htail
  rwa [Text.trim_append_left hgap.isBlank, htrim] at hintro

/-- Two parts of a row one after the other are a row. -/
lemma IsRow.append {a b : List Char} (ha : IsRow a) (hb : IsRow b) : IsRow (a ++ b) := by
  refine ⟨fun h => (List.mem_append.1 h).elim ha.1 hb.1, ?_⟩
  rw [List.getLast?_append]
  have hlast := hb.2
  revert hlast
  cases b.getLast? with
  | none => exact fun _ => ha.2
  | some c => exact id

/-- A gap is a row. -/
lemma IsGap.isRow (h : IsGap gap) : IsRow gap :=
  ⟨h.lineFeed_notMem, fun hlast => (h _ (List.mem_of_getLast? hlast)).2.2 rfl⟩

/-- A name is a row. -/
lemma IsName.isRow (h : IsName name) : IsRow name :=
  ⟨h.lineFeed_notMem, fun hlast =>
    absurd (h.not_isBlank _ (List.mem_of_getLast? hlast)) (by decide)⟩

/-- A value without a line feed and without white space around it is a row. -/
lemma isRow_of_trim_eq (hline : '\n' ∉ value) (htrim : Text.trim value = value) : IsRow value := by
  refine ⟨hline, fun hlast => ?_⟩
  have hblank := Text.not_isBlank_getLast?_trimEnd (Text.trimStart value) '\r'
  rw [← Text.trim, htrim] at hblank
  exact absurd (hblank hlast) (by decide)

/-- An annotation in one line is a row. -/
lemma isRow_written (hindent : IsGap indent) (hname : IsName name) (hgap : IsGap gap)
    (hvalue : IsRow value) : IsRow (indent ++ '@' :: (name ++ (gap ++ value))) := by
  have hsign : IsRow ['@'] := ⟨by decide, by decide⟩
  exact hindent.isRow.append (hsign.append (hname.isRow.append (hgap.isRow.append hvalue)))

end

/-- The start of a fence has no white space around it. -/
lemma trim_fenceStart : Text.trim fenceStart = fenceStart := by
  decide

namespace Written

/-- The lines of a legible piece are rows. -/
lemma Legible.isRow {w : Written} (h : w.Legible) : ∀ l ∈ w.rows, IsRow l := by
  cases h with
  | prose hline => exact List.forall_mem_singleton.2 hline
  | valued hindent hname hgap hapart hline htrim hvalue =>
    exact List.forall_mem_singleton.2
      (isRow_written hindent hname hgap (isRow_of_trim_eq hline htrim))
  | fenced hindent hname hgap hne hrows hbody =>
    refine List.forall_mem_cons.2 ⟨?_, List.forall_mem_append.2 ⟨hrows, ?_⟩⟩
    · exact isRow_written hindent hname hgap ⟨by decide, by decide⟩
    · exact List.forall_mem_singleton.2 ⟨by decide, by decide⟩

/-- What is written is found, and the reader goes on in prose. -/
lemma Legible.foldl_line {w : Written} (h : w.Legible) (es : List (String × String)) :
    w.rows.foldl Progress.line ⟨es, .prose⟩ = ⟨es ++ w.annotation?.toList, .prose⟩ := by
  cases h with
  | prose hline hprose => exact (Progress.line_prose hprose).trans (by simp [annotation?])
  | valued hindent hname hgap hapart hline htrim hvalue =>
    exact Progress.line_valued (annotates_written hindent hname hgap hapart htrim) hvalue
  | fenced hindent hname hgap hne hrows hbody =>
    exact Progress.foldl_line_fence
      (annotates_written hindent hname hgap (fun h => absurd h hne) trim_fenceStart) hbody
      (by decide)

end Written

/-! ## A whole text -/

/-- The lines of a text, piece by piece. -/
def writtenRows (ws : List Written) : List (List Char) :=
  ws.flatMap Written.rows

/-- The annotations in the order in which they are written. -/
def writtenEntries (ws : List Written) : List (String × String) :=
  ws.filterMap Written.annotation?

/-- The lines of legible pieces are read as their entries, and the reader ends outside a fence. -/
lemma foldl_line_writtenRows {ws : List Written} (h : ∀ w ∈ ws, w.Legible)
    (es : List (String × String)) :
    (writtenRows ws).foldl Progress.line ⟨es, .prose⟩ = ⟨es ++ writtenEntries ws, .prose⟩ := by
  induction ws generalizing es with
  | nil => exact congrArg (Progress.mk · _) (List.append_nil es).symm
  | cons w ws ih =>
    obtain ⟨hw, hws⟩ := List.forall_mem_cons.1 h
    rw [writtenRows, List.flatMap_cons, List.foldl_append, hw.foldl_line, ← writtenRows, ih hws,
      List.append_assoc]
    congr 2
    rw [writtenEntries, writtenEntries, List.filterMap_cons]
    cases w.annotation? <;> rfl

/-- A text with the lines of legible pieces has the annotations that they write. -/
lemma ofText_of_hasLines {ws : List Written} (h : ∀ w ∈ ws, w.Legible) {text : String}
    (htext : Text.HasLines (writtenRows ws) text.toList) :
    ofText text = .ofEntries (writtenEntries ws) := by
  rw [ofText_eq, htext.lines_eq, found, Progress.start, foldl_line_writtenRows h]
  rfl

/-- What is written can be read again, however its lines are ended: exactly the names that were
written are there, in the order of their first appearance, each with the value written last. -/
theorem written_annotations (ws : List Written) (h : ∀ w ∈ ws, w.Legible) :
    Text.HasLines (writtenRows ws) ((writtenRows ws).flatMap (· ++ ['\n'])) ∧
    ∀ text : String, Text.HasLines (writtenRows ws) text.toList →
      (ofText text).keys = ((writtenEntries ws).map Prod.fst).eraseDups ∧
      ∀ name, (ofText text).get? name =
        (((writtenEntries ws).filter (·.1 == name)).map Prod.snd).getLast? := by
  constructor
  · refine Text.hasLines_flatMap fun l hl => ?_
    obtain ⟨w, hw, hl⟩ := List.mem_flatMap.1 hl
    exact (h w hw).isRow l hl
  · intro text htext
    rw [ofText_of_hasLines h htext]
    exact ⟨Dict.keys_ofEntries _, Dict.get?_ofEntries _⟩

namespace Handbook

/-- Prose, a title twice, a name without a value, and a fence around what looks like annotations and
like fences. -/
def pieces : List Written :=
  [.prose "Mail user@host, or @user.name.".toList,
    .valued "  ".toList "title".toList " ".toList "one".toList,
    .fenced [] "openapi".toList " ".toList
      ["@title inside".toList, [], "  <<< not yet".toList, "@description >>>".toList],
    .prose [], .valued [] "internal".toList [] [],
    .valued [] "title".toList " ".toList "two".toList]

/-- A text with annotations of one line and of several, and with lines that only look like some. -/
def text : String :=
  "Mail user@host, or @user.name.\n  @title one\r\n@openapi >>>\n@title inside\n\n  <<< not yet" ++
    "\n@description >>>\n<<<\n\n@internal\n@title two"

/-- The pieces of the text are legible. -/
lemma legible_pieces : ∀ w ∈ pieces, w.Legible := by
  have hgap : IsGap " ".toList := by decide
  have hnil : IsGap [] := List.forall_mem_nil _
  have htitle : IsName "title".toList := by decide +kernel
  simp only [pieces, List.forall_mem_cons]
  refine ⟨?_, ?_, ?_, ?_, ?_, ?_, List.forall_mem_nil _⟩
  · exact .prose ⟨by decide, by decide⟩ (ofLine?_eq_none_iff.1 (by decide +kernel))
  · exact .valued (by decide) htitle hgap (by decide) (by decide) (by decide) (by decide)
  · exact .fenced hnil (by decide +kernel) hgap (by decide)
      (by decide) (by decide)
  · exact .prose ⟨by decide, by decide⟩ (ofLine?_eq_none_iff.1 rfl)
  · exact .valued hnil (by decide +kernel) hnil (fun _ => rfl)
      (by decide) rfl (by decide)
  · exact .valued hnil htitle hgap (by decide) (by decide) (by decide) (by decide)

/-- The lines of the text are those of its pieces. -/
lemma hasLines_text : Text.HasLines (writtenRows pieces) text.toList := by
  decide +kernel

/-- The annotations of the text are those of its pieces; of two titles the last one holds. -/
theorem handbook_read :
    (∀ w ∈ pieces, w.Legible) ∧ Text.HasLines (writtenRows pieces) text.toList ∧
    (ofText text).keys = ((writtenEntries pieces).map Prod.fst).eraseDups ∧
    ∀ name, (ofText text).get? name =
      (((writtenEntries pieces).filter (·.1 == name)).map Prod.snd).getLast? :=
  ⟨legible_pieces, hasLines_text, (written_annotations pieces legible_pieces).2 text hasLines_text⟩

end Handbook

end GoService.Annotations
