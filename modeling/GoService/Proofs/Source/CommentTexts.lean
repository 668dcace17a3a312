import GoService.Proofs.Lists
import GoService.Proofs.Source.Distant
import GoService.Proofs.Source.Moved
import GoService.Proofs.Text.Pieces
import Mathlib.Data.List.TakeDrop

/-!
# The text of comment groups

What the lines of a comment are, said by how the comment is written (`Says`), and what a text is
that has the lines of a group less what is blank (`Normalizes`). The content of every comment group
of every source of less than 4 GiB is that text for the lines of its comments
(`content_normalizes`). In a larger one a comment may be lost (`Distant.content_lost`).
-/

namespace GoService.Source

/-! ## The lines of a comment -/

/-- What follows `//` and addresses a tool. -/
inductive IsDirective : List Char → Prop
  | word (h : word ∈ ["line ", "extern ", "export "]) : IsDirective (word.toList ++ rest)
  | named (hne : name ≠ []) (hname : ∀ c ∈ name, isDirectiveChar c) (hd : isDirectiveChar d) :
      IsDirective (name ++ ':' :: d :: rest)

/-- A comment that is written so has the lines, without its marks. -/
inductive Says : CommentKind → List Char → List (List Char) → Prop
  | directive (h : IsDirective body) : Says .line ('/' :: '/' :: body) []
  | spaced (hline : '\n' ∉ line) (h : ¬ IsDirective (' ' :: line)) :
      Says .line ('/' :: '/' :: ' ' :: line) [line]
  | unspaced (hline : '\n' ∉ line) (h : ¬ IsDirective line) (hspace : line.head? ≠ some ' ') :
      Says .line ('/' :: '/' :: line) [line]
  | closed (hne : lines ≠ []) (hlines : ∀ l ∈ lines, '\n' ∉ l) :
      Says .block ('/' :: '*' :: (Text.joinWith ['\n'] lines ++ ['*', '/'])) lines
  | unclosed (hne : lines ≠ []) (hlines : ∀ l ∈ lines, '\n' ∉ l)
      (hopen : ¬ IsClosedBlock ('/' :: '*' :: Text.joinWith ['\n'] lines)) :
      Says .block ('/' :: '*' :: Text.joinWith ['\n'] lines) lines

/-- What the test takes for a directive to a tool is one. -/
lemma isDirective_of_isToolDirective {body : List Char} (h : isToolDirective body = true) :
    IsDirective body := by
  rw [isToolDirective, Bool.or_eq_true, List.any_eq_true, List.span_eq_takeWhile_dropWhile] at h
  rcases h with ⟨word, hword, hprefix⟩ | h
  · obtain ⟨rest, rfl⟩ := List.isPrefixOf_iff_prefix.1 hprefix
    exact .word hword
  · have hbody := (List.takeWhile_append_dropWhile (p := isDirectiveChar) (l := body)).symm
    have hname : ∀ c ∈ body.takeWhile isDirectiveChar, isDirectiveChar c :=
      fun c hc => List.mem_takeWhile_imp hc
    split at h
    · next n name d rest hspan =>
      obtain ⟨htake, hdrop⟩ := Prod.mk.inj hspan
      rw [htake, hdrop] at hbody
      rw [htake] at hname
      rw [hbody]
      exact .named (List.cons_ne_nil _ _) hname h
    · cases h

/-- The test tells the directives to tools. -/
lemma isToolDirective_iff {body : List Char} : isToolDirective body = true ↔ IsDirective body := by
  refine ⟨isDirective_of_isToolDirective, fun h => ?_⟩
  rw [isToolDirective, Bool.or_eq_true, List.any_eq_true, List.span_eq_takeWhile_dropWhile]
  cases h with
  | @word word rest hword =>
    exact .inl ⟨word, hword, List.isPrefixOf_iff_prefix.2 (List.prefix_append ..)⟩
  | @named name d rest hne hname hd =>
    right
    rw [List.takeWhile_append_of_pos hname, List.dropWhile_append_of_pos hname,
      List.takeWhile_cons_of_neg (by decide), List.dropWhile_cons_of_neg (by decide),
      List.append_nil]
    obtain ⟨n, name, rfl⟩ := List.exists_cons_of_ne_nil hne
    exact hd

/-- The lines that are read off a comment are the ones it is written to have. -/
lemma contentLines_eq_of_said {c : Comment} {lines : List (List Char)}
    (h : Says c.kind c.text.toList lines) : c.contentLines = lines := by
  obtain ⟨kind, span, text, next⟩ := c
  dsimp only at h
  rw [Comment.contentLines]
  dsimp only
  generalize text.toList = cs at h
  cases h with
  | directive h => exact if_pos (isToolDirective_iff.2 h)
  | spaced hline h => exact if_neg (mt isToolDirective_iff.1 h)
  | unspaced hline h hspace =>
    refine (if_neg (mt isToolDirective_iff.1 h)).trans ?_
    split
    · next hbody => exact absurd (congrArg List.head? hbody) hspace
    · rfl
  | closed hne hlines =>
    show Text.split '\n' (blockBody (Text.joinWith ['\n'] lines ++ ['*', '/'])) = lines
    rw [blockBody_close, Text.split_joinWith hne hlines]
  | unclosed hne hlines hopen =>
    show Text.split '\n' (blockBody (Text.joinWith ['\n'] lines)) = lines
    rw [blockBody, if_neg, Text.split_joinWith hne hlines]
    intro hsuffix
    obtain ⟨inner, hinner⟩ := List.isSuffixOf_iff_suffix.1 hsuffix
    exact hopen ⟨inner, by rw [hinner]⟩

/-! ## Comments as the lexer leaves them -/

/-- A text with the mark of a comment says some lines. -/
lemma exists_said_of_isMarked {kind : CommentKind} {text : List Char} (h : IsMarked kind text) :
    ∃ lines, Says kind text lines := by
  cases h with
  | @line body h =>
    have hbody : '\n' ∉ body := fun hmem => h _ hmem rfl
    by_cases hdirective : IsDirective body
    · exact ⟨[], .directive hdirective⟩
    · by_cases hspace : body.head? = some ' '
      · obtain ⟨line, rfl⟩ := List.head?_eq_some_iff.1 hspace
        exact ⟨[line], .spaced (fun hmem => hbody (List.mem_cons_of_mem _ hmem)) hdirective⟩
      · exact ⟨[body], .unspaced hbody hdirective hspace⟩
  | @block body =>
    by_cases hclosed : ∃ inner, body = inner ++ ['*', '/']
    · obtain ⟨inner, rfl⟩ := hclosed
      have h := Says.closed (Text.split_ne_nil '\n' inner) fun l hl => Text.notMem_of_mem_split hl
      rw [Text.joinWith_split] at h
      exact ⟨_, h⟩
    · have h := @Says.unclosed _ (Text.split_ne_nil '\n' body)
        (fun l hl => Text.notMem_of_mem_split hl)
      rw [Text.joinWith_split] at h
      refine ⟨_, h fun ⟨inner, hinner⟩ => hclosed ⟨inner, ?_⟩⟩
      exact List.cons.inj (List.cons.inj hinner).2 |>.2

/-! ## Texts without superfluous blank lines -/

/-- A line with nothing but white space. -/
def isBlankLine (line : List Char) : Bool :=
  line.all Text.isBlank

/-- The lines that are not blank, without white space at their ends. -/
def keptLines (lines : List (List Char)) : List (List Char) :=
  (lines.filter (!isBlankLine ·)).map Text.trimEnd

/-- What stands before each line feed of a text. -/
def rowsOf (text : List Char) : List (List Char) :=
  (Text.split '\n' text).dropLast

/-- The text has the lines that are kept, and a blank row for the blank lines between two of
them. -/
structure Normalizes (lines : List (List Char)) (text : List Char) : Prop where
  ends : text = [] ∨ text.getLast? = some '\n'
  kept : (rowsOf text).filter (· ≠ []) = keptLines lines
  trimmed : ∀ row ∈ rowsOf text, ∀ c ∈ row.getLast?, Text.isBlank c = false
  first : (rowsOf text).head? ≠ some []
  last : (rowsOf text).getLast? ≠ some []
  single : (rowsOf text).IsChain fun row next => row = [] → next ≠ []
  /-- Two lines that are kept, with nothing but blank ones between them, stand in the text with a
  blank row between them or with nothing. -/
  gaps : ∀ before a blanks b after, lines = before ++ a :: (blanks ++ b :: after) →
    isBlankLine a = false → isBlankLine b = false → (∀ l ∈ blanks, isBlankLine l = true) →
    ∃ rows gap rows', rowsOf text =
        rows ++ Text.trimEnd a :: (gap ++ Text.trimEnd b :: rows') ∧
      rows.filter (· ≠ []) = keptLines before ∧ rows'.filter (· ≠ []) = keptLines after ∧
      gap = if blanks = [] then [] else [[]]

/-- The rows that `joinParagraphs` writes. -/
def paragraphRows (started gap : Bool) : List (List Char) → List (List Char)
  | [] => []
  | l :: ls =>
    if l.isEmpty then paragraphRows started started ls
    else (if gap then [[]] else []) ++ l :: paragraphRows true false ls

variable {started gap : Bool} {ls : List (List Char)} {l : List Char}

/-- An empty line among rows opens a gap once there were rows before it. -/
lemma paragraphRows_blank : paragraphRows started gap ([] :: ls) =
    paragraphRows started started ls := rfl

/-- A row closes the gap before it. -/
lemma paragraphRows_cons (hl : l ≠ []) : paragraphRows started gap (l :: ls) =
    (if gap then [[]] else []) ++ l :: paragraphRows true false ls := by
  rw [paragraphRows, if_neg (mt List.isEmpty_iff.1 hl)]

/-- Paragraphs are joined as rows, each with a line feed. -/
lemma joinParagraphs_eq : joinParagraphs started gap ls =
    (paragraphRows started gap ls).flatMap (· ++ ['\n']) := by
  induction ls generalizing started gap with
  | nil => rfl
  | cons l ls ih =>
    rw [joinParagraphs, paragraphRows]
    split
    · exact ih
    · rw [ih, List.flatMap_append, List.flatMap_cons]
      cases gap <;> simp

/-- A row is empty or one of the lines. -/
lemma mem_paragraphRows {row : List Char} (h : row ∈ paragraphRows started gap ls) :
    row = [] ∨ row ∈ ls := by
  induction ls generalizing started gap with
  | nil => cases h
  | cons l ls ih =>
    by_cases hl : l = []
    · subst hl
      rw [paragraphRows_blank] at h
      exact (ih h).imp_right (List.mem_cons_of_mem _)
    · rw [paragraphRows_cons hl] at h
      rcases List.mem_append.1 h with h | h
      · cases gap with
        | false => cases h
        | true => exact .inl (List.mem_singleton.1 h)
      · rcases List.mem_cons.1 h with rfl | h
        · exact .inr (List.mem_cons_self ..)
        · exact (ih h).imp_right (List.mem_cons_of_mem _)

/-- The rows that are not empty are the lines that are not. -/
lemma filter_paragraphRows :
    (paragraphRows started gap ls).filter (· ≠ []) = ls.filter (· ≠ []) := by
  induction ls generalizing started gap with
  | nil => rfl
  | cons l ls ih =>
    by_cases hl : l = []
    · subst hl
      rw [paragraphRows_blank, ih, List.filter_cons_of_neg (by simp)]
    · rw [paragraphRows_cons hl, List.filter_append, List.filter_cons_of_pos (by simpa using hl),
        List.filter_cons_of_pos (by simpa using hl), ih]
      cases gap <;> rfl

/-- Nothing is blank at the start of the rows, unless a blank row is due. -/
lemma head?_paragraphRows (h : (paragraphRows started gap ls).head? = some [])
    (hstarted : started = false) : gap = true := by
  induction ls generalizing gap with
  | nil => cases h
  | cons l ls ih =>
    by_cases hl : l = []
    · subst hl
      rw [paragraphRows_blank] at h
      exact absurd (ih h) (by simp [hstarted])
    · rw [paragraphRows_cons hl] at h
      cases gap with
      | true => rfl
      | false => exact absurd (Option.some.inj h) hl

/-- The last row is not empty. -/
lemma getLast?_paragraphRows : (paragraphRows started gap ls).getLast? ≠ some [] := by
  induction ls generalizing started gap with
  | nil => nofun
  | cons l ls ih =>
    by_cases hl : l = []
    · subst hl
      exact ih
    · rw [paragraphRows_cons hl, List.getLast?_append, List.getLast?_cons, Option.some_or]
      intro h
      cases hlast : (paragraphRows true false ls).getLast? with
      | none =>
        rw [hlast] at h
        exact hl (Option.some.inj h)
      | some row =>
        rw [hlast] at h
        exact ih (hlast.trans h)

/-- What is written after a row that is not blank begins with at most one blank row. -/
lemma isChain_paragraphRows :
    (paragraphRows started gap ls).IsChain fun row next => row = [] → next ≠ [] := by
  induction ls generalizing started gap with
  | nil => exact .nil
  | cons l ls ih =>
    by_cases hl : l = []
    · subst hl
      exact ih
    · rw [paragraphRows_cons hl]
      have htail : (l :: paragraphRows true false ls).IsChain
          fun row next => row = [] → next ≠ [] :=
        List.isChain_cons.2 ⟨fun _ _ h => absurd h hl, ih⟩
      cases gap with
      | false => exact htail
      | true => exact List.isChain_cons_cons.2 ⟨fun _ => hl, htail⟩

/-- What lines in front leave to be written does not depend on what follows. -/
lemma paragraphRows_append (before : List (List Char)) : ∃ rows started' gap',
    rows.filter (· ≠ []) = before.filter (· ≠ []) ∧
    ∀ after, paragraphRows started gap (before ++ after) =
      rows ++ paragraphRows started' gap' after := by
  induction before generalizing started gap with
  | nil => exact ⟨[], started, gap, rfl, fun _ => rfl⟩
  | cons l before ih =>
    by_cases hl : l = []
    · subst hl
      obtain ⟨rows, started', gap', hrows, happend⟩ := @ih started started
      refine ⟨rows, started', gap', ?_, happend⟩
      rw [hrows, List.filter_cons_of_neg (by simp)]
    · obtain ⟨rows, started', gap', hrows, happend⟩ := @ih true false
      refine ⟨(if gap then [[]] else []) ++ l :: rows, started', gap', ?_, fun after => ?_⟩
      · rw [List.filter_append, List.filter_cons_of_pos (by simpa using hl),
          List.filter_cons_of_pos (by simpa using hl), hrows]
        cases gap <;> rfl
      · rw [List.cons_append, paragraphRows_cons hl, happend, List.append_assoc,
          List.cons_append]

/-- Blank lines after a row make one blank row. -/
lemma paragraphRows_eq_nil {blanks : List (List Char)} (hblanks : ∀ b ∈ blanks, b = []) :
    paragraphRows started gap blanks = [] := by
  induction blanks generalizing gap with
  | nil => rfl
  | cons b blanks ih =>
    obtain ⟨rfl, hrest⟩ := List.forall_mem_cons.1 hblanks
    rw [paragraphRows_blank, ih hrest]

/-- Blank lines at the end are left out. -/
lemma joinParagraphs_append {blanks : List (List Char)} (hblanks : ∀ b ∈ blanks, b = []) :
    joinParagraphs started gap (ls ++ blanks) = joinParagraphs started gap ls := by
  obtain ⟨rows, started', gap', -, happend⟩ := @paragraphRows_append started gap ls
  have hrows := happend []
  rw [List.append_nil, paragraphRows, List.append_nil] at hrows
  rw [joinParagraphs_eq, joinParagraphs_eq, happend, paragraphRows_eq_nil hblanks, hrows,
    List.append_nil]

/-- Empty lines before a row leave one empty row, and only if there was a row before them. -/
lemma paragraphRows_blanks {blanks after : List (List Char)} (hblanks : ∀ b ∈ blanks, b = [])
    (hl : l ≠ []) : paragraphRows true gap (blanks ++ l :: after) =
      (if blanks = [] ∧ gap = false then [] else [[]]) ++ l :: paragraphRows true false after := by
  induction blanks generalizing gap with
  | nil =>
    rw [List.nil_append, paragraphRows_cons hl]
    cases gap <;> rfl
  | cons b blanks ih =>
    obtain ⟨rfl, hrest⟩ := List.forall_mem_cons.1 hblanks
    rw [List.cons_append, paragraphRows_blank, ih hrest, if_neg (by simp), if_neg (by simp)]

/-! ## The content of a group -/

/-- A line that is not blank has text without the blanks at its end. -/
lemma trimEnd_ne_nil {line : List Char} (h : isBlankLine line = false) : Text.trimEnd line ≠ [] :=
  fun heq => Bool.false_ne_true (h.symm.trans (Text.trimEnd_eq_nil_iff.1 heq))

/-- The lines that are kept are those that have text without the blanks at their end. -/
lemma keptLines_eq (lines : List (List Char)) :
    keptLines lines = (lines.map Text.trimEnd).filter (· ≠ []) := by
  rw [keptLines, List.filter_map]
  congr 1
  refine List.filter_congr fun l _ => ?_
  rw [Function.comp_apply, Bool.eq_iff_iff, decide_eq_true_iff, Bool.not_eq_true', isBlankLine,
    ← Bool.not_eq_true, ← Text.trimEnd_eq_nil_iff]

/-- Lines that are trimmed and joined make a text without superfluous blank lines. -/
theorem normalizes_joinParagraphs {lines : List (List Char)} (hlines : ∀ l ∈ lines, '\n' ∉ l) :
    Normalizes lines (joinParagraphs false false (lines.map Text.trimEnd)) := by
  rw [joinParagraphs_eq]
  have hnoBreak : ∀ row ∈ paragraphRows false false (lines.map Text.trimEnd), '\n' ∉ row := by
    intro row hrow
    rcases mem_paragraphRows hrow with rfl | hrow
    · exact List.not_mem_nil
    · obtain ⟨l, hl, rfl⟩ := List.mem_map.1 hrow
      exact fun hmem => hlines l hl ((Text.trimEnd_prefix l).subset hmem)
  -- no row has a line feed within, so the rows can be read off the text
  have hrows : rowsOf ((paragraphRows false false (lines.map Text.trimEnd)).flatMap
      (· ++ ['\n'])) = paragraphRows false false (lines.map Text.trimEnd) := by
    rw [rowsOf, Text.split_flatMap_concat hnoBreak, List.dropLast_concat]
  constructor <;> try rw [hrows]
  case ends =>
    rcases List.eq_nil_or_concat (paragraphRows false false (lines.map Text.trimEnd)) with
      hnil | ⟨rows, row, hconcat⟩
    · exact .inl (by rw [hnil, List.flatMap_nil])
    · right
      rw [hconcat, List.concat_eq_append, List.flatMap_append, List.flatMap_singleton,
        ← List.append_assoc, List.getLast?_concat]
  case kept => rw [filter_paragraphRows, keptLines_eq]
  case trimmed =>
    intro row hrow
    rcases mem_paragraphRows hrow with rfl | hrow
    · nofun
    · obtain ⟨l, -, rfl⟩ := List.mem_map.1 hrow
      exact Text.not_isBlank_getLast?_trimEnd l
  case first => exact fun h => Bool.false_ne_true (head?_paragraphRows h rfl)
  case last => exact getLast?_paragraphRows
  case single => exact isChain_paragraphRows
  case gaps =>
    rintro before a blanks b after rfl ha hb hblanks
    -- the lines before have rows of their own, and a gap that they leave open is an empty row more
    obtain ⟨rows, started, gap, hbefore, happend⟩ :=
      @paragraphRows_append false false (before.map Text.trimEnd)
    have hblanks : ∀ l ∈ blanks.map Text.trimEnd, l = [] := by
      intro l hl
      obtain ⟨m, hm, rfl⟩ := List.mem_map.1 hl
      exact Text.trimEnd_eq_nil_iff.2 (hblanks m hm)
    refine ⟨rows ++ if gap then [[]] else [], if blanks = [] then [] else [[]],
      paragraphRows true false (after.map Text.trimEnd), ?_, ?_, ?_, rfl⟩
    · rw [List.map_append, List.map_cons, List.map_append, List.map_cons, happend,
        paragraphRows_cons (trimEnd_ne_nil ha), paragraphRows_blanks hblanks (trimEnd_ne_nil hb),
        List.append_assoc]
      simp only [List.map_eq_nil_iff, and_true]
    · rw [List.filter_append, hbefore, keptLines_eq]
      cases gap <;> exact List.append_nil _
    · rw [filter_paragraphRows, keptLines_eq]

/-- What is said has no line feeds within. -/
lemma notMem_of_said {kind : CommentKind} {text : List Char} {lines : List (List Char)}
    (h : Says kind text lines) : ∀ l ∈ lines, '\n' ∉ l := by
  cases h with
  | directive => exact List.forall_mem_nil _
  | spaced hline | unspaced hline => exact List.forall_mem_singleton.2 hline
  | closed _ hlines | unclosed _ hlines => exact hlines

/-- What a comment says is settled by how it is written. -/
lemma said_of_mem_comments {src : List Char} {c : Comment} (hc : c ∈ (findings src).comments) :
    Says c.kind c.text.toList c.contentLines := by
  obtain ⟨lines, hlines⟩ :=
    exists_said_of_isMarked (isMarked_of_mem_itemsFrom (mem_items_of_mem_comments hc))
  exact contentLines_eq_of_said hlines ▸ hlines

/-- In a source of less than 4 GiB the comments of a group are pieces of the source, and the content
of the group is what they say, one line after the other, without white space at the ends of lines
and without superfluous blank lines. What comments say is settled by how they are written. -/
theorem content_normalizes (source : String) (hsrc : byteSize source.toList ≤ Span.maxOffset)
    (g : CommentGroup) (hg : g ∈ (parse source).file.file.comments) :
    (∀ c ∈ g.comments, c.span.Cuts source.toList c.text.toList) ∧
    ∃ said : List (List (List Char)),
      (∀ said', List.Forall₂ (fun (c : Comment) => Says c.kind c.text.toList) g.comments said' ↔
        said' = said) ∧
      Normalizes said.flatten g.content.toList := by
  have hfound (c : Comment) (hc : c ∈ g.comments) : c ∈ (findings source.toList).comments := by
    rw [← lex_eq_findings hsrc]
    exact mem_comments_of_mem_group hg hc
  have htold (c : Comment) (hc : c ∈ g.comments) : Says c.kind c.text.toList c.contentLines :=
    said_of_mem_comments (hfound c hc)
  refine ⟨fun c hc => cuts_of_mem_comments (hfound c hc), g.comments.map Comment.contentLines,
    fun said => ⟨fun hsaid => ?_, ?_⟩, ?_⟩
  · have hmap := map_eq_of_forall₂ (g := id)
      (hsaid.imp fun c lines h => (contentLines_eq_of_said h).symm)
    rwa [List.map_id] at hmap
  · rintro rfl
    exact List.forall₂_map_right_iff.2 (List.forall₂_same.2 htold)
  · rw [CommentGroup.content, String.toList_ofList, List.flatMap_def]
    refine normalizes_joinParagraphs fun l hl => ?_
    obtain ⟨c, hc, hl⟩ := List.mem_flatMap.1 (List.flatMap_def ▸ hl)
    exact notMem_of_said (htold c hc) l hl

namespace Notice

/-- A package whose documentation has both forms of comments, a directive among them and blank lines
in front, between and on either side of the directive. -/
def source : String :=
  "//\n// Greets.  \n//\n//go:build x\n//\n/* Twice,\n\n if asked. */\npackage p\n"

/-- The text of a comment is put in its normal form. -/
theorem notice_normalizes : byteSize source.toList ≤ Span.maxOffset ∧
    ∃ g ∈ (parse source).file.file.comments,
      g.content = "Greets.\n\n Twice,\n\n if asked.\n" ∧
      ∃ said : List (List (List Char)),
        (∀ said', List.Forall₂ (fun (c : Comment) => Says c.kind c.text.toList) g.comments said' ↔
          said' = said) ∧
        Normalizes said.flatten g.content.toList := by
  have hsize : byteSize source.toList ≤ Span.maxOffset := by decide +kernel
  obtain ⟨g, hg, hcontent⟩ : ∃ g ∈ (parse source).file.file.comments,
      g.content = "Greets.\n\n Twice,\n\n if asked.\n" := by decide +kernel
  exact ⟨hsize, g, hg, hcontent, (content_normalizes source hsize g hg).2⟩

end Notice

namespace Distant

/-- The comment behind 4 GiB of blanks says a line, which is not in the content of its group. -/
theorem content_lost : (findings source.toList).comments = [comment] ∧
    Says comment.kind comment.text.toList ["doc".toList] ∧
    (parse source).isClean = true ∧ (parse source).file.file.comments = [group] ∧
    group.content = "" ∧ ¬ Normalizes ["doc".toList] group.content.toList := by
  have hfound : (findings source.toList).comments = [comment] := by
    rw [toList_source, findings_chars]
  have hsays := said_of_mem_comments (hfound ▸ List.mem_singleton_self comment)
  have hcontent : group.content = "" := by decide
  refine ⟨hfound, hsays, isClean_source, by rw [file_source], hcontent, fun h => ?_⟩
  have hkept := h.kept
  rw [hcontent] at hkept
  exact absurd hkept (by decide)

end Distant

end GoService.Source
