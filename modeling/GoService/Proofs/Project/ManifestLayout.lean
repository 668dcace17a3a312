import GoService.Proofs.Project.ManifestTokens
import GoService.Proofs.Text.Lines

/-!
# The layout of manifests

Directives of one verb stand alone, each on a line, or together in a block. Where no block is open
both forms say the same, whatever stands before and after them: the same manifest, or the same
error, which may belong to another line (`layout_irrelevant`). Inside the block there may be lines
without tokens and indentation, and in either form arguments may be put in quotes.
-/

namespace GoService.Project

open Text (isBlank)

/-! ## Two layouts -/

/-- The verbs of the directives that come in any number. -/
def listVerbs : List String :=
  ["require", "replace", "exclude", "retract", "godebug", "tool", "ignore"]

/-- The line has the arguments of a directive: at least one, and no parenthesis. -/
structure HasArguments (line : List Char) (args : List String) (comment : Option String) :
    Prop where
  read : readTokens line = .ok ⟨args, comment⟩
  ne_nil : args ≠ []
  noParens : "(" ∉ args ∧ ")" ∉ args

/-- A line without tokens: white space, and perhaps a comment. -/
inductive Vacant : List Char → Prop
  | blank (h : ∀ c ∈ row, isBlank c) : Vacant row
  | comment (h : ∀ c ∈ indent, isBlank c) : Vacant (indent ++ '/' :: '/' :: text)

/-- The rows stand in a block for some lines of arguments, with other rows between them. -/
inductive Inside : List (List Char) → List (List Char) → Prop
  | nil : Inside [] []
  | vacant (hrow : Vacant row) (h : Inside lines rows) : Inside lines (row :: rows)
  | line (hindent : ∀ c ∈ indent, isBlank c) (hline : Respelled line line')
      (h : Inside lines rows) : Inside (line :: lines) ((indent ++ line') :: rows)

/-- Directives on lines of their own. -/
def directiveRows (verb : String) (lines : List (List Char)) : List (List Char) :=
  lines.map fun line => verb.toList ++ ' ' :: line

/-- A block of directives. -/
def blockRows (verb : String) (rows : List (List Char)) : List (List Char) :=
  (verb.toList ++ [' ', '(']) :: (rows ++ [[')']])

/-- Whether a block is open after a line: a verb with a parenthesis opens one, a parenthesis by
itself closes it. -/
def isOpenAfter (isOpen : Bool) (line : List Char) : Bool :=
  match readTokens line with
  | .ok ⟨[_, "("], _⟩ => true
  | .ok ⟨[")"], _⟩ => false
  | _ => isOpen

/-- Every block that is opened on the lines is closed. -/
def BlocksClosed (lines : List (List Char)) : Prop :=
  lines.foldl isOpenAfter false = false

/-- The outcomes are the same, but for the line to which an error belongs. -/
inductive SameOutcome : Except ManifestError Manifest → Except ManifestError Manifest → Prop
  | manifest : SameOutcome (.ok m) (.ok m)
  | malformed : SameOutcome (.error (.malformed path i fault)) (.error (.malformed path j fault))
  | emptyModule : SameOutcome (.error (.emptyModule path)) (.error (.emptyModule path))

/-- The same for reading lines. -/
inductive SameRun : Except (Nat × ManifestFault) Draft → Except (Nat × ManifestFault) Draft → Prop
  | draft : SameRun (.ok d) (.ok d)
  | fault : SameRun (.error (i, fault)) (.error (j, fault))

instance (lines : List (List Char)) : Decidable (BlocksClosed lines) :=
  inferInstanceAs (Decidable (_ = _))

/-! ## Directives -/

section

variable {args args' : List String}

/-- Arguments that are spelled in two ways come to a mark at the same place. -/
lemma forall₂_takeWhile {m : String} (hm : m ∈ markTokens)
    (h : List.Forall₂ SameArgument args args') :
    List.Forall₂ SameArgument (args.takeWhile (· != m)) (args'.takeWhile (· != m)) ∧
    List.Forall₂ SameArgument (args.dropWhile (· != m)) (args'.dropWhile (· != m)) := by
  induction h with
  | nil => exact ⟨.nil, .nil⟩
  | @cons a b args args' hab h ih =>
    have hsame := hab.mark m hm
    by_cases ha : a = m
    · have hb := hsame.1 ha
      simp only [List.takeWhile_cons, List.dropWhile_cons, ha, hb, bne_self_eq_false,
        Bool.false_eq_true, if_false]
      exact ⟨.nil, .cons (.refl m) h⟩
    · have hb := mt hsame.2 ha
      simp only [List.takeWhile_cons, List.dropWhile_cons, bne_iff_ne.2 ha, bne_iff_ne.2 hb,
        if_true]
      exact ⟨.cons hab ih.1, ih.2⟩

/-- A mark is among arguments however these are spelled. -/
lemma mem_mark_congr {m : String} (hm : m ∈ markTokens) (h : List.Forall₂ SameArgument args args') :
    m ∈ args ↔ m ∈ args' := by
  induction h with
  | nil => exact .rfl
  | cons hab h ih => rw [List.mem_cons, List.mem_cons, ih, eq_comm, hab.mark m hm, eq_comm]

namespace Draft

/-- The module that is replaced does not depend on the spelling. -/
lemma replacedModule_congr (h : List.Forall₂ SameArgument args args') :
    replacedModule args = replacedModule args' := by
  match h with
  | .nil => rfl
  | .cons ha .nil => simp only [replacedModule, ha.value]
  | .cons ha (.cons hb .nil) => simp only [replacedModule, ha.value, hb.value]
  | .cons _ (.cons _ (.cons _ _)) => rfl

/-- The replacement does not depend on the spelling. -/
lemma replacementOf_congr (h : List.Forall₂ SameArgument args args') :
    replacementOf args = replacementOf args' := by
  match h with
  | .nil => rfl
  | .cons ha .nil => simp only [replacementOf, ha.value]
  | .cons ha (.cons hb .nil) => simp only [replacementOf, ha.value, hb.value]
  | .cons _ (.cons _ (.cons _ _)) => rfl

/-- The directive does not depend on the spelling. -/
lemma replaceOf_congr (h : List.Forall₂ SameArgument args args') :
    replaceOf args = replaceOf args' := by
  have harrow : "=>" ∈ markTokens := by decide
  obtain ⟨htake, hdrop⟩ := forall₂_takeWhile harrow h
  have hcontains : args.contains "=>" = args'.contains "=>" := by
    rw [Bool.eq_iff_iff, List.contains_iff_mem, List.contains_iff_mem, mem_mark_congr harrow h]
  rw [replaceOf, replaceOf, hcontains, replacedModule_congr htake,
    replacementOf_congr (List.forall₂_drop 1 hdrop)]

/-- A directive means the same with arguments that stand for the same. -/
lemma apply_congr (d : Draft) (verb : String) (comment : Option String)
    (h : List.Forall₂ SameArgument args args') :
    d.apply verb args comment = d.apply verb args' comment := by
  have hreplace := replaceOf_congr h
  match h with
  | .nil => rfl
  | .cons ha .nil => simp only [apply, ha.value, hreplace]
  | .cons ha (.cons hb .nil) => simp only [apply, ha.value, hb.value, hreplace]
  | .cons _ (.cons _ (.cons _ _)) => simp only [apply, hreplace]

end Draft

end

/-! ## Rows -/

section

variable {verb : String} {line line' row : List Char} {args : List String}
  {comment : Option String}

/-- White space in front of a line does not matter to its tokens. -/
lemma readTokens_indent {indent : List Char} (h : ∀ c ∈ indent, isBlank c) (line : List Char) :
    readTokens (indent ++ line) = readTokens line := by
  induction indent with
  | nil => rfl
  | cons c indent ih =>
    obtain ⟨hc, hindent⟩ := List.forall_mem_cons.1 h
    rw [List.cons_append, readTokens_cons, if_pos hc, ih hindent]

/-- A vacant row has no tokens. -/
lemma readTokens_vacant (h : Vacant row) : ∃ comment, readTokens row = .ok ⟨[], comment⟩ := by
  cases h with
  | blank h =>
    have hread := readTokens_indent h []
    rw [List.append_nil, readTokens_nil] at hread
    exact ⟨none, hread⟩
  | @comment indent text h =>
    rw [readTokens_indent h, readTokens_cons, if_neg (by decide), if_pos ⟨rfl, rfl⟩]
    exact ⟨_, rfl⟩

/-- A character that means nothing but itself wherever it stands in a token. -/
def isWordChar (c : Char) : Bool :=
  !(isBlank c || "()/=\"\x60".toList.contains c)

/-- A character of a word does not end a token. -/
lemma of_isWordChar {c : Char} (h : isWordChar c) : isBlank c = false ∧
    c ≠ '(' ∧ c ≠ ')' ∧ c ≠ '/' ∧ c ≠ '=' ∧ c ≠ '"' ∧ c ≠ '\x60' := by
  simpa [isWordChar] using h

/-- A word goes on to the blank behind it. -/
lemma runsTo_word {word : List Char} (h : word.all isWordChar) (rest : List Char) :
    RunsTo word (' ' :: rest) := by
  induction word with
  | nil => exact .nil (.blank rfl)
  | cons c word ih =>
    rw [List.all_cons, Bool.and_eq_true] at h
    obtain ⟨hc, hword⟩ := h
    exact .cons (not_endsBare_cons_iff.2 (by simp [of_isWordChar hc])) (ih hword)

/-- A word is a token before white space. -/
lemma taken_word {word : List Char} (hne : word ≠ []) (h : word.all isWordChar)
    (rest : List Char) : Taken word (' ' :: rest) := by
  have hrun := runsTo_word h rest
  obtain ⟨c, cs, rfl⟩ := List.exists_cons_of_ne_nil hne
  rw [List.all_cons, Bool.and_eq_true] at h
  exact taken_of_isToken (.bare (by simp [of_isWordChar h.1]) hrun)

/-- The verbs of lists are words. -/
lemma isWord_of_mem_listVerbs : ∀ verb ∈ listVerbs,
    verb.toList ≠ [] ∧ verb.toList.all isWordChar = true := by
  decide

/-- The verb is a token of its own. -/
lemma readTokens_verb (hverb : verb ∈ listVerbs) (hline : readTokens line = .ok ⟨args, comment⟩) :
    readTokens (verb.toList ++ ' ' :: line) = .ok ⟨verb :: args, comment⟩ := by
  obtain ⟨hne, hword⟩ := isWord_of_mem_listVerbs verb hverb
  rw [readTokens_of_taken (taken_word hne hword line), readTokens_cons, if_pos (by decide), hline,
    String.ofList_toList]

/-- A verb with an opening parenthesis opens a block. -/
lemma readTokens_opening (hverb : verb ∈ listVerbs) :
    readTokens (verb.toList ++ [' ', '(']) = .ok ⟨[verb, "("], none⟩ :=
  readTokens_verb hverb (by decide +kernel)

/-- A closing parenthesis is a line of its own. -/
lemma readTokens_closing : readTokens [')'] = .ok ⟨[")"], none⟩ := by
  decide +kernel

/-- A line that is spelled in another way has the same arguments. -/
lemma HasArguments.respelled (h : HasArguments line args comment) (hline : Respelled line line') :
    ∃ args', HasArguments line' args' comment ∧ List.Forall₂ SameArgument args args' := by
  obtain ⟨args', hread, hsame⟩ := readTokens_respelled hline h.read
  refine ⟨args', ⟨hread, ?_, ?_⟩, hsame⟩
  · rintro rfl
    cases hsame
    exact h.ne_nil rfl
  · rw [← mem_mark_congr (by decide) hsame, ← mem_mark_congr (by decide) hsame]
    exact h.noParens

end

/-! ## Lines -/

namespace Draft

/-- What the tokens of a line are where a block is open, or none. -/
inductive Kind : Option (String × Nat) → List String → Prop
  | vacant : Kind block []
  | opening : Kind none [verb, "("]
  | emptyBlock : Kind none [verb, "(", ")"]
  | closing : Kind (some (verb, start)) [")"]
  | outside (hopen : args ≠ ["("]) (hempty : args ≠ ["(", ")"]) : Kind none (verb :: args)
  | inside (hne : args ≠ []) (hclose : args ≠ [")"]) : Kind (some (verb, start)) args

/-- The outcomes of a line are the same, but for the line on which a block opens. -/
inductive SameStep : Except ManifestFault (Draft × Option (String × Nat)) →
    Except ManifestFault (Draft × Option (String × Nat)) → Prop
  | error : SameStep (.error e) (.error e)
  | ok (h : block.map Prod.fst = block'.map Prod.fst) :
      SameStep (.ok (d, block)) (.ok (d, block'))

/-- Every line is of one of the kinds. -/
lemma kind_of_line (block : Option (String × Nat)) (tokens : List String) : Kind block tokens := by
  match block, tokens with
  | _, [] => exact .vacant
  | some (verb, start), a :: args =>
    by_cases hclose : a :: args = [")"]
    · exact hclose ▸ .closing
    · exact .inside (List.cons_ne_nil _ _) hclose
  | none, verb :: args =>
    by_cases hopen : args = ["("]
    · exact hopen ▸ .opening
    by_cases hempty : args = ["(", ")"]
    · exact hempty ▸ .emptyBlock
    · exact .outside hopen hempty

section

variable {d d' : Draft} {block block' : Option (String × Nat)} {verb : String} {n m start : Nat}
  {line : List Char} {lines : List (List Char)} {args : List String} {comment : Option String}

/-! ### One line -/

/-- A line without tokens changes nothing. -/
lemma line_vacant : d.line block n ⟨[], comment⟩ = .ok (d, block) := by
  cases block <;> rfl

/-- A verb with an opening parenthesis begins a block. -/
lemma line_opening : d.line none n ⟨[verb, "("], comment⟩ = .ok (d, some (verb, n)) := by
  simp [Draft.line]

/-- A block that is closed in its line leaves none open. -/
lemma line_emptyBlock : d.line none n ⟨[verb, "(", ")"], comment⟩ = .ok (d, none) := by
  simp [Draft.line]

/-- A closing parenthesis ends the block. -/
lemma line_closing : d.line (some (verb, start)) n ⟨[")"], comment⟩ = .ok (d, none) :=
  rfl

/-- A line outside a block is a directive of its own. -/
lemma line_outside (hopen : args ≠ ["("]) (hempty : args ≠ ["(", ")"]) :
    d.line none n ⟨verb :: args, comment⟩ = (d.apply verb args comment).map (·, none) := by
  rw [Draft.line.eq_def]
  split
  · next h => cases h
  · next hblock _ => cases hblock
  · next hblock _ _ => cases hblock
  · next h => exact absurd (List.cons.inj h).2 hopen
  · next h => exact absurd (List.cons.inj h).2 hempty
  · next h =>
    cases h
    cases d.apply verb args comment <;> rfl

/-- A line inside a block is a directive with the verb of the block. -/
lemma line_inside (hargs : args ≠ []) (hparen : args ≠ [")"]) :
    d.line (some (verb, start)) n ⟨args, comment⟩ =
      (d.apply verb args comment).map (·, some (verb, start)) := by
  rw [Draft.line.eq_def]
  split
  · next h => exact absurd h hargs
  · next h => exact absurd h hparen
  · next hblock _ _ =>
    cases hblock
    cases d.apply verb args comment <;> rfl
  · next h _ => cases h
  · next h _ => cases h
  · next h _ => cases h

/-- Steps that give the same draft are the same if the blocks have one verb. -/
lemma SameStep.map {r : Except ManifestFault Draft} (h : block.map Prod.fst = block'.map Prod.fst) :
    SameStep (r.map (·, block)) (r.map (·, block')) := by
  cases r with
  | error => exact .error
  | ok => exact .ok h

/-- The number of a line, and that of the line where a block opens, do not matter for a line. -/
lemma line_congr (h : block.map Prod.fst = block'.map Prod.fst) (l : ManifestLine) :
    SameStep (d.line block n l) (d.line block' m l) := by
  obtain ⟨tokens, comment⟩ := l
  cases kind_of_line block tokens with
  | vacant =>
    rw [line_vacant, line_vacant]
    exact .ok h
  | opening =>
    obtain rfl := Option.map_eq_none_iff.1 h.symm
    rw [line_opening, line_opening]
    exact .ok rfl
  | emptyBlock =>
    obtain rfl := Option.map_eq_none_iff.1 h.symm
    rw [line_emptyBlock, line_emptyBlock]
    exact .ok rfl
  | closing =>
    obtain ⟨b, rfl, -⟩ := Option.map_eq_some_iff.1 h.symm
    exact .ok rfl
  | outside hopen hempty =>
    obtain rfl := Option.map_eq_none_iff.1 h.symm
    rw [line_outside hopen hempty, line_outside hopen hempty]
    exact .map rfl
  | inside hne hclose =>
    obtain ⟨⟨verb, start⟩, rfl, rfl⟩ := Option.map_eq_some_iff.1 h.symm
    rw [line_inside hne hclose, line_inside hne hclose]
    exact .map rfl

/-- A directive leaves the block as it is. -/
lemma eq_of_map_eq_ok {r : Except ManifestFault Draft}
    (h : r.map (·, block) = .ok (d', block')) : block' = block := by
  cases r with
  | error => cases h
  | ok => exact (Prod.mk.inj (Except.ok.inj h)).2.symm

/-- Whether a block is open is seen on the lines. -/
lemma isSome_of_line {l : ManifestLine} (hread : readTokens line = .ok l)
    (h : d.line block n l = .ok (d', block')) : block'.isSome = isOpenAfter block.isSome line := by
  obtain ⟨tokens, comment⟩ := l
  rw [isOpenAfter, hread]
  -- only what opens and what closes a block changes whether one is open
  cases kind_of_line block tokens with
  | vacant =>
    rw [line_vacant] at h
    cases h
    rfl
  | opening =>
    rw [line_opening] at h
    cases h
    rfl
  | emptyBlock =>
    rw [line_emptyBlock] at h
    cases h
    rfl
  | closing =>
    cases h
    rfl
  | outside hopen hempty =>
    rw [line_outside hopen hempty] at h
    rw [eq_of_map_eq_ok h]
    split
    · next heq =>
      cases heq
      exact absurd rfl hopen
    · rfl
    · rfl
  | inside hne hclose =>
    rw [line_inside hne hclose] at h
    rw [eq_of_map_eq_ok h]
    split
    · rfl
    · next heq =>
      cases heq
      exact absurd rfl hclose
    · rfl

/-- A line of arguments is a directive, in a block and behind a verb. -/
lemma step_inside (h : HasArguments line args comment) :
    (readTokens line).bind (d.line (some (verb, start)) n) =
      (d.apply verb args comment).map (·, some (verb, start)) := by
  have hclose : args ≠ [")"] := by
    rintro rfl
    exact h.noParens.2 List.mem_cons_self
  rw [h.read]
  exact line_inside h.ne_nil hclose

/-- A directive of its own is applied with the arguments of its line. -/
lemma step_outside (hverb : verb ∈ listVerbs) (h : HasArguments line args comment) :
    (readTokens (verb.toList ++ ' ' :: line)).bind (d.line none n) =
      (d.apply verb args comment).map (·, none) := by
  have hopen : args ≠ ["("] := by
    rintro rfl
    exact h.noParens.1 List.mem_cons_self
  have hempty : args ≠ ["(", ")"] := by
    rintro rfl
    exact h.noParens.1 List.mem_cons_self
  rw [readTokens_verb hverb h.read]
  exact line_outside hopen hempty

/-! ### All lines -/

/-- Lines are gone through one after another, up to the first fault. -/
lemma lines_cons : d.lines block n (line :: lines) =
    match (readTokens line).bind (d.line block n) with
    | .error fault => .error (n, fault)
    | .ok (d, block) => d.lines block (n + 1) lines :=
  rfl

/-- The numbers of lines only matter for errors. -/
lemma lines_congr (h : block.map Prod.fst = block'.map Prod.fst) (lines : List (List Char)) :
    SameRun (d.lines block n lines) (d.lines block' m lines) := by
  induction lines generalizing d block block' n m with
  | nil =>
    match block, block', h with
    | none, none, _ => exact .draft
    | some (verb, _), some (_, _), h =>
      cases Option.some.inj h
      exact .fault
  | cons line lines ih =>
    rw [lines_cons, lines_cons]
    cases readTokens line with
    | error => exact .fault
    | ok l =>
      have hline := @line_congr d block block' n m h l
      dsimp only [Except.bind]
      revert hline
      generalize d.line block n l = left
      generalize d.line block' m l = right
      intro hline
      cases hline with
      | error => exact .fault
      | ok hblock => exact ih hblock

/-- Directives on lines of their own and the same directives in a block, read to their end. -/
lemma lines_layout (hverb : verb ∈ listVerbs) {single rows : List (List Char)}
    (hlines : ∀ line ∈ lines, ∃ args comment, HasArguments line args comment)
    (hsingle : List.Forall₂ Respelled lines single) (hrows : Inside lines rows)
    (after : List (List Char)) :
    SameRun (d.lines none n (directiveRows verb single ++ after))
      (d.lines (some (verb, start)) m (rows ++ [')'] :: after)) := by
  induction hrows generalizing d n m single with
  | nil =>
    -- the block closes here, and its lines have shifted those behind it
    cases hsingle
    rw [List.nil_append, lines_cons, readTokens_closing]
    dsimp only [Except.bind]
    rw [line_closing]
    exact lines_congr rfl after
  | vacant hrow h ih =>
    obtain ⟨comment, hread⟩ := readTokens_vacant hrow
    rw [List.cons_append, lines_cons, hread]
    dsimp only [Except.bind]
    rw [line_vacant]
    exact ih hlines hsingle
  | @line _ line line' lines rows hindent hline h ih =>
    obtain ⟨⟨args, comment, hargs⟩, hlines⟩ := List.forall_mem_cons.1 hlines
    cases hsingle with
    | @cons _ alone _ single halone hsingle =>
      obtain ⟨args₁, hargs₁, hsame₁⟩ := hargs.respelled halone
      obtain ⟨args₂, hargs₂, hsame₂⟩ := hargs.respelled hline
      rw [directiveRows, List.map_cons, ← directiveRows, List.cons_append, List.cons_append,
        lines_cons, lines_cons, step_outside hverb hargs₁, readTokens_indent hindent,
        step_inside hargs₂, ← apply_congr d verb comment hsame₁,
        ← apply_congr d verb comment hsame₂]
      cases d.apply verb args comment with
      | error => exact .fault
      | ok d' => exact ih hlines hsingle

/-- After lines that close their blocks no block is open, if they can be read. -/
lemma lines_append (before : List (List Char))
    (h : before.foldl isOpenAfter block.isSome = false) :
    (∃ fault, ∀ after, d.lines block n (before ++ after) = .error fault) ∨
    ∃ (d' : Draft) (m : Nat), ∀ after,
      d.lines block n (before ++ after) = d'.lines none m after := by
  induction before generalizing d block n with
  | nil =>
    obtain rfl : block = none := by simpa using h
    exact .inr ⟨d, n, fun _ => rfl⟩
  | cons line before ih =>
    simp only [List.cons_append, lines_cons]
    cases hread : readTokens line with
    | error fault => exact .inl ⟨(n, fault), fun _ => rfl⟩
    | ok l =>
      dsimp only [Except.bind]
      cases hline : d.line block n l with
      | error fault => exact .inl ⟨(n, fault), fun _ => rfl⟩
      | ok next =>
        rw [List.foldl_cons, ← isSome_of_line hread hline] at h
        exact ih h

end

end Draft

/-! ## Manifests -/

/-- The outcomes are the same if the runs over the lines are. -/
lemma sameOutcome_of_sameRun {a b : String}
    (h : SameRun (Draft.empty.lines none 1 (Text.lines a.toList))
      (Draft.empty.lines none 1 (Text.lines b.toList))) (path : FilePath) :
    SameOutcome (Manifest.parse a path) (Manifest.parse b path) := by
  rw [Manifest.parse, Manifest.parse]
  revert h
  generalize Draft.empty.lines none 1 (Text.lines a.toList) = left
  generalize Draft.empty.lines none 1 (Text.lines b.toList) = right
  intro h
  cases h with
  | fault => exact .malformed
  | @draft d =>
    show SameOutcome (d.manifest path) (d.manifest path)
    rw [Draft.manifest]
    split
    · exact .emptyModule
    · exact .manifest

/-- Where no block is open, directives of one verb mean the same on lines of their own and in a
block, with lines without tokens and indentation in the block, with either end of lines, and with
bare arguments in quotes. The manifest is the same; if there is none, the error is the same, but for
its line. In an open block neither would be directives of this verb: there every line has arguments
of the verb of the block. -/
theorem layout_irrelevant {verb : String} (hverb : verb ∈ listVerbs)
    {lines single rows before after : List (List Char)} (hbefore : BlocksClosed before)
    (hlines : ∀ line ∈ lines, ∃ args comment, HasArguments line args comment)
    (hsingle : List.Forall₂ Respelled lines single) (hrows : Inside lines rows) {a b : String}
    (ha : Text.HasLines (before ++ directiveRows verb single ++ after) a.toList)
    (hb : Text.HasLines (before ++ blockRows verb rows ++ after) b.toList) (path : FilePath) :
    SameOutcome (Manifest.parse a path) (Manifest.parse b path) := by
  refine sameOutcome_of_sameRun ?_ path
  rw [ha.lines_eq, hb.lines_eq, List.append_assoc, List.append_assoc]
  have hafter := @Draft.lines_append .empty none 1 before hbefore
  rcases hafter with ⟨fault, herror⟩ | ⟨d, n, hread⟩
  · rw [herror, herror]
    exact .fault
  · rw [hread, hread]
    have hblock : d.lines none n (blockRows verb rows ++ after) =
        d.lines (some (verb, n)) (n + 1) (rows ++ [')'] :: after) := by
      rw [blockRows, List.cons_append, Draft.lines_cons, readTokens_opening hverb,
        List.append_assoc]
      dsimp only [Except.bind]
      rw [Draft.line_opening]
      rfl
    rw [hblock]
    exact Draft.lines_layout hverb hlines hsingle hrows after

namespace Twins

/-- A name, and a block with a requirement. -/
def before : List (List Char) :=
  ["module m".toList, "require (".toList, "\tx v1".toList, [')'], []]

/-- The version of a requirement with a comment behind it. -/
def version : List Char :=
  "v1.0.0".toList ++ ' ' :: "// indirect".toList

/-- The arguments of two requirements, one of them with a comment. -/
def lines : List (List Char) :=
  ["a.b".toList ++ ' ' :: version, "c".toList ++ ' ' :: "v2".toList]

/-- The first name in quotes. -/
def single : List (List Char) :=
  ['\x60' :: ("a.b".toList ++ '\x60' :: ' ' :: version), "c".toList ++ ' ' :: "v2".toList]

/-- An empty line, indentation, a comment, and a version and a name in quotes. -/
def rows : List (List Char) :=
  [[], "\t".toList ++ ("a.b".toList ++ ' ' :: '"' :: ("v1.0.0".toList ++ '"' :: ' ' ::
      "// indirect".toList)),
    " ".toList ++ '/' :: '/' :: " more".toList,
    [] ++ '"' :: ("c".toList ++ '"' :: ' ' :: "v2".toList)]

/-- A manifest with directives on lines of their own. -/
def alone : String :=
  "module m\nrequire (\n\tx v1\n)\n\nrequire \x60a.b\x60 v1.0.0 // indirect\nrequire c v2\n" ++
    "replace c => ./c\n"

/-- The same manifest with a block and with other white space. -/
def inBlock : String :=
  "module m\r\nrequire (\r\n\tx v1\r\n)\r\n\r\nrequire (\r\n\r\n\ta.b \"v1.0.0\" // indirect\r\n" ++
    " // more\r\n\"c\" v2\r\n)\r\nreplace c => ./c"

/-- The lines have arguments. -/
lemma hasArguments_lines :
    ∀ line ∈ lines, ∃ args comment, HasArguments line args comment := by
  refine List.forall_mem_cons.2 ⟨⟨["a.b", "v1.0.0"], some "indirect", ?_⟩,
    List.forall_mem_singleton.2 ⟨["c", "v2"], none, ?_⟩⟩
  · exact ⟨by decide +kernel, by decide, by decide⟩
  · exact ⟨by decide +kernel, by decide, by decide⟩

/-- The name ends before the blank. -/
lemma taken_name (rest : List Char) : Taken "a.b".toList (' ' :: rest) :=
  taken_word (by decide) (by decide) rest

/-- The name can be written in quotes. -/
lemma isQuotable_name : IsQuotable "a.b".toList :=
  by decide +kernel

/-- Each line is spelled in two ways. -/
lemma respelled_single : List.Forall₂ Respelled lines single :=
  .cons (.quoted (taken_name _) isQuotable_name (.inr rfl) .same) (.cons .same .nil)

/-- The rows are the lines inside a block. -/
lemma inside_rows : Inside lines rows := by
  have hversion : Taken "v1.0.0".toList (' ' :: "// indirect".toList) :=
    taken_word (by decide) (by decide) _
  have hc : Taken "c".toList (' ' :: "v2".toList) := taken_word (by decide) (by decide) _
  refine .vacant (.blank (List.forall_mem_nil _)) (.line (List.all_eq_true.1 (by decide)) ?_
    (.vacant (.comment (List.all_eq_true.1 (by decide))) (.line (List.forall_mem_nil _) ?_ .nil)))
  · exact .kept (taken_name _) (.blank rfl
      (.quoted hversion (by decide +kernel) (.inl rfl) .same))
  · exact .quoted hc (by decide +kernel) (.inl rfl) .same

/-- The two manifests say the same. -/
theorem twins_agree : "require" ∈ listVerbs ∧ BlocksClosed before ∧
    (∀ line ∈ lines, ∃ args comment, HasArguments line args comment) ∧
    List.Forall₂ Respelled lines single ∧ Inside lines rows ∧
    Text.HasLines (before ++ directiveRows "require" single ++ ["replace c => ./c".toList])
      alone.toList ∧
    Text.HasLines (before ++ blockRows "require" rows ++ ["replace c => ./c".toList])
      inBlock.toList ∧
    ∀ path, SameOutcome (Manifest.parse alone path) (Manifest.parse inBlock path) := by
  have hverb : "require" ∈ listVerbs := by decide
  have hbefore : BlocksClosed before := by decide +kernel
  have halone : Text.HasLines (before ++ directiveRows "require" single ++
      ["replace c => ./c".toList]) alone.toList := by decide +kernel
  have hinBlock : Text.HasLines (before ++ blockRows "require" rows ++
      ["replace c => ./c".toList]) inBlock.toList := by decide +kernel
  exact ⟨hverb, hbefore, hasArguments_lines, respelled_single, inside_rows, halone, hinBlock,
    layout_irrelevant hverb hbefore hasArguments_lines respelled_single inside_rows halone hinBlock⟩

end Twins

end GoService.Project
