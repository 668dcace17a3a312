import GoService.Proofs.Source.Moved
import GoService.Source.Parser.File
import Mathlib.Data.List.GetD

/-!
# Reading a text with carriage returns

The byte at an offset of a text stands further on by the number of line feeds before it when the
text has carriage returns (`returnedOffset`). As long as that text has less than 4 GiB, its line and
column are what they were (`positionOf_returned`), and the lexer finds the same tokens, comments and
faults, each of them moved (`lex_withReturns`).
-/

namespace GoService.Source

open LineTable (lineCount)

/-- Where the byte at an offset of a text stands in the text with carriage returns. -/
def returnedOffset (src : List Char) (offset : Nat) : Nat :=
  offset + (lineCount src offset - 1)

section

variable {src : List Char}

/-- The end of a part of the source is the end of this part with carriage returns. -/
lemma returnedOffset_byteSize (before after : List Char) :
    returnedOffset (before ++ after) (byteSize before) = byteSize (withReturns before) := by
  rw [returnedOffset, LineTable.lineCount_byteSize, byteSize_withReturns, Nat.add_sub_cancel]

/-- The end of the source is the end of the source with carriage returns. -/
lemma returnedOffset_end (src : List Char) :
    returnedOffset src (byteSize src) = byteSize (withReturns src) := by
  have hsize := returnedOffset_byteSize src []
  rwa [List.append_nil] at hsize

/-- The start of the source is the start. -/
lemma returnedOffset_zero (src : List Char) : returnedOffset src 0 = 0 :=
  returnedOffset_byteSize [] src

/-- Offsets stay in order. -/
lemma strictMono_returnedOffset (src : List Char) : StrictMono (returnedOffset src) :=
  fun _ _ h => Nat.add_lt_add_of_lt_of_le h
    (Nat.sub_le_sub_right (LineTable.lineCount_mono src (Nat.le_of_lt h)) 1)

/-- A text that has less than 4 GiB with carriage returns has less without them, and enough numbers
for its lines. -/
lemma numbered_of_withReturns (hsize : byteSize (withReturns src) ≤ Span.maxOffset) :
    Numbered src := by
  rw [byteSize_withReturns] at hsize
  have hcount := count_le_byteSize src
  refine ⟨by omega, ?_⟩
  rw [LineTable.size_ofChars]
  simp only [Span.maxOffset] at *
  omega

/-- Another character at the end takes its own bytes. -/
lemma byteSize_concat (cs : List Char) (c : Char) :
    byteSize (cs ++ [c]) = byteSize cs + c.utf8Size :=
  byteSize_append ..

/-- Another character at the end takes its own bytes, carriage returns or not. -/
lemma byteSize_withReturns_concat {c : Char} (hc : c ≠ '\n') (cs : List Char) :
    byteSize (withReturns (cs ++ [c])) = byteSize (withReturns cs) + c.utf8Size := by
  rw [withReturns_append, withReturns_cons hc, withReturns, byteSize_concat]

/-- Another line feed at the end takes a carriage return with it. -/
lemma byteSize_withReturns_lineFeed (cs : List Char) :
    byteSize (withReturns (cs ++ ['\n'])) =
      byteSize (withReturns cs) + ('\r').utf8Size + ('\n').utf8Size := by
  rw [withReturns_append, byteSize_append, Nat.add_assoc]
  rfl

/-! ## Lines -/

/-- Lines start at the same places, with carriage returns before them. -/
lemma startsAfter_withReturns (before after : List Char) :
    LineTable.startsAfter (byteSize (withReturns before)) (withReturns after) =
      (LineTable.startsAfter (byteSize before) after).map (returnedOffset (before ++ after)) := by
  induction after generalizing before with
  | nil => rfl
  | cons c after ih =>
    have hsplit : before ++ c :: after = (before ++ [c]) ++ after := by simp
    have hih := ih (before ++ [c])
    rw [← hsplit, byteSize_concat] at hih
    by_cases hc : c = '\n'
    · subst hc
      have hnext : byteSize (withReturns before) + ('\r').utf8Size + ('\n').utf8Size =
          returnedOffset (before ++ '\n' :: after) (byteSize before + ('\n').utf8Size) := by
        rw [hsplit, ← byteSize_concat before, returnedOffset_byteSize,
          byteSize_withReturns_lineFeed]
      rw [byteSize_withReturns_lineFeed] at hih
      rw [withReturns_lineFeed, LineTable.startsAfter, if_neg (by decide), LineTable.startsAfter,
        if_pos rfl, LineTable.startsAfter, if_pos rfl, hih, hnext, List.map_cons]
    · rw [byteSize_withReturns_concat hc] at hih
      rw [withReturns_cons hc, LineTable.startsAfter, if_neg hc, LineTable.startsAfter, if_neg hc,
        hih]

/-- The table of lines is moved. -/
lemma ofChars_withReturns (hsize : byteSize (withReturns src) ≤ Span.maxOffset) :
    LineTable.ofChars (withReturns src) = (LineTable.ofChars src).moved (returnedOffset src) := by
  have hstarts := startsAfter_withReturns [] src
  rw [LineTable.ofChars_eq hsize, LineTable.ofChars_eq (numbered_of_withReturns hsize).size,
    LineTable.moved, List.map_cons, returnedOffset_zero]
  exact congrArg (fun starts => LineTable.mk (0 :: starts)) hstarts

/-- Lines start one after another. -/
lemma pairwise_startsAfter (offset : Nat) (cs : List Char) :
    (offset :: LineTable.startsAfter offset cs).Pairwise (· < ·) := by
  induction cs generalizing offset with
  | nil => exact List.pairwise_singleton ..
  | cons c cs ih =>
    have hlt : ∀ n ∈ LineTable.startsAfter offset (c :: cs), offset < n := fun n hn =>
      Nat.lt_of_lt_of_le (Nat.lt_add_of_pos_right c.utf8Size_pos)
        ((LineTable.bounds_of_mem_startsAfter hn).1 c rfl)
    refine List.pairwise_cons.2 ⟨hlt, ?_⟩
    have hrest := ih (offset + c.utf8Size)
    rw [LineTable.startsAfter]
    split
    · exact hrest
    · exact hrest.of_cons

/-- The line of an offset begins in the text and no later than at the offset, and its beginning is
on that line. -/
lemma lineCount_start (src : List Char) (offset : Nat) {start : Nat}
    (hstart : (0 :: LineTable.startsAfter 0 src).getD (lineCount src offset - 1) 0 = start) :
    0 < lineCount src offset ∧ start ≤ offset ∧ start ≤ byteSize src ∧
      lineCount src start = lineCount src offset := by
  have hcount (n : Nat) : lineCount src n =
      ((0 :: LineTable.startsAfter 0 src).takeWhile fun k => decide (k ≤ n)).length := rfl
  have hpos : 0 < lineCount src offset := by
    rw [hcount, List.takeWhile_cons_of_pos (by simp)]
    exact Nat.succ_pos _
  have hbound : ∀ k ∈ 0 :: LineTable.startsAfter 0 src, k ≤ byteSize src := by
    refine List.forall_mem_cons.2 ⟨Nat.zero_le _, fun k hk => ?_⟩
    have hle := (LineTable.bounds_of_mem_startsAfter hk).2
    rwa [Nat.zero_add] at hle
  have hsorted := pairwise_startsAfter 0 src
  generalize 0 :: LineTable.startsAfter 0 src = starts at hstart hcount hbound hsorted
  have hsplit := List.takeWhile_append_dropWhile (p := (decide <| · ≤ offset)) (l := starts)
  have hle : ∀ k ∈ starts.takeWhile (fun k => decide (k ≤ offset)), k ≤ offset := fun k hk =>
    of_decide_eq_true (List.mem_takeWhile_imp (p := fun k => decide (k ≤ offset)) hk)
  have hoffset := hcount offset
  generalize starts.takeWhile (fun k => decide (k ≤ offset)) = before at hoffset hsplit hle
  rw [hoffset] at hpos hstart ⊢
  -- the start of the line is the last start up to the offset
  obtain ⟨init, last, rfl⟩ := before.eq_nil_or_concat.resolve_left (List.length_pos_iff.1 hpos)
  rw [List.concat_eq_append] at hpos hstart hsplit hle ⊢
  obtain rfl : last = start := by
    rw [← hstart, ← hsplit]
    simp
  have hmem : last ∈ starts := by
    rw [← hsplit]
    simp
  refine ⟨hpos, hle last (by simp), hbound last hmem, Nat.le_antisymm ?_ ?_⟩
  · rw [← List.concat_eq_append, ← hoffset]
    exact LineTable.lineCount_mono src (hle last (by simp))
  · have hbefore : ∀ k ∈ init ++ [last], decide (k ≤ last) = true := by
      rw [← hsplit] at hsorted
      intro k hk
      rcases List.mem_append.1 hk with hk | hk
      · obtain ⟨-, -, hlt⟩ := List.pairwise_append.1 (List.pairwise_append.1 hsorted).1
        exact decide_eq_true (Nat.le_of_lt (hlt k hk last (by simp)))
      · exact decide_eq_true (Nat.le_of_eq (List.mem_singleton.1 hk))
    rw [hcount, ← hsplit, List.takeWhile_append_of_pos hbefore]
    exact (List.prefix_append ..).length_le

/-- Lines and columns are what they were. -/
lemma positionOf_returned (hsize : byteSize (withReturns src) ≤ Span.maxOffset) (offset : Nat) :
    (LineTable.ofChars (withReturns src)).positionOf (returnedOffset src offset) =
      (LineTable.ofChars src).positionOf offset := by
  have hf := strictMono_returnedOffset src
  have hnumbered := numbered_of_withReturns hsize
  generalize hstart : (0 :: LineTable.startsAfter 0 src).getD (lineCount src offset - 1) 0 = start
  obtain ⟨hpos, hle, hin, hsame⟩ := lineCount_start src offset hstart
  have hindex : wrappedSub (lineCount src offset) 1 = lineCount src offset - 1 :=
    wrappedSub_eq hpos (Nat.le_trans (LineTable.lineCount_le_size ..) hnumbered.lines.le)
  have hmoved : ((0 :: LineTable.startsAfter 0 src).map (returnedOffset src)).getD
      (lineCount src offset - 1) 0 = returnedOffset src start := by
    rw [← hstart, ← List.getD_map _ _ (returnedOffset src), returnedOffset_zero]
  have hcol : wrappedSub (returnedOffset src offset) (returnedOffset src start) =
      wrappedSub offset start := by
    have hfits : returnedOffset src start ≤ Span.maxOffset :=
      Nat.le_trans (hf.monotone hin) (returnedOffset_end src ▸ hsize)
    rw [wrappedSub_eq_wrapped (hf.monotone hle) hfits,
      wrappedSub_eq_wrapped hle (Nat.le_trans hin hnumbered.size), returnedOffset, returnedOffset,
      hsame, Nat.add_sub_add_right]
  rw [LineTable.positionOf, LineTable.positionOf, ofChars_withReturns hsize,
    LineTable.line_moved hf, hnumbered.line_eq, hindex, LineTable.ofChars_eq hnumbered.size,
    LineTable.moved, hmoved, hstart, hcol]

/-! ## Items -/

/-- The item in the moved source, with its text in the other form. -/
def Item.moved (f : Nat → Nat) : Item → Item
  | .token p => .token (p.moved f)
  | .semicolon offset => .semicolon (f offset)
  | .comment kind span text => .comment kind (span.moved f) (kind.returned text)
  | .fault span cause => .fault (span.moved f) cause

/-- What the lexer finds in the moved source. -/
def Lexed.moved (f : Nat → Nat) (l : Lexed) : Lexed :=
  ⟨l.tokens.map (Placed.moved f), l.comments.map (Comment.moved f),
    l.diagnostics.map (Diagnostic.moved f)⟩

/-- The first line break is at the same place, or at the carriage return before it. -/
lemma firstLineBreak?_withReturns {before text after : List Char}
    (hsrc : src = before ++ text ++ after) (htext : '\r' ∉ text) :
    firstLineBreak? (byteSize (withReturns before)) (withReturns text) =
      (firstLineBreak? (byteSize before) text).map (returnedOffset src) := by
  induction text generalizing before with
  | nil => rfl
  | cons c text ih =>
    obtain ⟨hreturn, htext⟩ := not_or.1 (List.mem_cons.not.1 htext)
    by_cases hc : c = '\n'
    · subst hc
      rw [withReturns_lineFeed, firstLineBreak?, if_pos (by decide), firstLineBreak?,
        if_pos (by decide), hsrc, List.append_assoc, Option.map_some, returnedOffset_byteSize]
    · have hbreak : ¬ isLineBreak c := by
        simp [isLineBreak, hc, Ne.symm hreturn]
      rw [withReturns_cons hc, firstLineBreak?, if_neg hbreak, firstLineBreak?, if_neg hbreak]
      rw [← byteSize_concat before, ← byteSize_withReturns_concat hc]
      exact ih (by rw [hsrc]; simp) htext

/-- A token that no line ends in has no carriage returns. -/
lemma returned_of_token? {lexeme : Lexeme} {text : List Char} {t : Token}
    (h : lexeme.token? (String.ofList text) = some t) (hlong : lexeme.isLong = false)
    (htext : '\n' ∉ text) : t.returned = t := by
  have hliteral : returnedLiteral (String.ofList text) = String.ofList text := by
    rw [returnedLiteral, String.toList_ofList, withReturns_of_notMem htext]
    exact ite_self _
  cases lexeme with
  | word =>
    rw [Lexeme.token?] at h
    split at h
    · cases h
      rfl
    · obtain ⟨w, -, rfl⟩ := Option.map_eq_some_iff.1 h
      rfl
  | number | runeLit | mark =>
    cases h
    rfl
  | stringLit =>
    cases h
    exact congrArg Token.stringLit hliteral
  | rawStringLit => cases hlong
  | _ => cases h

/-- What a lexeme contributes is moved with it. -/
lemma itemsOf_withReturns {lexeme : Lexeme} {before text after : List Char} (armed : Bool)
    (hsrc : src = before ++ text ++ after) (htext : '\r' ∉ text) (hlined : lexeme.Lined text)
    (hend : lexeme ≠ .lineEnd) :
    itemsOf armed lexeme (byteSize (withReturns before)) (withReturns text) =
      ((itemsOf armed lexeme (byteSize before) text).1.map (Item.moved (returnedOffset src)),
        (itemsOf armed lexeme (byteSize before) text).2) := by
  have hstart : byteSize (withReturns before) = returnedOffset src (byteSize before) := by
    rw [hsrc, List.append_assoc, returnedOffset_byteSize]
  -- both ends of the lexeme are where their offsets are moved to
  have hspan : Span.mk (byteSize (withReturns before))
      (byteSize (withReturns before) + byteSize (withReturns text)) =
      Span.moved (returnedOffset src) ⟨byteSize before, byteSize before + byteSize text⟩ := by
    rw [Span.moved, ← hstart, ← byteSize_append, ← byteSize_append, ← withReturns_append, hsrc,
      returnedOffset_byteSize]
  have hbreak := firstLineBreak?_withReturns hsrc htext
  have hblock (hbody : ∃ body, text = '/' :: '*' :: body) : String.ofList (withReturns text) =
      CommentKind.block.returned (String.ofList text) := by
    obtain ⟨body, rfl⟩ := hbody
    rw [CommentKind.returned, String.toList_ofList, withReturns_cons (by decide),
      withReturns_cons (by decide)]
    rfl
  cases lexeme with
  | lineEnd => exact absurd rfl hend
  | blank => rfl
  -- a lexeme of one line has no line feed, so its text stays as it is
  | lineComment =>
    rw [withReturns_of_notMem hlined] at hspan ⊢
    simp only [itemsOf, hspan]
    rfl
  | blockComment =>
    simp only [itemsOf, hspan, hbreak, hblock hlined]
    cases armed with
    | false => rfl
    | true =>
      cases firstLineBreak? (byteSize before) text with
      | none => rfl
      | some at_ => rfl
  | unclosedComment =>
    simp only [itemsOf, hspan, hblock hlined]
    rfl
  | byteOrderMark =>
    -- the mark is one at the start of the source only, and the start is not moved
    have hzero : byteSize (withReturns before) = 0 ↔ byteSize before = 0 := by
      have hiff := (strictMono_returnedOffset src).injective.eq_iff (a := byteSize before) (b := 0)
      rw [returnedOffset_zero] at hiff
      rw [hstart, hiff]
    simp only [itemsOf, hspan, hzero]
    split
    · rfl
    · rfl
  | stray =>
    rw [withReturns_of_notMem hlined] at hspan ⊢
    simp only [itemsOf, hspan]
    rfl
  | rawStringLit =>
    have hliteral : String.ofList (withReturns text) = returnedLiteral (String.ofList text) := by
      have hraw : text.head? = some '\x60' := hlined
      rw [returnedLiteral, String.toList_ofList, if_pos hraw]
    simp only [itemsOf, hspan, hliteral]
    rfl
  | word | number | runeLit | stringLit | mark =>
    rw [withReturns_of_notMem hlined] at hspan ⊢
    simp only [itemsOf, hspan]
    split
    · next t ht =>
      have ht := returned_of_token? ht rfl hlined
      simp only [List.map_cons, List.map_nil, Item.moved, Placed.moved, ht]
    · rfl

/-- A character that is neither a line feed nor a carriage return breaks no line. -/
lemma isLineBreak_eq_false {c : Char} (hfeed : c ≠ '\n') (hreturn : c ≠ '\r') :
    isLineBreak c = false := by
  simp [isLineBreak, hfeed, hreturn]

/-- A line end starts with a line break. -/
lemma munch_ne_lineEnd {c : Char} (h : isLineBreak c = false) (cs : List Char) :
    (munch c cs).1 ≠ .lineEnd := by
  intro heq
  have hfits := fits_munch c cs
  rw [heq] at hfits
  have hbreak := hfits c List.mem_cons_self
  rw [h] at hbreak
  cases hbreak

/-- The items of a text with carriage returns are those of the text, moved. -/
lemma itemsFrom_withReturns (armed : Bool) (before cs : List Char) (hsrc : src = before ++ cs)
    (hcs : '\r' ∉ cs) :
    itemsFrom armed (byteSize (withReturns before)) (withReturns cs) =
      (itemsFrom armed (byteSize before) cs).map (Item.moved (returnedOffset src)) := by
  -- a lexeme takes any number of characters, so the induction is on how many are left
  induction hlength : cs.length using Nat.strong_induction_on generalizing armed before cs with
  | _ n ih =>
    cases cs with
    | nil =>
      have hend : byteSize (withReturns before) = returnedOffset src (byteSize before) := by
        rw [hsrc, returnedOffset_byteSize]
      rw [withReturns, itemsFrom, itemsFrom, hend]
      cases armed with
      | false => rfl
      | true => rfl
    | cons c cs =>
      rw [List.length_cons] at hlength
      by_cases hc : c = '\n'
      · subst hc
        have hstart : byteSize (withReturns before) = returnedOffset src (byteSize before) := by
          rw [hsrc, returnedOffset_byteSize]
        have hrest := ih cs.length (by omega) false (before ++ ['\n']) cs (by rw [hsrc]; simp)
          (fun hmem => hcs (List.mem_cons_of_mem _ hmem)) rfl
        rw [byteSize_withReturns_lineFeed, byteSize_concat] at hrest
        have hrest : itemsFrom false (byteSize (withReturns before) + 2) (withReturns cs) =
            (itemsFrom false (byteSize before + 1) cs).map _ := hrest
        rw [withReturns_lineFeed, itemsFrom_lineFeed, itemsFrom_return, List.map_append, hrest,
          hstart]
        cases armed with
        | false => rfl
        | true => rfl
      -- any other lexeme is the same, and what is left after it is what was left, with returns
      · obtain ⟨hreturn, hreturns⟩ := not_or.1 (List.mem_cons.not.1 hcs)
        obtain ⟨hlexeme, ⟨htake, hdrop⟩, hlined⟩ := munch_withReturns hc (Ne.symm hreturn) cs
        have hend := munch_ne_lineEnd (isLineBreak_eq_false hc (Ne.symm hreturn)) cs
        have htext : c :: (withReturns cs).take (munch c (withReturns cs)).2 =
            withReturns (c :: cs.take (munch c cs).2) := by
          rw [htake, withReturns_cons hc]
        have hcut : c :: cs = c :: cs.take (munch c cs).2 ++ cs.drop (munch c cs).2 := by
          rw [List.cons_append, List.take_append_drop]
        have hnone : '\r' ∉ c :: cs.take (munch c cs).2 ++ cs.drop (munch c cs).2 := hcut ▸ hcs
        rw [hcut, ← List.append_assoc] at hsrc
        rw [withReturns_cons hc, itemsFrom_cons, itemsFrom_cons, hlexeme, htext, hdrop]
        have hshorter : (cs.drop (munch c cs).2).length < n := by
          rw [List.length_drop]
          omega
        generalize c :: cs.take (munch c cs).2 = text at hlined hnone hsrc
        generalize cs.drop (munch c cs).2 = rest at hnone hsrc hshorter
        obtain ⟨htext, hrest⟩ := not_or.1 (List.mem_append.not.1 hnone)
        have hitems := itemsOf_withReturns armed hsrc htext hlined hend
        dsimp only
        rw [List.map_append, hitems, ← byteSize_append, ← byteSize_append, ← withReturns_append,
          ih rest.length hshorter _ _ rest hsrc hrest rfl]

/-- The token of a moved item is the moved token. -/
lemma Item.placed?_moved (f : Nat → Nat) (i : Item) :
    (i.moved f).placed? = i.placed?.map (Placed.moved f) := by
  cases i with
  | _ => rfl

/-- The report of a moved item is the moved report. -/
lemma Item.diagnostic?_moved (f : Nat → Nat) (i : Item) :
    (i.moved f).diagnostic? = i.diagnostic?.map (Diagnostic.moved f) := by
  cases i with
  | _ => rfl

/-- The comments of moved items are the moved comments. -/
lemma commentsOf_moved (f : Nat → Nat) (n : Nat) (is : List Item) :
    commentsOf n (is.map (Item.moved f)) = (commentsOf n is).map (Comment.moved f) := by
  induction is generalizing n with
  | nil => rfl
  | cons i is ih =>
    cases i with
    | comment kind span text => exact congrArg (_ :: ·) (ih n)
    | _ => exact ih (n + 1)

/-- What is found in the source with carriage returns is what is found in the source, moved. -/
lemma findings_withReturns (hsrc : '\r' ∉ src) :
    findings (withReturns src) = (findings src).moved (returnedOffset src) := by
  have hitems : itemsFrom false 0 (withReturns src) =
      (itemsFrom false 0 src).map (Item.moved (returnedOffset src)) :=
    itemsFrom_withReturns false [] src rfl hsrc
  rw [findings, hitems, commentsOf_moved, List.filterMap_map, List.filterMap_map]
  simp only [Function.comp_def, Item.placed?_moved, Item.diagnostic?_moved, ← List.map_filterMap]
  rfl

/-- What is kept of a text with carriage returns is what is kept of the text, moved. -/
lemma lex_withReturns (hsrc : '\r' ∉ src) (hsize : byteSize (withReturns src) ≤ Span.maxOffset) :
    lex (withReturns src) = (lex src).moved (returnedOffset src) := by
  rw [lex_eq_findings hsize, findings_withReturns hsrc,
    lex_eq_findings (numbered_of_withReturns hsize).size]

end

end GoService.Source
