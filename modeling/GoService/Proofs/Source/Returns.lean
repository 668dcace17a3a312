import GoService.Proofs.Source.LineNumbers
import Mathlib.Data.List.Induction

/-!
# Carriage returns before line feeds

`withReturns` puts a carriage return before every line feed of a text. In a text that has none, this
changes neither where lexemes begin and end nor what they are: no lexeme but a raw string or a block
comment goes over the end of a line, a line end is one lexeme in either form, and what looks ahead
sees the end of the line in either (`munch_withReturns`).
-/

namespace GoService.Source

/-- The text with a carriage return before every line feed. -/
def withReturns : List Char → List Char
  | [] => []
  | c :: cs => if c = '\n' then '\r' :: '\n' :: withReturns cs else c :: withReturns cs

section

variable {c : Char} {cs : List Char}

/-- A line feed gets a carriage return. -/
lemma withReturns_lineFeed (cs : List Char) :
    withReturns ('\n' :: cs) = '\r' :: '\n' :: withReturns cs :=
  if_pos rfl

/-- Any other character stays as it is. -/
lemma withReturns_cons (h : c ≠ '\n') (cs : List Char) :
    withReturns (c :: cs) = c :: withReturns cs :=
  if_neg h

/-- Carriage returns are added part by part. -/
lemma withReturns_append (as bs : List Char) :
    withReturns (as ++ bs) = withReturns as ++ withReturns bs := by
  induction as with
  | nil => rfl
  | cons a as ih =>
    by_cases h : a = '\n'
    · rw [h, List.cons_append, withReturns_lineFeed, withReturns_lineFeed, ih]
      rfl
    · rw [List.cons_append, withReturns_cons h, withReturns_cons h, ih, List.cons_append]

/-- A text without line feeds stays as it is. -/
lemma withReturns_of_notMem (h : '\n' ∉ cs) : withReturns cs = cs := by
  induction cs with
  | nil => rfl
  | cons c cs ih =>
    obtain ⟨hc, hcs⟩ := not_or.1 (List.mem_cons.not.1 h)
    rw [withReturns_cons (Ne.symm hc), ih hcs]

/-- There is one carriage return for each line feed. -/
lemma byteSize_withReturns (cs : List Char) :
    byteSize (withReturns cs) = byteSize cs + cs.count '\n' := by
  induction cs with
  | nil => rfl
  | cons c cs ih =>
    by_cases h : c = '\n'
    · rw [h, withReturns_lineFeed, List.count_cons_self, byteSize, byteSize, byteSize, ih]
      have hsize : ('\r').utf8Size = 1 ∧ ('\n').utf8Size = 1 := by decide
      omega
    · rw [withReturns_cons h, List.count_cons_of_ne h, byteSize, byteSize, ih, Nat.add_assoc]

/-- A return is no line feed. -/
lemma count_withReturns (cs : List Char) : (withReturns cs).count '\n' = cs.count '\n' := by
  induction cs with
  | nil => rfl
  | cons c cs ih =>
    by_cases h : c = '\n'
    · rw [h, withReturns_lineFeed, List.count_cons_of_ne (by decide), List.count_cons_self,
        List.count_cons_self, ih]
    · rw [withReturns_cons h, List.count_cons_of_ne h, List.count_cons_of_ne h, ih]

/-- All that is new are carriage returns. -/
lemma filter_withReturns (cs : List Char) :
    (withReturns cs).filter (· != '\r') = cs.filter (· != '\r') := by
  induction cs with
  | nil => rfl
  | cons c cs ih =>
    by_cases h : c = '\n'
    · rw [h, withReturns_lineFeed, List.filter_cons_of_neg (by decide),
        List.filter_cons_of_pos (by decide), List.filter_cons_of_pos (by decide), ih]
    · rw [withReturns_cons h, List.filter_cons, List.filter_cons, ih]

/-! ## The start of a text -/

/-- What neither ends a line is the same at the start of both texts. -/
lemma takeWhile_withReturns {p : Char → Bool} (hfeed : p '\n' = false) (hreturn : p '\r' = false)
    (cs : List Char) : (withReturns cs).takeWhile p = cs.takeWhile p := by
  induction cs with
  | nil => rfl
  | cons c cs ih =>
    by_cases h : c = '\n'
    · rw [h, withReturns_lineFeed, List.takeWhile_cons_of_neg (ne_true_of_eq_false hreturn),
        List.takeWhile_cons_of_neg (ne_true_of_eq_false hfeed)]
    · rw [withReturns_cons h, List.takeWhile_cons, List.takeWhile_cons, ih]

/-- A mark without line breaks stands at the front of both texts or of none. -/
lemma isPrefixOf_withReturns {p : List Char} (hfeed : '\n' ∉ p) (hreturn : '\r' ∉ p)
    (cs : List Char) : p.isPrefixOf (withReturns cs) = p.isPrefixOf cs := by
  induction p generalizing cs with
  | nil => simp
  | cons d p ih =>
    obtain ⟨hfeed, hfeeds⟩ := not_or.1 (List.mem_cons.not.1 hfeed)
    obtain ⟨hreturn, hreturns⟩ := not_or.1 (List.mem_cons.not.1 hreturn)
    cases cs with
    | nil => rfl
    | cons c cs =>
      by_cases h : c = '\n'
      · rw [h, withReturns_lineFeed, List.isPrefixOf_cons_cons, List.isPrefixOf_cons_cons,
          beq_false_of_ne (Ne.symm hreturn), beq_false_of_ne (Ne.symm hfeed)]
        rfl
      · rw [withReturns_cons h, List.isPrefixOf_cons_cons, List.isPrefixOf_cons_cons,
          ih hfeeds hreturns]

/-- The text with carriage returns begins with no character with which the text does not begin. -/
lemma withReturns_ne_cons {d : Char} (hreturn : d ≠ '\r') (h : ∀ r, cs = d :: r → False)
    (s : List Char) : withReturns cs = d :: s → False := by
  intro hs
  cases cs with
  | nil => cases hs
  | cons c cs =>
    by_cases hc : c = '\n'
    · rw [hc, withReturns_lineFeed] at hs
      exact hreturn (List.cons.inj hs).1.symm
    · rw [withReturns_cons hc] at hs
      obtain ⟨rfl, -⟩ := List.cons.inj hs
      exact h cs rfl

/-- A first character that breaks no line is the same in both texts. -/
lemma filter_head?_withReturns {p : Char → Bool} (hfeed : p '\n' = false)
    (hreturn : p '\r' = false) (cs : List Char) :
    (withReturns cs).head?.filter p = cs.head?.filter p := by
  cases cs with
  | nil => rfl
  | cons c cs =>
    by_cases h : c = '\n'
    · rw [h, withReturns_lineFeed, List.head?_cons, List.head?_cons, Option.filter_some,
        Option.filter_some, hreturn, hfeed]
      rfl
    · rw [withReturns_cons h]
      rfl

/-- Some character other than these stands in front of both texts or of none. -/
lemma head?_withReturns {d : Char} (hfeed : d ≠ '\n') (hreturn : d ≠ '\r') (cs : List Char) :
    (withReturns cs).head? = some d ↔ cs.head? = some d := by
  cases cs with
  | nil => rfl
  | cons c cs =>
    by_cases h : c = '\n'
    · rw [h, withReturns_lineFeed, List.head?_cons, List.head?_cons, Option.some_inj,
        Option.some_inj]
      exact ⟨fun heq => absurd heq.symm hreturn, fun heq => absurd heq.symm hfeed⟩
    · rw [withReturns_cons h]
      rfl

/-! ## The end of a text -/

/-- The last character is the same in both texts. -/
lemma getLast?_withReturns (cs : List Char) : (withReturns cs).getLast? = cs.getLast? := by
  induction cs using List.reverseRecOn with
  | nil => rfl
  | append_singleton cs c =>
    rw [withReturns_append, List.getLast?_concat]
    by_cases h : c = '\n'
    · rw [h, withReturns_lineFeed]
      simp [withReturns]
    · rw [withReturns_cons h, withReturns, List.getLast?_concat]

/-- A text ends with a character in either form, and what is before it is the same. -/
lemma exists_of_withReturns_eq_concat {cs s : List Char} {d : Char} (hd : d ≠ '\n')
    (h : withReturns cs = s ++ [d]) : ∃ r, cs = r ++ [d] ∧ s = withReturns r := by
  have hlast := getLast?_withReturns cs
  rw [h, List.getLast?_concat] at hlast
  obtain ⟨r, rfl⟩ := List.getLast?_eq_some_iff.1 hlast.symm
  rw [withReturns_append, withReturns_cons hd] at h
  exact ⟨r, rfl, (List.append_inj_left' h rfl).symm⟩

/-! ## The first characters of a text -/

/-- The first `n` characters of a text become the first `n'` of the text with carriage returns. -/
structure CutsAlike (cs : List Char) (n n' : Nat) : Prop where
  take : (withReturns cs).take n' = withReturns (cs.take n)
  drop : (withReturns cs).drop n' = withReturns (cs.drop n)

/-- How many characters the first `n` characters become. -/
def returnedLength (cs : List Char) (n : Nat) : Nat :=
  (withReturns (cs.take n)).length

/-- A character that is no line feed is counted once. -/
lemma returnedLength_cons (hc : c ≠ '\n') (cs : List Char) (n : Nat) :
    returnedLength (c :: cs) (n + 1) = returnedLength cs n + 1 := by
  rw [returnedLength, List.take_succ_cons, withReturns_cons hc]
  rfl

/-- A line feed is counted with its carriage return. -/
lemma returnedLength_lineFeed (cs : List Char) (n : Nat) :
    returnedLength ('\n' :: cs) (n + 1) = returnedLength cs n + 1 + 1 := by
  rw [returnedLength, List.take_succ_cons, withReturns_lineFeed]
  rfl

/-- As many characters as before, and the carriage returns within, are cut off alike. -/
lemma cutsAlike_returnedLength (cs : List Char) (n : Nat) :
    CutsAlike cs n (returnedLength cs n) := by
  have hsplit : withReturns cs = withReturns (cs.take n) ++ withReturns (cs.drop n) := by
    rw [← withReturns_append, List.take_append_drop]
  rw [returnedLength]
  exact ⟨by rw [hsplit, List.take_left], by rw [hsplit, List.drop_left]⟩

/-- To cut off nothing is the same in both texts. -/
lemma cutsAlike_zero (cs : List Char) : CutsAlike cs 0 0 :=
  cutsAlike_returnedLength cs 0

/-- One more character that is no line feed may be cut off. -/
lemma CutsAlike.cons {n n' : Nat} (hc : c ≠ '\n') (h : CutsAlike cs n n') :
    CutsAlike (c :: cs) (n + 1) (n' + 1) := by
  refine ⟨?_, ?_⟩
  · rw [withReturns_cons hc, List.take_succ_cons, List.take_succ_cons, h.take, withReturns_cons hc]
  · rw [withReturns_cons hc, List.drop_succ_cons, List.drop_succ_cons, h.drop]

/-- Without a line feed as many characters are cut off alike. -/
lemma NoFeed.cutsAlike {n : Nat} (h : NoFeed cs n) : CutsAlike cs n n := by
  induction n generalizing cs with
  | zero => exact cutsAlike_zero cs
  | succ n ih =>
    cases cs with
    | nil => exact ⟨rfl, rfl⟩
    | cons c cs =>
      rw [NoFeed, List.take_succ_cons] at h
      obtain ⟨hc, hcs⟩ := not_or.1 (List.mem_cons.not.1 h)
      exact (ih hcs).cons (Ne.symm hc)

/-- What follows characters without a line feed has carriage returns. -/
lemma NoFeed.drop_eq {n : Nat} (h : NoFeed cs n) :
    (withReturns cs).drop n = withReturns (cs.drop n) :=
  h.cutsAlike.drop

/-! ## Numbers -/

/-- A run of digits is as long in both texts. -/
lemma digitRun_withReturns (hex : Bool) (cs : List Char) :
    digitRun hex (withReturns cs) = digitRun hex cs := by
  rw [digitRun, digitRun, takeWhile_withReturns]
  · cases hex <;> decide
  · cases hex <;> decide

/-- An exponent is as long in both texts. -/
lemma exponentLength_withReturns (hex : Bool) (cs : List Char) :
    exponentLength hex (withReturns cs) = exponentLength hex cs := by
  have hletter {e : Char} (h : (!hex && (e == 'e' || e == 'E') || e == 'p' || e == 'P') = true) :
      e ≠ '\n' := by
    rintro rfl
    cases hex <;> exact absurd h (by decide)
  fun_cases exponentLength hex cs with
  | case1 => rfl
  | case2 e h s | case3 e h s =>
    rw [withReturns_cons (hletter h), withReturns_cons (by decide)]
    simp only [exponentLength, if_pos h, digitRun_withReturns]
  | case4 e r h hplus hminus =>
    have hplus' := withReturns_ne_cons (by decide) hplus
    have hminus' := withReturns_ne_cons (by decide) hminus
    rw [withReturns_cons (hletter h)]
    simp only [exponentLength, if_pos h, digitRun_withReturns]
  | case5 e r h =>
    by_cases he : e = '\n'
    · subst he
      cases hex <;> rfl
    · rw [withReturns_cons he]
      simp only [exponentLength, if_neg h]

/-- A fraction is as long in both texts. -/
lemma fractionLength_withReturns (hex : Bool) (cs : List Char) :
    fractionLength hex (withReturns cs) = fractionLength hex cs := by
  fun_cases fractionLength hex cs with
  | case1 r => rfl
  | case2 r hpoint =>
    rw [withReturns_cons (by decide), fractionLength, digitRun_withReturns]
    exact withReturns_ne_cons (by decide) hpoint
  | case3 cs hpoints hpoint =>
    have hpoint' := withReturns_ne_cons (by decide) hpoint
    rw [fractionLength]
    · exact fun s => hpoint' ('.' :: s)
    · exact hpoint'

/-- The letter of a base is the same in both texts. -/
lemma baseLetter?_withReturns (c : Char) (cs : List Char) :
    baseLetter? c (withReturns cs) = baseLetter? c cs := by
  rw [baseLetter?, baseLetter?, filter_head?_withReturns (by decide) (by decide)]

/-- A mantissa is as long in both texts. -/
lemma mantissaLength_withReturns (c : Char) (cs : List Char) :
    mantissaLength c (withReturns cs) = mantissaLength c cs := by
  by_cases hpoint : c = '.'
  · rw [mantissaLength, mantissaLength, if_pos hpoint, if_pos hpoint, digitRun_withReturns]
  · rw [mantissaLength_eq hpoint, mantissaLength_eq hpoint, baseLetter?_withReturns]
    have hlead := noFeed_baseLetter? c cs
    generalize (baseLetter? c cs == some 'x' || baseLetter? c cs == some 'X') = hex
    generalize (if (baseLetter? c cs).isSome then 1 else 0) = lead at hlead
    have hwhole := hlead.add (noFeed_digitRun hex _)
    dsimp only
    rw [hlead.drop_eq, digitRun_withReturns, hwhole.drop_eq, fractionLength_withReturns]

/-- A number is as long in both texts. -/
lemma numberLength_withReturns (c : Char) (cs : List Char) :
    numberLength c (withReturns cs) = numberLength c cs := by
  have hmantissa := noFeed_mantissaLength c cs
  rw [numberLength, numberLength, mantissaLength_withReturns]
  generalize mantissaLength c cs = m at hmantissa
  obtain ⟨mantissa, hex⟩ := m
  have hlength := hmantissa.add (noFeed_exponentLength hex (cs.drop mantissa))
  dsimp only
  rw [NoFeed.drop_eq hmantissa, exponentLength_withReturns, hlength.drop_eq]
  exact if_congr (head?_withReturns (by decide) (by decide) _) rfl rfl

/-! ## Literals and comments -/

/-- How long a quoted literal is, by a character that is no backslash. -/
lemma quotedLength?_plain {q : Char} (hc : c ≠ '\\') (cs : List Char) :
    quotedLength? q (c :: cs) = if c = q then some 1 else if isLineBreak c then none
      else (quotedLength? q cs).map (· + 1) :=
  quotedLength?.eq_4 _ _ _ (fun h _ => hc h) (fun _ _ h _ => hc h)

/-- No quoted literal goes over a line break. -/
lemma quotedLength?_lineBreak {q : Char} (hq : ¬ isLineBreak q) (hc : isLineBreak c)
    (cs : List Char) : quotedLength? q (c :: cs) = none := by
  have hescape : c ≠ '\\' := by
    rintro rfl
    exact absurd hc (by decide)
  have hquote : c ≠ q := by
    rintro rfl
    exact hq hc
  rw [quotedLength?_plain hescape, if_neg hquote, if_pos hc]

/-- A quoted text is as long in either form, since no line ends in it. -/
lemma quotedLength?_withReturns {q : Char} (hq : ¬ isLineBreak q) (cs : List Char) :
    quotedLength? q (withReturns cs) = quotedLength? q cs := by
  have hplain {c : Char} {r : List Char} (hend : c = '\\' → r = [] → False)
      (hescape : ∀ d s, c = '\\' → r = d :: s → False) : c ≠ '\\' := by
    rintro rfl
    cases r with
    | nil => exact hend rfl rfl
    | cons d s => exact hescape d s rfl rfl
  fun_induction quotedLength? q cs with
  | case1 => rfl
  | case2 => rfl
  | case3 r =>
    rw [withReturns_cons (by decide), withReturns_lineFeed, quotedLength?, if_neg (by decide),
      quotedLength?_lineBreak hq (by decide)]
    rfl
  | case4 c r hc ih =>
    rw [withReturns_cons (by decide), withReturns_cons hc, quotedLength?, if_neg hc, ih]
  | case5 r hend hescape =>
    have hfeed : q ≠ '\n' := by
      rintro rfl
      exact hq (by decide)
    rw [withReturns_cons hfeed, quotedLength?_plain (hplain hend hescape), if_pos rfl]
  | case6 c r hend hescape hquote hbreak =>
    by_cases hc : c = '\n'
    · rw [hc, withReturns_lineFeed, quotedLength?_lineBreak hq (by decide)]
    · rw [withReturns_cons hc, quotedLength?_lineBreak hq hbreak]
  | case7 c r hend hescape hquote hbreak ih =>
    have hfeed : c ≠ '\n' := by
      rintro rfl
      exact hbreak (by decide)
    rw [withReturns_cons hfeed, quotedLength?_plain (hplain hend hescape), if_neg hquote,
      if_neg hbreak, ih]

/-- The end of a block comment is found in either form. -/
lemma blockLength?_withReturns (cs : List Char) :
    blockLength? (withReturns cs) = (blockLength? cs).map (returnedLength cs) := by
  have hplain {c : Char} (hc : c ≠ '*') (r : List Char) :
      blockLength? (c :: r) = (blockLength? r).map (· + 1) :=
    blockLength?.eq_3 _ _ fun _ h _ => hc h
  fun_induction blockLength? cs with
  | case1 => rfl
  | case2 r => rfl
  | case3 c r hclose ih =>
    by_cases hc : c = '\n'
    · rw [hc, withReturns_lineFeed, hplain (by decide), hplain (by decide), ih, Option.map_map,
        Option.map_map, Option.map_map]
      exact congrArg (Option.map · _) (funext fun n => (returnedLength_lineFeed r n).symm)
    · have hclose' (s : List Char) (hstar : c = '*') : withReturns r = '/' :: s → False :=
        withReturns_ne_cons (by decide) (fun t => hclose t hstar) s
      rw [withReturns_cons hc, blockLength?.eq_3 _ _ hclose', ih, Option.map_map, Option.map_map]
      exact congrArg (Option.map · _) (funext fun n => (returnedLength_cons hc r n).symm)

/-- How long a raw literal is, by its first character. -/
lemma rawLength?_cons (c : Char) (cs : List Char) :
    rawLength? (c :: cs) = if c = '\x60' then some 1 else (rawLength? cs).map (· + 1) := by
  by_cases hc : c = '\x60'
  · rw [if_pos hc, rawLength?, List.takeWhile_cons_of_neg (by simp [hc])]
    exact if_pos (Nat.zero_lt_succ _)
  · rw [if_neg hc, rawLength?, rawLength?, List.takeWhile_cons_of_pos (by simp [hc]),
      apply_ite (Option.map (· + 1))]
    exact if_congr Nat.succ_lt_succ_iff rfl rfl

/-- So is the end of a raw string. -/
lemma rawLength?_withReturns (cs : List Char) :
    rawLength? (withReturns cs) = (rawLength? cs).map (returnedLength cs) := by
  induction cs with
  | nil => rfl
  | cons c cs ih =>
    by_cases hc : c = '\n'
    · rw [hc, withReturns_lineFeed, rawLength?_cons, rawLength?_cons, rawLength?_cons, ih,
        if_neg (by decide), if_neg (by decide), if_neg (by decide), Option.map_map, Option.map_map,
        Option.map_map]
      exact congrArg (Option.map · _) (funext fun n => (returnedLength_lineFeed cs n).symm)
    · rw [withReturns_cons hc, rawLength?_cons, rawLength?_cons, ih]
      split
      · rw [Option.map_some, returnedLength_cons hc]
        rfl
      · rw [Option.map_map, Option.map_map]
        exact congrArg (Option.map · _) (funext fun n => (returnedLength_cons hc cs n).symm)

/-! ## Lexemes -/

/-- No mark has a line break within. -/
lemma lineBreak_notMem_spelling (m : Mark) : '\n' ∉ m.spelling ∧ '\r' ∉ m.spelling := by
  cases m <;> decide

/-- The same mark stands at the front of both texts. -/
lemma atStart?_withReturns (hc : c ≠ '\n') (cs : List Char) :
    Mark.atStart? (c :: withReturns cs) = Mark.atStart? (c :: cs) := by
  have hprefix (m : Mark) :
      m.spelling.isPrefixOf (c :: withReturns cs) = m.spelling.isPrefixOf (c :: cs) := by
    obtain ⟨hfeed, hreturn⟩ := lineBreak_notMem_spelling m
    rw [← withReturns_cons hc, isPrefixOf_withReturns hfeed hreturn]
  simp only [Mark.atStart?, hprefix]

/-- Whether a lexeme can go over the end of a line. -/
def Lexeme.isLong : Lexeme → Bool
  | .lineEnd | .blockComment | .unclosedComment | .rawStringLit => true
  | _ => false

/-- How the text of a lexeme begins if it can go over the end of a line; else no line ends in it. -/
def Lexeme.Lined (text : List Char) : Lexeme → Prop
  | .lineEnd => True
  | .blockComment | .unclosedComment => ∃ body, text = '/' :: '*' :: body
  | .rawStringLit => text.head? = some '\x60'
  | _ => '\n' ∉ text

/-- A text without line feeds fits any lexeme of one line. -/
lemma Lexeme.lined_of_notMem {lexeme : Lexeme} {text : List Char} (h : lexeme.isLong = false)
    (htext : '\n' ∉ text) : lexeme.Lined text := by
  cases lexeme with
  | lineEnd | blockComment | unclosedComment | rawStringLit => cases h
  | _ => exact htext

/-- The same lexeme in either form, with the part of the text that belongs to it. -/
structure MunchedAlike (c : Char) (cs : List Char) (munched munched' : Lexeme × Nat) : Prop where
  lexeme : munched'.1 = munched.1
  cuts : CutsAlike cs munched.2 munched'.2
  lined : munched.1.Lined (c :: cs.take munched.2)

/-- What is taken without a line feed is taken alike. -/
lemma NoFeed.munchedAlike {lexeme : Lexeme} {n : Nat} (hlong : lexeme.isLong = false)
    (hc : c ≠ '\n') (h : NoFeed cs n) : MunchedAlike c cs (lexeme, n) (lexeme, n) :=
  ⟨rfl, h.cutsAlike, Lexeme.lined_of_notMem hlong
    fun hmem => (List.mem_cons.1 hmem).elim (fun heq => hc heq.symm) h⟩

/-- What is taken alike in either case is taken alike. -/
lemma MunchedAlike.ite {P : Prop} [Decidable P] {a a' b b' : Lexeme × Nat}
    (hpos : P → MunchedAlike c cs a a') (hneg : ¬P → MunchedAlike c cs b b') :
    MunchedAlike c cs (if P then a else b) (if P then a' else b') := by
  split
  · next h => exact hpos h
  · next h => exact hneg h

/-- A run of characters other than line feeds holds no line feed. -/
lemma noFeed_takeWhile {p : Char → Bool} (h : p '\n' = false) (cs : List Char) :
    NoFeed cs (cs.takeWhile p).length := by
  rw [NoFeed, take_length_takeWhile]
  exact fun hmem => absurd (List.mem_takeWhile_imp hmem) (ne_true_of_eq_false h)

/-- A quoted literal holds no line feed. -/
lemma noFeed_quotedLength? {q : Char} (hq : ¬ isLineBreak q) {n : Nat}
    (h : quotedLength? q cs = some n) : NoFeed cs n := by
  have hfeed {c : Char} (hc : ¬ isLineBreak c) : c ≠ '\n' := by
    rintro rfl
    exact hc (by decide)
  fun_induction quotedLength? q cs generalizing n with
  | case1 | case2 | case3 | case6 => cases h
  | case4 c r hc ih =>
    obtain ⟨m, hm, rfl⟩ := Option.map_eq_some_iff.1 h
    exact ((ih hm).cons hc).cons (by decide)
  | case5 r =>
    cases h
    exact noFeed_zero.cons (hfeed hq)
  | case7 c r _ _ _ hbreak ih =>
    obtain ⟨m, hm, rfl⟩ := Option.map_eq_some_iff.1 h
    exact (ih hm).cons (hfeed hbreak)

/-- What begins with a slash is taken alike. -/
lemma munchSlash_withReturns (cs : List Char) :
    MunchedAlike '/' cs (munchSlash cs) (munchSlash (withReturns cs)) := by
  fun_cases munchSlash cs with
  | case1 r =>
    rw [withReturns_cons (by decide), munchSlash, takeWhile_withReturns rfl rfl, Nat.add_comm]
    exact ((noFeed_takeWhile rfl r).cons (by decide)).munchedAlike rfl (by decide)
  | case2 r n h =>
    have hcuts := (cutsAlike_returnedLength r n).cons (c := '*') (by decide)
    rw [Nat.add_comm n, Nat.add_comm (returnedLength r n)] at hcuts
    rw [withReturns_cons (by decide), munchSlash, blockLength?_withReturns, h]
    refine ⟨rfl, hcuts, (r.take n), ?_⟩
    rw [Nat.add_comm, List.take_succ_cons]
  | case3 r h =>
    have hcuts := (cutsAlike_returnedLength r r.length).cons (c := '*') (by decide)
    rw [returnedLength, List.take_length] at hcuts
    rw [withReturns_cons (by decide), munchSlash, blockLength?_withReturns, h]
    exact ⟨rfl, hcuts, _, rfl⟩
  | case4 r =>
    rw [withReturns_cons (by decide), munchSlash]
    exact (noFeed_zero.cons (by decide)).munchedAlike rfl (by decide)
  | case5 cs hslash hstar hassign =>
    rw [munchSlash.eq_4 _ (withReturns_ne_cons (by decide) hslash)
      (withReturns_ne_cons (by decide) hstar) (withReturns_ne_cons (by decide) hassign)]
    exact noFeed_zero.munchedAlike rfl (by decide)

/-- A lexeme other than a line end is the same in either form. -/
lemma munch_withReturns (hfeed : c ≠ '\n') (hreturn : c ≠ '\r') (cs : List Char) :
    MunchedAlike c cs (munch c cs) (munch c (withReturns cs)) := by
  have hdigit : (withReturns cs).head?.any Char.isDigit = cs.head?.any Char.isDigit := by
    rw [← Option.isSome_filter, ← Option.isSome_filter, filter_head?_withReturns rfl rfl]
  have hquoted {lexeme : Lexeme} (hlong : lexeme.isLong = false) {length? : Option Nat}
      (h : ∀ n ∈ length?, NoFeed cs n) :
      MunchedAlike c cs (munchLiteral lexeme length?) (munchLiteral lexeme length?) := by
    cases length? with
    | none => exact noFeed_zero.munchedAlike rfl hfeed
    | some n => exact (h n rfl).munchedAlike hlong hfeed
  rw [munch, munch]
  refine .ite (fun _ => ?_) fun _ => .ite (fun h => absurd h hfeed) fun _ =>
    .ite (fun h => absurd h hreturn) fun _ => .ite (fun _ => ?_) fun _ => ?_
  · rw [takeWhile_withReturns rfl rfl]
    exact (noFeed_takeWhile rfl cs).munchedAlike rfl hfeed
  · rw [takeWhile_withReturns (by decide) (by decide)]
    exact (noFeed_takeWhile (by decide) cs).munchedAlike rfl hfeed
  -- from here on what follows the first character has a say
  rw [hdigit]
  refine .ite (fun _ => ?_) fun _ => .ite (fun h => h ▸ munchSlash_withReturns cs) fun _ =>
    .ite (fun _ => ?_) fun _ => .ite (fun _ => ?_) fun _ => .ite (fun h => ?_) fun _ =>
    .ite (fun _ => noFeed_zero.munchedAlike rfl hfeed) fun _ => ?_
  · rw [numberLength_withReturns]
    exact (noFeed_numberLength c cs).munchedAlike rfl hfeed
  · rw [quotedLength?_withReturns (by decide)]
    exact hquoted rfl fun n hn => noFeed_quotedLength? (by decide) hn
  · have hempty : (withReturns cs).head? = some '\'' ↔ cs.head? = some '\'' :=
      head?_withReturns (by decide) (by decide) cs
    rw [quotedLength?_withReturns (by decide), if_congr hempty rfl rfl]
    refine hquoted rfl fun n hn => ?_
    obtain ⟨-, hn⟩ := Option.ite_none_left_eq_some.1 hn
    exact noFeed_quotedLength? (by decide) hn
  · subst h
    rw [rawLength?_withReturns]
    cases rawLength? cs with
    | none => exact noFeed_zero.munchedAlike rfl hfeed
    | some n => exact ⟨rfl, cutsAlike_returnedLength cs n, rfl⟩
  · rw [atStart?_withReturns hfeed]
    cases hmark : Mark.atStart? (c :: cs) with
    | none => exact noFeed_zero.munchedAlike rfl hfeed
    | some m =>
      have hnotMem := (lineBreak_notMem_spelling m).1
      rw [spelling_eq_of_atStart? hmark] at hnotMem
      exact NoFeed.munchedAlike rfl hfeed fun hmem => hnotMem (List.mem_cons_of_mem c hmem)

end

end GoService.Source
