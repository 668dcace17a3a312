import GoService.Text.DecimalDigit
import GoService.Text.Letter

/-!
# Words

The texts of identifiers: a letter or an underscore, and after it letters, underscores and digits.
A `Word` is such a text, so no identifier has a dot in it.
-/

namespace GoService.Source

/-- A character that can begin an identifier. -/
def isWordStart (c : Char) : Bool :=
  c == '_' || Text.isLetter c

/-- A character that can continue an identifier. -/
def isWordPart (c : Char) : Bool :=
  isWordStart c || Text.isDecimalDigit c

/-- Whether characters are the text of an identifier. -/
def isWord : List Char → Bool
  | [] => false
  | c :: cs => isWordStart c && cs.all isWordPart

/-- The text of an identifier. -/
structure Word where
  text : String
  wellFormed : isWord text.toList
  deriving DecidableEq

namespace Word

/-- The word that stands for a name that is missing or not wanted. -/
def blank : Word := ⟨"_", rfl⟩

instance : Inhabited Word := ⟨blank⟩

/-- The word with a text, if the text is one. -/
def ofText? (s : String) : Option Word :=
  if h : isWord s.toList then some ⟨s, h⟩ else none

/-- No word has a dot. -/
theorem dot_notMem (w : Word) : '.' ∉ w.text.toList := by
  have hdot : isWordPart '.' = false := by decide
  intro hmem
  have hw := w.wellFormed
  cases hcs : w.text.toList with
  | nil => simp [hcs] at hmem
  | cons c cs =>
    rw [hcs] at hmem hw
    simp only [isWord, Bool.and_eq_true, List.all_eq_true] at hw
    rcases List.mem_cons.1 hmem with rfl | hmem
    · simp [isWordPart, hw.1] at hdot
    · rw [hw.2 _ hmem] at hdot
      exact Bool.noConfusion hdot

end Word

end GoService.Source
