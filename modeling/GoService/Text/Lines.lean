/-!
# Pieces and lines

`split` cuts a text at every occurrence of one character and `joinWith` puts such pieces together
again. `lines` reads a text line by line: a line ends at a line feed, which is dropped together
with a carriage return directly before it.
-/

namespace GoService.Text

/-- The pieces between the occurrences of `sep`; there is always at least one. -/
def split (sep : Char) : List Char → List (List Char)
  | [] => [[]]
  | c :: cs =>
    if c = sep then [] :: split sep cs
    else match split sep cs with
      | p :: ps => (c :: p) :: ps
      | [] => [[c]]

/-- The pieces in one text, `sep` between neighbours. -/
def joinWith (sep : List Char) : List (List Char) → List Char
  | [] => []
  | [p] => p
  | p :: q :: ps => p ++ sep ++ joinWith sep (q :: ps)

/-- The text without one carriage return at its end. -/
def dropReturn (cs : List Char) : List Char :=
  if cs.getLast? = some '\r' then cs.dropLast else cs

/-- Reads pieces as lines: only a piece that a line feed ends loses its carriage return, and an
empty piece at the end is no line. -/
def linesOfPieces : List (List Char) → List (List Char)
  | [] => []
  | [p] => if p.isEmpty then [] else [p]
  | p :: q :: ps => dropReturn p :: linesOfPieces (q :: ps)

/-- The lines of a text, each without its line end. -/
def lines (cs : List Char) : List (List Char) :=
  linesOfPieces (split '\n' cs)

/-- The parts of a string between separators. -/
def splitString (sep : Char) (s : String) : List String :=
  (split sep s.toList).map String.ofList

/-- A text has at least one piece. -/
theorem split_ne_nil (sep : Char) (cs : List Char) : split sep cs ≠ [] := by
  cases cs with
  | nil => simp [split]
  | cons c cs =>
    simp only [split]
    split
    · simp
    · split <;> simp

/-- Pieces are joined to the text. -/
theorem joinWith_split (sep : Char) (cs : List Char) : joinWith [sep] (split sep cs) = cs := by
  induction cs with
  | nil => rfl
  | cons c cs ih =>
    have hne := split_ne_nil sep cs
    revert ih hne
    simp only [split]
    generalize split sep cs = ps
    intro ih hne
    split
    · cases ps with
      | nil => exact absurd rfl hne
      | cons p ps => simp_all [joinWith]
    · cases ps with
      | nil => exact absurd rfl hne
      | cons p ps => cases ps <;> simp_all [joinWith]

end GoService.Text
