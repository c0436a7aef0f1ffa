import Arbor.Text.Trait

/-!
Conditions on a place of a text, as regular expressions make them: to lie at an end of the text or
of a line, or at an edge of a word.
-/

namespace Arbor

/-! ### Words -/

/-- The characters of words: letters and marks, decimal digits, the connecting punctuation, and the
two characters that join or keep apart. -/
def wordChars : CharSet :=
  .anyOf [Trait.alphabetic, Category.mark, Category.decimalNumber, Category.connectorPunctuation,
    Trait.joinControl]

/-- The characters of words in ASCII. -/
def asciiWordChars : CharSet := .ofRuns "30-39 41-5A 5F 61-7A"

/-- Whether a character belongs to a word. -/
def isWordChar (c : Char) : Bool := wordChars.contains c.toNat

/-- Whether a character is one of ASCII and belongs to a word. -/
def isAsciiWordChar (c : Char) : Bool := asciiWordChars.contains c.toNat

namespace Regex

/-! ### Places -/

/-- How a place can lie to a word. -/
inductive Edge where
  | any
  | none
  | start
  | stop
  /-- No word goes on to the left. -/
  | startHalf
  /-- No word goes on to the right. -/
  | stopHalf
  deriving DecidableEq, Repr

/-- Whether a place lies as told, given whether words go on to its left and to its right. -/
def Edge.holds (left right : Bool) : Edge → Bool
  | any => left != right
  | none => left == right
  | start => !left && right
  | stop => left && !right
  | startHalf => !left
  | stopHalf => !right

/-- A condition on a place of a text. A line ends at a line feed; where it says so, it also ends at
a carriage return, and the two together are one end. The words are those of ASCII alone or those of
all scripts. -/
inductive Place where
  | textStart
  | textEnd
  | lineStart (returns : Bool)
  | lineEnd (returns : Bool)
  | word (ascii : Bool) (edge : Edge)
  deriving DecidableEq, Repr

/-- Whether a condition holds between two characters, of which there is none at an end of the
text. -/
def Place.holds (before after : Option Char) : Place → Bool
  | textStart => before.isNone
  | textEnd => after.isNone
  | lineStart false => before.all (· == '\n')
  | lineEnd false => after.all (· == '\n')
  | lineStart true => before.all (· == '\n') || (before == some '\r' && after != some '\n')
  | lineEnd true => after.all (· == '\r') || (after == some '\n' && before != some '\r')
  | word ascii edge =>
    let isWord := if ascii then isAsciiWordChar else isWordChar
    edge.holds (before.any isWord) (after.any isWord)

end Regex

end Arbor
