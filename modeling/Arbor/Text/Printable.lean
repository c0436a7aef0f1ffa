import Arbor.Text.Trait

/-!
Characters that the seventeenth edition of the Unicode standard adds to the sixteenth, and what
follows for letters, numbers and the characters that can be shown. Between quotes, what cannot be
shown is written as an escape: a letter for the common ones, the code point in braces for the
others.
-/

namespace Arbor

/-! ### New characters -/

/-- Letters, and marks and numbers that count as letters. -/
def addedLetters : CharSet := .ofRuns
  "88F C5C DC A7CE-F D2 4 F1 10940-59 EC5-7 FA-B 1B60-7 DB0-DB 6EA0-B8 B-D3 FF2-6 87F8-F D09-1E
    80-F2 E6C0-DE E0-F5 E-F 2B73A-F CEA2-D 323B0-3479"

/-- Numbers. -/
def addedNumbers : CharSet := .ofRuns
  "11DE0-9 16FF4-6"

/-- Marks that extend the character before them. -/
def addedMarks : CharSet := .ofRuns
  "1ACF-DD E0-B 10EFA-B 1B60 2-4 6 E6E3 6 E-F F5"

/-- Punctuation and signs. -/
def addedSymbols : CharSet := .ofRuns
  "20C1 B96 FBC3-D2 D90-1 C8-E 10ED0-8 CCFA-C EBA-D0 E0-F0 F6D8 777-A 8D0-8 A54-7 8A E C8 D EA F
    BFA"

/-! ### Old and new characters -/

/-- Whether a character is a letter or counts as one. -/
def isAlphabetic (c : Char) : Bool :=
  (Trait.alphabetic.union addedLetters).contains c.toNat

/-- Whether a character is a number. -/
def isNumeric (c : Char) : Bool :=
  (Category.number.union addedNumbers).contains c.toNat

/-- The characters that can be shown as they are: letters, numbers, punctuation, signs, the blank
and the marks that do not extend the character before them, without those that can be left out. -/
def shownChars : CharSet :=
  let marks := Category.mark.diff Trait.graphemeExtend
  let visible := CharSet.anyOf [.single 0x20, Category.letter, Category.number,
    Category.punctuation, Category.symbol, marks]
  let added := (CharSet.anyOf [addedLetters, addedNumbers, addedSymbols]).diff addedMarks
  (visible.diff Trait.defaultIgnorable).union added

/-- Whether a character can be shown as it is. -/
def isShown (c : Char) : Bool :=
  (0x20 ≤ c.toNat && c.toNat < 0x7F) || shownChars.contains c.toNat

/-! ### Texts in quotes -/

/-- A character as it stands between quotes. -/
def quotedChar (c : Char) : String :=
  match c with
  | '\x00' => "\\0"
  | '\t' => "\\t"
  | '\r' => "\\r"
  | '\n' => "\\n"
  | '"' => "\\\""
  | '\\' => "\\\\"
  | c => if isShown c then c.toString else "\\u\x7b" ++ hexDigits 1 c.toNat ++ "\x7d"

/-- A text in quotes. -/
def quoted (s : String) : String :=
  "\"" ++ String.join (s.toList.map quotedChar) ++ "\""

end Arbor
