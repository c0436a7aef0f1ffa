import Arbor.Text.Script
import Arbor.Text.Trait

/-!
Where characters as they are seen, words and sentences may end, after the sixteenth edition of the
Unicode standard: the classes of characters that decide about it.
-/

namespace Arbor

open Category Trait

/-- The characters of one script. -/
def ofScript (name : String) : CharSet :=
  ((Script.named? name).map Script.characters).getD .empty

/-- The signs of number that are written before the digits, and the digits that are not decimal. -/
def numeric : CharSet := decimalNumber.union (.ofRuns
  "600-5 6B DD 890-1 E2 19DA 110BD CD")

/-- The syllables of Hangul without a final consonant: every twenty-eighth. -/
def openSyllable : CharSet := .ofList ((List.range 399).map fun i => 0xAC00 + 28 * i)

/-- The classes for characters as they are seen. -/
def graphemeBreak? : String → Option CharSet
  | "cn" | "control" =>
    some ((CharSet.anyOf [lineSeparator, paragraphSeparator, control, format,
      unassigned.inter defaultIgnorable]).diff
        (.anyOf [.ofRuns "A D 200D", prependedConcatenationMark, graphemeExtend]))
  | "cr" => some (.single 0xD)
  | "ex" | "extend" => some (graphemeExtend.union emojiModifier)
  | "l" => some (.ofRuns "1100-5F A960-7C")
  | "lf" => some (.single 0xA)
  | "lv" => some openSyllable
  | "lvt" => some ((CharSet.range 0xAC00 0xD7A3).diff openSyllable)
  | "pp" | "prepend" => some (.ofRuns
      "600-5 DD 70F 890-1 E2 D4E 110BD CD 1C2-3 3D1 93F 41 A3A 84-9 D46 F02")
  | "ri" | "regionalindicator" => some regionalIndicator
  | "sm" | "spacingmark" =>
    some ((spacingMark.union (.ofRuns "E33 EB3")).diff (graphemeExtend.union (.ofRuns
      "102B-C 38 62-4 7-D 83 7-C F 9A-C A61 3-4 AA7B D 11720-1")))
  | "t" => some (.ofRuns "11A8-FF D7CB-FB")
  | "v" => some (.ofRuns "1160-A7 D7B0-C6 16D63 7-A")
  | "zwj" => some (.single 0x200D)
  | _ => none

/-- What extends a word. -/
def wordExtend : CharSet :=
  (CharSet.anyOf [graphemeExtend, spacingMark, emojiModifier]).diff (.single 0x200D)

/-- The letters of Hebrew. -/
def hebrewLetter : CharSet := (ofScript "hebrew").inter otherLetter

/-- The classes for words. -/
def wordBreak? : String → Option CharSet
  | "cr" => some (.single 0xD)
  | "dq" | "doublequote" => some (.single 0x22)
  | "ex" | "extendnumlet" => some (connectorPunctuation.union (.single 0x202F))
  | "extend" => some wordExtend
  | "fo" | "format" =>
    some (format.diff (.anyOf [.ofRuns "200B-D", prependedConcatenationMark, wordExtend]))
  | "hl" | "hebrewletter" => some hebrewLetter
  | "ka" | "katakana" =>
    some ((ofScript "katakana").union (.ofRuns "3031-5 9B-C A0 FC FF70"))
  | "le" | "aletter" =>
    some ((alphabetic.diff (.anyOf [wordExtend, ofScript "katakana", ofScript "hiragana",
      ideographic, hebrewLetter, .ofRuns
      "E01-30 2-3 40-6 81-2 4 6-A C-A3 5 7-B0 2-3 D C0-4 6 DC-F 1000-2A 3F 50-5 A-D 61 5-6 E-70 5-81
        E 780-B3 D7 C 950-6D 70-4 80-AB B0-C9 A20-54 A7 3031-5 FC A9E0-4 6-F FA-E A60-76 A E-AF B1
        5-6 9-D C0 2 DB-D FF70 11700-1A 40-6"])).union (.ofRuns
      "2C2-5 D2-7 E-F E5-B D F-FF 55A-C E 8A F3 70F A708-16 20-1 89-A B5B"))
  | "lf" => some (.single 0xA)
  | "mb" | "midnumlet" => some (.ofRuns "2E 2018-9 24 FE52 F07 E")
  | "ml" | "midletter" => some (.ofRuns "3A B7 387 55F F4 2027 FE13 55 F1A")
  | "mn" | "midnum" => some (.ofRuns
      "2C 3B 37E 589 60C-D 6C 7F8 2044 FE50 4 F0C 1B")
  | "nl" | "newline" => some (.ofRuns "B-C 85 2028-9")
  | "nu" | "numeric" => some numeric
  | "ri" | "regionalindicator" => some regionalIndicator
  | "sq" | "singlequote" => some (.single 0x27)
  | "wsegspace" => some (.ofRuns "20 1680 2000-6 8-A 5F 3000")
  | "zwj" => some (.single 0x200D)
  | _ => none

/-- What extends a character or joins it to the next. -/
def sentenceExtend : CharSet := .anyOf [graphemeExtend, spacingMark, .single 0x200D]

/-- What ends a sentence only if the next word tells so. -/
def ambiguousStop : CharSet := .ofRuns "2E 2024 FE52 F0E"

/-- Letters that are small within a sentence. -/
def sentenceLower : CharSet :=
  lowercase.diff (sentenceExtend.union (.ofRuns "10D0-FA 10FD-F"))

/-- Letters that are capital within a sentence. -/
def sentenceUpper : CharSet :=
  (titlecaseLetter.union uppercase).diff (sentenceExtend.union (.ofRuns "1C90-BA 1CBD-F"))

/-- The classes for sentences. -/
def sentenceBreak? : String → Option CharSet
  | "at" | "aterm" => some ambiguousStop
  | "cl" | "close" =>
    some (CharSet.diff (.anyOf [openPunctuation, closePunctuation, initialPunctuation,
      finalPunctuation, .ofRuns
      "22 7 275B-60 E00-1 6-8 B 1F676-8"])
      (sentenceTerminal.union ambiguousStop))
  | "cr" => some (.single 0xD)
  | "ex" | "extend" => some sentenceExtend
  | "fo" | "format" => some (format.diff (sentenceExtend.union numeric))
  | "le" | "oletter" =>
    some ((alphabetic.union (.single 0x5F3)).diff
      (.anyOf [sentenceLower, sentenceUpper, sentenceExtend]))
  | "lf" => some (.single 0xA)
  | "lo" | "lower" => some sentenceLower
  | "nu" | "numeric" => some (numeric.union (.single 0x66C))
  | "sc" | "scontinue" => some (.ofRuns
      "2C-D 3A-B 37E 55D 60C-D 7F8 1802 8 2013-4 3001 FE10-1 3-4 31-2 50-1 4-5 8 63 F0C-D 1A-B 64")
  | "se" | "sep" => some (.ofRuns "85 2028-9")
  | "sp" => some (whiteSpace.diff (.ofRuns "A D 85 2028-9"))
  | "st" | "sterm" => some (sentenceTerminal.diff ambiguousStop)
  | "up" | "upper" => some sentenceUpper
  | _ => none

end Arbor
