import Arbor.Datum
import Arbor.Decimal

/-!
Writing JSON, without blanks. Strings escape the quote, the backslash and the control characters
below the blank, the common ones by a letter and the others by number, and nothing else. A number
with a fraction is written as the sixteen hexadecimal digits of its bits, in quotes, so that no
reader rounds it.
-/

namespace Arbor.Json

/-- A character as it stands in a string. -/
def escapeChar (c : Char) : String :=
  match c with
  | '"' => "\\\""
  | '\\' => "\\\\"
  | '\x08' => "\\b"
  | '\x0c' => "\\f"
  | '\n' => "\\n"
  | '\r' => "\\r"
  | '\t' => "\\t"
  | c => if c.toNat < 0x20 then "\\u" ++ hexDigits 4 c.toNat else c.toString

/-- A text in quotes. -/
def quote (s : String) : String :=
  s.foldl (fun out c => out ++ escapeChar c) "\"" ++ "\""

mutual

/-- The text of a value. -/
def render : Datum → String
  | .null | .unreadable => "null"
  | .bool b => if b then "true" else "false"
  | .integer i => toString i
  | .decimal x => quote (hexDigits 16 x.toBits.toNat)
  | .text s => quote s
  | .list items => "[" ++ ",".intercalate (renderAll items) ++ "]"
  | .sequence items => "[" ++ ",".intercalate (renderAll items) ++ "]"
  | .record members => "\x7b" ++ ",".intercalate (renderMembers members) ++ "\x7d"

/-- The texts of several values. -/
def renderAll : List Datum → List String
  | [] => []
  | d :: ds => render d :: renderAll ds

/-- The texts of the members of a record. -/
def renderMembers : List (String × Datum) → List String
  | [] => []
  | (name, d) :: ms => (quote name ++ ":" ++ render d) :: renderMembers ms

end

end Arbor.Json
