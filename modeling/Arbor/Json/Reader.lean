import Arbor.Datum
import Arbor.Decimal

/-!
Reading JSON. The reader is strict: no blanks but space, tab, line feed and carriage return, no
control characters in strings, no leading zeros, no commas at the end, nothing behind the value.
First the text is cut into tokens, one character at a time, then the tokens are put together on a
stack of the containers that are still open.

A string with half a surrogate pair and a number too large for a double are well-formed but stand
for no value, and so does a record with such a name.
-/

namespace Arbor.Json

/-- The pieces that a text is made of. -/
inductive Token where
  | openList
  | closeList
  | openRecord
  | closeRecord
  | comma
  | colon
  /-- Anything that is a value by itself; a text may also be a name. -/
  | value (d : Datum)

/-! ### Numbers -/

/-- Takes digits up for as long as the number fits into 64 bits; the rest is what is left. -/
def absorb (significand : Nat) : List Char → Nat × List Char
  | [] => (significand, [])
  | c :: cs =>
    let next := significand * 10 + digitValue c
    if next < wordBound then absorb next cs else (significand, c :: cs)

/-- The number `significand * 10 ^ exponent`, with the power of ten rounded before it is multiplied
or divided by, or nothing if that is too large. -/
def scaled? (significand : Nat) (exponent : Int) : Option Float :=
  let x := Float.ofNat significand
  let power (n : Nat) : Float := Decimal.nearest ⟨false, 1, n⟩
  if significand = 0 then some 0
  else if 308 < exponent then none
  else if 0 ≤ exponent then
    let y := x * power exponent.toNat
    if y.isInf then none else some y
  else if -308 ≤ exponent then some (x / power (-exponent).toNat)
  else if -616 ≤ exponent then some (x / power 308 / power (-exponent - 308).toNat)
  else some 0

/-- The value of a number given by its parts. Whole numbers that fit into 64 bits, with or without
sign, stay whole. -/
def numberOf (negative : Bool) (whole : List Char) (fraction : Option (List Char))
    (exponent : Option Int) : Datum :=
  let n := ofDigits 10 whole
  let isWhole := fraction.isNone && exponent.isNone
  if isWhole && !negative && n < wordBound then .integer n
  else if isWhole && negative && 0 < n && n ≤ signedBound then .integer (-n)
  else
    let (significand, excess) := absorb 0 whole
    let (significand, dropped) := absorb significand (fraction.getD [])
    let taken := (fraction.getD []).length - dropped.length
    let scale : Int := excess.length - taken + exponent.getD 0
    match scaled? significand scale with
    | some x => .decimal (if negative then -x else x)
    | none => .unreadable

/-- Reads a number: digits without a leading zero, perhaps a fraction, perhaps an exponent. -/
def number? (cs : List Char) : Option Datum := do
  let (negative, cs) := match cs with
    | '-' :: cs => (true, cs)
    | cs => (false, cs)
  let whole := cs.takeWhile Char.isDigit
  let rest := cs.dropWhile Char.isDigit
  if whole.isEmpty || (whole.head? == some '0' && 1 < whole.length) then none
  else match rest with
    | '.' :: rest =>
      let fraction := rest.takeWhile Char.isDigit
      let rest := rest.dropWhile Char.isDigit
      if fraction.isEmpty then none
      else if rest.isEmpty then some (numberOf negative whole (some fraction) none)
      else (Decimal.readExponent? rest).map (numberOf negative whole (some fraction) ∘ some)
    | [] => some (numberOf negative whole none none)
    | rest => (Decimal.readExponent? rest).map (numberOf negative whole none ∘ some)

/-! ### Tokens -/

/-- Where the cut into tokens stands. -/
inductive Mode where
  /-- Between two tokens. -/
  | between
  /-- In a string: its characters in reverse, the first half of a surrogate pair, and whether all
  characters were readable so far. -/
  | string (done : List Char) (half : Option Nat) (sound : Bool)
  /-- Behind a backslash. -/
  | escape (done : List Char) (half : Option Nat) (sound : Bool)
  /-- In an escape by number, with its digits so far in reverse. -/
  | coded (done : List Char) (half : Option Nat) (sound : Bool) (digits : List Char)
  /-- In a number, with its characters in reverse. -/
  | number (done : List Char)
  /-- In a word, with its letters in reverse. -/
  | word (done : List Char)

/-- A string goes on with a character that was written as such. -/
def Mode.plain (done : List Char) (half : Option Nat) (sound : Bool) (c : Char) : Mode :=
  .string (c :: done) none (sound && half.isNone)

/-- A string goes on with a code unit. Two halves of a pair make one character. -/
def Mode.unit (done : List Char) (half : Option Nat) (sound : Bool) (code : Nat) : Mode :=
  match half with
  | some high =>
    if 0xDC00 ≤ code ∧ code < 0xE000 then
      .string (Char.ofNat (0x10000 + (high - 0xD800) * 0x400 + (code - 0xDC00)) :: done) none sound
    else .string done none false
  | none =>
    if 0xD800 ≤ code ∧ code < 0xDC00 then .string done (some code) sound
    else if 0xDC00 ≤ code ∧ code < 0xE000 then .string done none false
    else .string (Char.ofNat code :: done) none sound

/-- The character that a backslash and a letter stand for. -/
def escaped? : Char → Option Char
  | '"' => some '"'
  | '\\' => some '\\'
  | '/' => some '/'
  | 'b' => some '\x08'
  | 'f' => some '\x0c'
  | 'n' => some '\n'
  | 'r' => some '\r'
  | 't' => some '\t'
  | _ => none

/-- The token of a finished string. -/
def stringToken (done : List Char) (half : Option Nat) (sound : Bool) : Token :=
  .value (if sound && half.isNone then .text (String.ofList done.reverse) else .unreadable)

/-- The token of a finished word. -/
def wordToken? (done : List Char) : Option Token :=
  match String.ofList done.reverse with
  | "null" => some (.value .null)
  | "true" => some (.value (.bool true))
  | "false" => some (.value (.bool false))
  | _ => none

/-- Starts a token with a character. Characters that are tokens by themselves are given out. -/
def start? (c : Char) : Option (Mode × List Token) :=
  match c with
  | ' ' | '\t' | '\n' | '\r' => some (.between, [])
  | '[' => some (.between, [.openList])
  | ']' => some (.between, [.closeList])
  | '\x7b' => some (.between, [.openRecord])
  | '\x7d' => some (.between, [.closeRecord])
  | ',' => some (.between, [.comma])
  | ':' => some (.between, [.colon])
  | '"' => some (.string [] none true, [])
  | c =>
    if c.isDigit || c == '-' then some (.number [c], [])
    else if c.isAlpha then some (.word [c], [])
    else none

/-- One character further: the next mode and the tokens that are finished. -/
def step? (mode : Mode) (c : Char) : Option (Mode × List Token) :=
  match mode with
  | .between => start? c
  | .string done half sound =>
    if c == '"' then some (.between, [stringToken done half sound])
    else if c == '\\' then some (.escape done half sound, [])
    else if c.toNat < 0x20 then none
    else some (.plain done half sound c, [])
  | .escape done half sound =>
    if c == 'u' then some (.coded done half sound [], [])
    else (escaped? c).map fun e => (.plain done half sound e, [])
  | .coded done half sound digits =>
    if !isHexDigit c then none
    else if digits.length < 3 then some (.coded done half sound (c :: digits), [])
    else some (.unit done half sound (ofDigits 16 (c :: digits).reverse), [])
  | .number done =>
    if c.isDigit || c ∈ ['+', '-', '.', 'e', 'E'] then some (.number (c :: done), [])
    else do
      let token := Token.value (← number? done.reverse)
      let (mode, tokens) ← start? c
      return (mode, token :: tokens)
  | .word done =>
    if c.isAlpha then some (.word (c :: done), [])
    else do
      let token ← wordToken? done
      let (mode, tokens) ← start? c
      return (mode, token :: tokens)

/-- The token that the end of the text finishes. -/
def finish? : Mode → Option (List Token)
  | .between => some []
  | .number done => (number? done.reverse).map ([.value ·])
  | .word done => (wordToken? done).map ([·])
  | _ => none

/-- Cuts a text into tokens, which are collected in reverse. -/
def tokens? (mode : Mode) (found : List Token) : List Char → Option (List Token)
  | [] => (finish? mode).map fun last => (last ++ found).reverse
  | c :: cs =>
    match step? mode c with
    | some (mode, tokens) => tokens? mode (tokens.reverse ++ found) cs
    | none => none

/-! ### Values -/

/-- A container that is still open, with its contents in reverse. -/
inductive Frame where
  | list (items : List Datum)
  | record (members : List (String × Datum)) (sound : Bool) (name : Option String)

/-- What may come next. -/
inductive Expect where
  | value
  /-- A value, or the end of the list that was just opened. -/
  | item
  | name
  /-- A name, or the end of the record that was just opened. -/
  | member
  | colon
  /-- A comma or the end of the innermost container. -/
  | next
  /-- The end of the text. -/
  | done (d : Datum)

/-- A container that is closed. -/
def Frame.close : Frame → Datum
  | .list items => .list items.reverse
  | .record members sound _ => if sound then .record members.reverse else .unreadable

/-- Puts a finished value into the innermost container. -/
def deliver (d : Datum) : List Frame → Expect × List Frame
  | [] => (.done d, [])
  | .list items :: frames => (.next, .list (d :: items) :: frames)
  | .record members sound name :: frames =>
    match name with
    | some name => (.next, .record ((name, d) :: members) sound none :: frames)
    | none => (.next, .record members false none :: frames)

/-- Gives the record on top of the stack the name of its next member. -/
def nameMember (d : Datum) : List Frame → Option (Expect × List Frame)
  | .record members sound _ :: frames =>
    match d with
    | .text s => some (.colon, .record members sound (some s) :: frames)
    | .unreadable => some (.colon, .record members false none :: frames)
    | _ => none
  | _ => none

/-- One token further. -/
def advance? (expect : Expect) (frames : List Frame) (token : Token) :
    Option (Expect × List Frame) :=
  match expect, token with
  | .value, .value d | .item, .value d => some (deliver d frames)
  | .value, .openList | .item, .openList => some (.item, .list [] :: frames)
  | .value, .openRecord | .item, .openRecord => some (.member, .record [] true none :: frames)
  | .name, .value d | .member, .value d => nameMember d frames
  | .colon, .colon => some (.value, frames)
  | .item, .closeList | .next, .closeList =>
    match frames with
    | .list items :: frames => some (deliver (Frame.list items).close frames)
    | _ => none
  | .member, .closeRecord | .next, .closeRecord =>
    match frames with
    | .record members sound name :: frames =>
      some (deliver (Frame.record members sound name).close frames)
    | _ => none
  | .next, .comma =>
    match frames with
    | .list _ :: _ => some (.value, frames)
    | .record .. :: _ => some (.name, frames)
    | [] => none
  | _, _ => none

/-- Puts tokens together to one value. -/
def assemble? (expect : Expect) (frames : List Frame) : List Token → Option Datum
  | [] =>
    match expect with
    | .done d => some d
    | _ => none
  | token :: tokens =>
    match advance? expect frames token with
    | some (expect, frames) => assemble? expect frames tokens
    | none => none

/-- Reads a text that holds one value. -/
def read? (text : String) : Option Datum :=
  (tokens? .between [] text.toList).bind (assemble? .value [])

end Arbor.Json
