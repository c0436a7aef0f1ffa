import Arbor.Datum
import Arbor.Decimal

/-!
The truth values, numbers and dates of TOML. Digits may be set apart by single underscores. Dates
are checked, but there is no use for them.
-/

namespace Arbor.Toml

/-- Takes the underscores out of digits, each of which has to stand between two digits. -/
def digits? (isDigit : Char → Bool) : List Char → Option (List Char)
  | [] => none
  | [c] => if isDigit c then some [c] else none
  | c :: '_' :: cs => if isDigit c then (digits? isDigit cs).map (c :: ·) else none
  | c :: cs => if isDigit c then (digits? isDigit cs).map (c :: ·) else none

/-- Digits without a leading zero. -/
def wholeDigits? (cs : List Char) : Option (List Char) := do
  let digits ← digits? Char.isDigit cs
  if digits.head? == some '0' && 1 < digits.length then none else some digits

/-- A whole number. It has to fit into 128 bits, and there is no use for one that does not fit into
64. -/
def ofInteger? (i : Int) : Option Datum :=
  if -signedBound ≤ i && i < wordBound then some (.integer i)
  else if -(signedBound * wordBound) ≤ i && i < wordBound * wordBound then some .unreadable
  else none

/-- Reads a whole number: in base ten with an optional sign, or without one in another base that is
marked by its first two characters. -/
def integer? : List Char → Option Datum
  | '0' :: 'x' :: cs => do ofInteger? (ofDigits 16 (← digits? isHexDigit cs))
  | '0' :: 'o' :: cs => do ofInteger? (ofDigits 8 (← digits? (fun c => '0' ≤ c && c ≤ '7') cs))
  | '0' :: 'b' :: cs => do ofInteger? (ofDigits 2 (← digits? (fun c => c == '0' || c == '1') cs))
  | cs => do
    let (negative, cs) := Decimal.splitSign cs
    let n : Int := ofDigits 10 (← wholeDigits? cs)
    ofInteger? (if negative then -n else n)

/-- Whether a character ends the whole part of a number. -/
def endsWhole (c : Char) : Bool := c == '.' || c == 'e' || c == 'E'

/-- Reads what follows the mark of an exponent. -/
def exponent? (cs : List Char) : Option Int := do
  let (negative, cs) := Decimal.splitSign cs
  let n : Int := ofDigits 10 (← digits? Char.isDigit cs)
  return if negative then -n else n

/-- The double nearest to a decimal, which may not be too large. -/
def finite? (d : Decimal) : Option Datum :=
  let x := d.nearest
  if x.isInf then none else some (.decimal x)

/-- Reads a number with a fraction, an exponent, or both. -/
def fractional? (cs : List Char) : Option Datum := do
  let (negative, cs) := Decimal.splitSign cs
  let whole ← wholeDigits? (cs.takeWhile (!endsWhole ·))
  match cs.dropWhile (!endsWhole ·) with
  | [] => none
  | '.' :: rest => do
    let fraction ← digits? Char.isDigit (rest.takeWhile (!endsWhole ·))
    let exponent ← match rest.dropWhile (!endsWhole ·) with
      | [] => some 0
      | '.' :: _ => none
      | _ :: rest => exponent? rest
    finite? ⟨negative, ofDigits 10 (whole ++ fraction), exponent - fraction.length⟩
  | _ :: rest => do finite? ⟨negative, ofDigits 10 whole, ← exponent? rest⟩

/-- Reads the numbers that are written as words. -/
def special? (cs : List Char) : Option Datum :=
  let (negative, cs) := Decimal.splitSign cs
  match String.ofList cs with
  | "inf" => some (.decimal (if negative then -1 / 0 else 1 / 0))
  | "nan" => some (.decimal (0 / 0))
  | _ => none

/-! ### Dates -/

/-- Takes a number of a fixed width off a text. -/
def fixed? (width : Nat) (cs : List Char) : Option (Nat × List Char) :=
  let digits := cs.take width
  if digits.length = width && digits.all Char.isDigit then
    some (ofDigits 10 digits, cs.drop width)
  else none

/-- Takes a character off a text. -/
def mark? (c : Char) (cs : List Char) : Option (List Char) :=
  if cs.head? == some c then some cs.tail else none

/-- The number of days of a month. -/
def daysIn (year month : Nat) : Nat :=
  if month = 2 then if year % 4 = 0 && (year % 100 != 0 || year % 400 = 0) then 29 else 28
  else if [4, 6, 9, 11].contains month then 30
  else 31

/-- Takes a date off a text. -/
def date? (cs : List Char) : Option (List Char) := do
  let (year, cs) ← fixed? 4 cs
  let (month, cs) ← fixed? 2 (← mark? '-' cs)
  let (day, cs) ← fixed? 2 (← mark? '-' cs)
  if 1 ≤ month && month ≤ 12 && 1 ≤ day && day ≤ daysIn year month then some cs else none

/-- Takes the seconds of a time of day off a text, and a fraction of them if there is one. -/
def seconds? (cs : List Char) : Option (List Char) := do
  let (second, cs) ← fixed? 2 cs
  guard (second ≤ 60)
  match cs with
  | '.' :: rest =>
    if rest.head?.any Char.isDigit then some (rest.dropWhile Char.isDigit) else none
  | cs => some cs

/-- Takes a time of day off a text, which may do without seconds. -/
def time? (cs : List Char) : Option (List Char) := do
  let (hour, cs) ← fixed? 2 cs
  let (minute, cs) ← fixed? 2 (← mark? ':' cs)
  guard (hour ≤ 23 && minute ≤ 59)
  match cs with
  | ':' :: rest => seconds? rest
  | cs => some cs

/-- Whether a text is a distance from universal time, or nothing at all. -/
def isOffset : List Char → Bool
  | [] => true
  | ['Z'] => true
  | ['z'] => true
  | c :: cs =>
    (c == '+' || c == '-') && Option.any (fun p => p.1 ≤ 23 &&
      ((mark? ':' p.2).bind (fixed? 2)).any fun q => q.1 ≤ 59 && q.2.isEmpty) (fixed? 2 cs)

/-- Whether a text is a date, a time of day, or both with an optional offset. -/
def isMoment (cs : List Char) : Bool :=
  match date? cs with
  | some [] => true
  | some (c :: rest) => (c == 'T' || c == 't') && (time? rest).any isOffset
  | none => time? cs == some []

/-! ### All of them -/

/-- Whether a character can stand in a truth value, a number or a date. -/
def isScalarChar (c : Char) : Bool :=
  c.isAlphanum || ['+', '-', '_', '.', ':'].contains c

/-- The value that a word stands for. -/
def scalar? (word : List Char) : Option Datum :=
  match String.ofList word with
  | "true" => some (.bool true)
  | "false" => some (.bool false)
  | _ =>
    ((integer? word).or (fractional? word)).or <|
      (special? word).or (if isMoment word then some .unreadable else none)

/-- Reads a truth value, a number or a date. A single blank may divide a date and a time. -/
def readScalar (cs : List Char) : Option (Datum × List Char) :=
  let word := cs.takeWhile isScalarChar
  let rest := cs.drop word.length
  match date? word, rest with
  | some [], ' ' :: c :: more =>
    if c.isDigit then
      let time := (c :: more).takeWhile isScalarChar
      (scalar? (word ++ 'T' :: time)).map (·, (c :: more).drop time.length)
    else (scalar? word).map (·, rest)
  | _, _ => (scalar? word).map (·, rest)

end Arbor.Toml
