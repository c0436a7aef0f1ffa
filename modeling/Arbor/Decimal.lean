/-!
Decimal numbers and the binary numbers next to them. A decimal is a sign, a whole number and a power
of ten. `Decimal.nearest` gives the double that lies nearest to it, with ties going to the even
significand; a value past the largest double becomes infinite, and one too close to zero becomes
zero.
-/

namespace Arbor

/-- The value of a digit in bases up to sixteen. -/
def digitValue (c : Char) : Nat :=
  if c.isDigit then c.toNat - '0'.toNat
  else if 'a' ≤ c ∧ c ≤ 'f' then c.toNat - 'a'.toNat + 10
  else c.toNat - 'A'.toNat + 10

/-- Whether a character is a digit of base sixteen. -/
def isHexDigit (c : Char) : Bool :=
  c.isDigit || ('a' ≤ c && c ≤ 'f') || ('A' ≤ c && c ≤ 'F')

/-- The number that digits stand for in a base, the leading digit first. -/
def ofDigits (base : Nat) (digits : List Char) : Nat :=
  digits.foldl (fun n c => n * base + digitValue c) 0

/-- The digits of a number in base sixteen, padded with zeros up to a width. -/
def hexDigits (width n : Nat) : String :=
  let digits := Nat.toDigits 16 n
  String.ofList (List.replicate (width - digits.length) '0' ++ digits)

/-- The character whose code is written in base sixteen. -/
def charOfHex? (digits : List Char) : Option Char :=
  let n := ofDigits 16 digits
  if !digits.isEmpty && digits.all isHexDigit && decide n.isValidChar then some (Char.ofNat n)
  else none

/-- The number `(-1) ^ negative * digits * 10 ^ scale`. -/
structure Decimal where
  negative : Bool
  digits : Nat
  scale : Int
  deriving DecidableEq, Repr

namespace Decimal

/-- The quotient rounded to the nearest whole number, a half to the even one. -/
def roundHalfEven (num den : Nat) : Nat :=
  let q := num / den
  let twice := 2 * (num % den)
  if twice < den then q
  else if den < twice then q + 1
  else q + q % 2

/-- The bits of the double nearest to the positive fraction `num / den`. The significand gets 53
bits, or fewer when the exponent would fall below the least one. -/
def nearestBits (num den : Nat) : Nat :=
  let guess : Int := (num.log2 : Int) - den.log2 - 53
  let quotient (q : Int) : Nat × Nat :=
    if 0 ≤ q then (num, den <<< q.toNat) else (num <<< (-q).toNat, den)
  let (n, d) := quotient guess
  let exponent := max (if 1 <<< 53 ≤ n / d then guess + 1 else guess) (-1074)
  let (n, d) := quotient exponent
  -- A significand that rounds up to 2 ^ 53 carries into the exponent, as it should.
  min ((exponent + 1074).toNat <<< 52 + roundHalfEven n d) (2047 <<< 52)

/-- The number of decimal digits. -/
def width (d : Decimal) : Nat :=
  (Nat.toDigits 10 d.digits).length

/-- The double nearest to a decimal. -/
def nearest (d : Decimal) : Float :=
  let magnitude : Float :=
    if d.digits = 0 then 0
    -- Past these bounds the answer no longer depends on the digits.
    else if d.width + d.scale > 400 then 1 / 0
    else if d.width + d.scale < -400 then 0
    else if 0 ≤ d.scale then
      Float.ofBits (nearestBits (d.digits * Nat.pow 10 d.scale.toNat) 1).toUInt64
    else Float.ofBits (nearestBits d.digits (Nat.pow 10 (-d.scale).toNat)).toUInt64
  if d.negative then -magnitude else magnitude

/-- Splits off a leading sign. -/
def splitSign : List Char → Bool × List Char
  | '-' :: cs => (true, cs)
  | '+' :: cs => (false, cs)
  | cs => (false, cs)

/-- An exponent: nothing, or a mark with an optional sign and at least one digit. -/
def readExponent? : List Char → Option Int
  | [] => some 0
  | c :: cs =>
    let (negative, digits) := splitSign cs
    if (c == 'e' || c == 'E') && !digits.isEmpty && digits.all Char.isDigit then
      let n : Int := ofDigits 10 digits
      some (if negative then -n else n)
    else none

/-- Reads a decimal: a sign, digits with a point among or around them, an exponent. The sign, the
point and the exponent may be missing, and at least one digit stands beside the point. -/
def read? (cs : List Char) : Option Decimal := do
  let (negative, cs) := splitSign cs
  let whole := cs.takeWhile Char.isDigit
  let rest := cs.dropWhile Char.isDigit
  let (fraction, rest) := match rest with
    | '.' :: rest => (rest.takeWhile Char.isDigit, rest.dropWhile Char.isDigit)
    | rest => ([], rest)
  if whole.isEmpty && fraction.isEmpty then none
  else
    let exponent ← readExponent? rest
    some ⟨negative, ofDigits 10 (whole ++ fraction), exponent - fraction.length⟩

end Decimal

end Arbor
