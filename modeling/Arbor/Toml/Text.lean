import Arbor.Decimal

/-!
The texts of TOML: in double quotes with escapes or in single quotes without, on one line or, in
three quotes, on several. Each reader is given what follows the opening quotes, and gives back what
follows the closing ones.
-/

namespace Arbor.Toml

/-- Whether a character may stand in a text as such: a tab, or no control character. -/
def isPlain (c : Char) : Bool :=
  c == '\t' || (0x20 ≤ c.toNat && c.toNat != 0x7F)

/-- Whether a character separates words on a line. -/
def isGap (c : Char) : Bool := c == ' ' || c == '\t'

/-- Passes over the blanks of a line. -/
def skipGap (cs : List Char) : List Char := cs.dropWhile isGap

/-- Whether a text starts with the end of a line. -/
def startsLine : List Char → Bool
  | '\n' :: _ => true
  | '\r' :: '\n' :: _ => true
  | _ => false

/-- Passes over one end of a line. -/
def skipLine : List Char → List Char
  | '\n' :: cs => cs
  | '\r' :: '\n' :: cs => cs
  | cs => cs

/-- Passes over blanks, ends of lines and comments. A comment may not hold control characters. The
flag tells whether a comment has been entered. -/
def skipFill (comment : Bool) : List Char → Option (List Char)
  | [] => some []
  | '\n' :: cs => skipFill false cs
  | '\r' :: '\n' :: cs => skipFill false cs
  | c :: cs =>
    if comment then if isPlain c then skipFill true cs else none
    else if isGap c then skipFill false cs
    else if c == '#' then skipFill true cs
    else some (c :: cs)

/-- The character that a backslash and a letter stand for. -/
def escaped? : Char → Option Char
  | 'b' => some '\x08'
  | 't' => some '\t'
  | 'n' => some '\n'
  | 'f' => some '\x0c'
  | 'r' => some '\r'
  | 'e' => some '\x1b'
  | '"' => some '"'
  | '\\' => some '\\'
  | _ => none

/-- Reads a text in double quotes. -/
def readBasic (done : List Char) : List Char → Option (String × List Char)
  | [] => none
  | '"' :: cs => some (String.ofList done.reverse, cs)
  | '\\' :: 'x' :: c₁ :: c₂ :: cs =>
    match charOfHex? [c₁, c₂] with
    | some c => readBasic (c :: done) cs
    | none => none
  | '\\' :: 'u' :: c₁ :: c₂ :: c₃ :: c₄ :: cs =>
    match charOfHex? [c₁, c₂, c₃, c₄] with
    | some c => readBasic (c :: done) cs
    | none => none
  | '\\' :: 'U' :: c₁ :: c₂ :: c₃ :: c₄ :: c₅ :: c₆ :: c₇ :: c₈ :: cs =>
    match charOfHex? [c₁, c₂, c₃, c₄, c₅, c₆, c₇, c₈] with
    | some c => readBasic (c :: done) cs
    | none => none
  | '\\' :: c :: cs =>
    match escaped? c with
    | some c => readBasic (c :: done) cs
    | none => none
  | c :: cs => if isPlain c then readBasic (c :: done) cs else none

/-- Reads a text in three double quotes, which may hold one or two of them anywhere. A backslash at
the end of a line takes the line end away, and all blanks and line ends after it. The flag tells
whether such blanks are being passed over. -/
def readBasicBlock (skipping : Bool) (done : List Char) : List Char → Option (String × List Char)
  | [] => none
  | '"' :: '"' :: '"' :: '"' :: '"' :: cs => some (String.ofList ('"' :: '"' :: done).reverse, cs)
  | '"' :: '"' :: '"' :: '"' :: cs => some (String.ofList ('"' :: done).reverse, cs)
  | '"' :: '"' :: '"' :: cs => some (String.ofList done.reverse, cs)
  | '\\' :: 'x' :: c₁ :: c₂ :: cs =>
    match charOfHex? [c₁, c₂] with
    | some c => readBasicBlock false (c :: done) cs
    | none => none
  | '\\' :: 'u' :: c₁ :: c₂ :: c₃ :: c₄ :: cs =>
    match charOfHex? [c₁, c₂, c₃, c₄] with
    | some c => readBasicBlock false (c :: done) cs
    | none => none
  | '\\' :: 'U' :: c₁ :: c₂ :: c₃ :: c₄ :: c₅ :: c₆ :: c₇ :: c₈ :: cs =>
    match charOfHex? [c₁, c₂, c₃, c₄, c₅, c₆, c₇, c₈] with
    | some c => readBasicBlock false (c :: done) cs
    | none => none
  | '\\' :: c :: cs =>
    match escaped? c with
    | some c => readBasicBlock false (c :: done) cs
    | none => if startsLine (skipGap (c :: cs)) then readBasicBlock true done cs else none
  | '\r' :: '\n' :: cs =>
    readBasicBlock skipping (if skipping then done else '\n' :: '\r' :: done) cs
  | c :: cs =>
    if skipping && (isGap c || c == '\n') then readBasicBlock true done cs
    else if isPlain c || c == '\n' then readBasicBlock false (c :: done) cs
    else none

/-- Reads a text in single quotes. -/
def readLiteral (cs : List Char) : Option (String × List Char) :=
  let content := cs.takeWhile (· != '\x27')
  match cs.dropWhile (· != '\x27') with
  | _ :: rest => if content.all isPlain then some (String.ofList content, rest) else none
  | [] => none

/-- Reads a text in three single quotes, which may hold one or two of them anywhere. -/
def readLiteralBlock (done : List Char) : List Char → Option (String × List Char)
  | [] => none
  | '\x27' :: '\x27' :: '\x27' :: '\x27' :: '\x27' :: cs =>
    some (String.ofList ('\x27' :: '\x27' :: done).reverse, cs)
  | '\x27' :: '\x27' :: '\x27' :: '\x27' :: cs => some (String.ofList ('\x27' :: done).reverse, cs)
  | '\x27' :: '\x27' :: '\x27' :: cs => some (String.ofList done.reverse, cs)
  | '\r' :: '\n' :: cs => readLiteralBlock ('\n' :: '\r' :: done) cs
  | c :: cs => if isPlain c || c == '\n' then readLiteralBlock (c :: done) cs else none

end Arbor.Toml
