import Arbor.Regex.CharClass
import Arbor.Regex.Search
import Arbor.Regex.Size
import Arbor.Text.Printable

/-!
The written form of regular expressions. A text is cut into tokens, of which a bracketed class of
characters is one, and the tokens are put together by means of a stack of open groups. Back
references and looks ahead or behind are not regular and have no written form, and neither have
expressions that are nested too deeply or come to too large an automaton.
-/

namespace Arbor.Regex

/-! ### Tokens -/

/-- A piece of a written expression. -/
inductive Token where
  /-- An expression, with the number of levels at which its parts lie in each other. -/
  | item (r : Regex) (depth : Nat)
  | bar
  /-- The start of a group. It is numbered unless it has flags, and may have a name. -/
  | opening (numbered : Bool) (name : Option String) (changes : Changes)
  | closing
  /-- Flags for the rest of the group. -/
  | flags (changes : Changes)
  | count (least : Nat) (most : Option Nat)

/-- A character by itself. Without Unicode it may not be a byte beyond ASCII. -/
def literal? (f : Flags) (c : Char) (byte : Bool) : Option Regex :=
  if f.unicode then some (ofSet (f.folded (.single c.toNat)))
  else if c.toNat < 0x80 then some (ofSet (f.folded (.single c.toNat)))
  else if byte then none
  else some (text [c])

/-- Any character but the end of a line, or any character at all. Without Unicode it could be a byte
that makes up no character. -/
def dot? (f : Flags) : Option Regex :=
  if !f.unicode then none
  else if f.dotAll then some (letter .all)
  else if f.returns then some (letter (CharSet.compl (.ofRuns "A D")))
  else some (letter (CharSet.compl (.single 0xA)))

/-- The start of a text or, if there are several lines, of a line. -/
def caret (f : Flags) : Regex :=
  place (if f.multiline then .lineStart f.returns else .textStart)

/-- The end of a text or, if there are several lines, of a line. -/
def dollar (f : Flags) : Regex :=
  place (if f.multiline then .lineEnd f.returns else .textEnd)

/-- Reads the name of a group up to the bracket that closes it. -/
def readName (cs : List Char) : Option (Token × List Char) := do
  let name := cs.takeWhile (· != '>')
  let '>' :: rest := cs.dropWhile (· != '>') | none
  let c :: more := name | none
  guard (c == '_' || isAlphabetic c)
  guard (more.all fun c => ['_', '.', '[', ']'].contains c || isAlphabetic c || isNumeric c)
  return (.opening true (some (String.ofList name)) [], rest)

/-- Reads the start of a group, of which the parenthesis is read. -/
def readOpening : List Char → Option (Token × List Char)
  | '?' :: 'P' :: '<' :: cs => readName cs
  | '?' :: '<' :: cs => readName cs
  | '?' :: cs => do
    let flags := cs.takeWhile fun c => c != ':' && c != ')'
    let changes ← readChanges flags
    match cs.drop flags.length with
    | ':' :: rest => return (.opening false none changes, rest)
    | ')' :: rest => if flags.isEmpty then none else return (.flags changes, rest)
    | _ => none
  | cs => some (.opening true none [], cs)

/-- Takes a number of 32 bits with blanks around it off a text, if there is one. -/
def readNumber (cs : List Char) : Option (Option Nat × List Char) :=
  let cs := cs.dropWhile isBlank
  let digits := cs.takeWhile Char.isDigit
  let rest := (cs.drop digits.length).dropWhile isBlank
  if digits.isEmpty then some (none, rest)
  else if ofDigits 10 digits < 0x100000000 then some (some (ofDigits 10 digits), rest)
  else none

/-- Reads what stands between the braces of a count. The lower bound may not be left out. -/
def readBounds (cs : List Char) : Option (Nat × Option Nat) := do
  let (least?, rest) ← readNumber cs
  let least ← least?
  match rest with
  | [] => return (least, some least)
  | [','] => return (least, none)
  | ',' :: rest => do
    let (most?, rest) ← readNumber rest
    let most ← most?
    guard (rest.isEmpty && least ≤ most)
    return (least, some most)
  | _ => none

/-- Passes over the mark that makes a repetition lazy, which says nothing about whether there is a
match. -/
def skipLazy : List Char → List Char
  | '?' :: cs => cs
  | cs => cs

/-- Passes over the mark that makes a repetition lazy, if there is one behind what says nothing. -/
def skipSpacedLazy (f : Flags) (cs : List Char) : List Char :=
  match f.skip cs with
  | '?' :: rest => rest
  | _ => cs

/-- Reads the first token of a text. -/
def readToken (f : Flags) : List Char → Option (Token × List Char)
  | [] => none
  | '\\' :: cs => do
    match ← readEscape f cs with
    | (.literal c byte, rest) => return (.item (← literal? f c byte) 0, rest)
    | (.cls s, rest) => return (.item (ofSet s) 0, rest)
    | (.place p, rest) => return (.item (place p) 0, rest)
  | '[' :: cs => do
    let (c, rest) ← readClass f (2 * cs.length + 2) cs
    return (.item (ofSet c.set) c.depth, rest)
  | '(' :: cs => readOpening (f.skip cs)
  | '\x7b' :: cs => do
    let (bounds, rest) ← f.takeBraced? false cs
    let (least, most) ← readBounds bounds
    return (.count least most, skipSpacedLazy f rest)
  | '*' :: cs => some (.count 0 none, skipLazy cs)
  | '+' :: cs => some (.count 1 none, skipLazy cs)
  | '?' :: cs => some (.count 0 (some 1), skipLazy cs)
  | ')' :: cs => some (.closing, cs)
  | '|' :: cs => some (.bar, cs)
  | '.' :: cs => (dot? f).map (.item · 0, cs)
  | '^' :: cs => some (.item (caret f) 0, cs)
  | '$' :: cs => some (.item (dollar f) 0, cs)
  | c :: cs => (literal? f c false).map (.item · 0, cs)

/-- The flags in force behind a token, for the current group and the groups around it. -/
def Token.flagsAfter (f : Flags) (outer : List Flags) : Token → Option (Flags × List Flags)
  | opening _ _ changes => some (f.changeAll changes, f :: outer)
  | flags changes => some (f.changeAll changes, outer)
  | closing =>
    match outer with
    | [] => none
    | f :: outer => some (f, outer)
  | _ => some (f, outer)

/-- Cuts a text into tokens, given the flags of the current group and of the groups around it. Each
token takes up a character at least, so the length of the text bounds their number. -/
def readTokens : Nat → Flags → List Flags → List Char → Option (List Token)
  | 0, f, _, cs => if (f.skip cs).isEmpty then some [] else none
  | steps + 1, f, outer, cs =>
    match f.skip cs with
    | [] => some []
    | cs => do
      let (t, rest) ← readToken f cs
      let (f, outer) ← t.flagsAfter f outer
      return t :: (← readTokens steps f outer rest)

/-- The name of the group that a token starts. -/
def Token.name? : Token → Option String
  | opening _ name _ => name
  | _ => none

/-! ### Groups -/

/-- A part of a branch: an expression with the depth of its parts, or a change of flags, which
cannot be repeated. -/
structure Item where
  expr? : Option Regex
  depth : Nat := 0

/-- The depth of several items: one level more than the deepest, unless there is one alone. -/
def depthOf : List Nat → Nat
  | [] => 0
  | [d] => d
  | ds => ds.foldr max 0 + 1

/-- The part of a group that has been read. -/
structure Level where
  /-- The number of the group, if it is numbered. -/
  number : Option Nat := none
  /-- The branches that are complete with their depths, the last one first. -/
  branches : List (Regex × Nat) := []
  /-- The items of the current branch, the last one first. -/
  items : List Item := []

namespace Level

/-- The level with one more expression in its branch. -/
def add (l : Level) (r : Regex) (depth : Nat) : Level :=
  { l with items := ⟨some r, depth⟩ :: l.items }

/-- What stands in the branch that is being read. -/
def branch (l : Level) : Regex × Nat :=
  (inOrder (l.items.reverse.filterMap Item.expr?), depthOf (l.items.map Item.depth))

/-- What stands in the group. -/
def close (l : Level) : Regex × Nat :=
  let all := (l.branch :: l.branches).reverse
  (oneOf (all.map (·.1)), depthOf (all.map (·.2)))

/-- What the group as a whole stands for. -/
def closeGroup (l : Level) : Regex × Nat :=
  let (r, depth) := l.close
  match l.number with
  | some n => (group n r, depth + 1)
  | none => (r, depth + 1)

/-- Takes in a token, given the group it stands in, the groups around it and the number of the next
group. -/
def step (l : Level) (outer : List Level) (next : Nat) :
    Token → Option (Level × List Level × Nat)
  | .item r depth => some (l.add r depth, outer, next)
  | .bar => some ({ l with branches := l.branch :: l.branches, items := [] }, outer, next)
  | .opening true _ _ => some ({ number := some next }, l :: outer, next + 1)
  | .opening false _ _ => some ({}, l :: outer, next)
  | .closing =>
    match outer with
    | [] => none
    | o :: outer =>
      let (r, depth) := l.closeGroup
      some (o.add r depth, outer, next)
  | .flags _ => some ({ l with items := ⟨none, 0⟩ :: l.items }, outer, next)
  | .count least most =>
    match l.items with
    | ⟨some r, depth⟩ :: items =>
      some ({ l with items := ⟨some (r.times least most), depth + 1⟩ :: items }, outer, next)
    | _ => none

end Level

/-- How many levels the parts of an expression may lie in each other. -/
def nestLimit : Nat := 250

/-- Puts tokens together. Every group has to be closed. -/
def assemble : Level → List Level → Nat → List Token → Option (Regex × Nat)
  | l, [], _, [] => some l.close
  | _, _ :: _, _, [] => none
  | l, outer, next, t :: ts =>
    match l.step outer next t with
    | some (l, outer, next) => assemble l outer next ts
    | none => none

/-- Reads a regular expression, in which no two groups may have the same name. -/
def read? (source : String) : Option Regex := do
  let tokens ← readTokens source.length {} [] source.toList
  guard (tokens.filterMap Token.name?).Nodup
  let (r, depth) ← assemble {} [] 1 tokens
  guard (depth ≤ nestLimit && r.fits)
  return r

end Arbor.Regex
