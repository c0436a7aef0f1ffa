import Arbor.Text.Fold

/-!
The switches of written regular expressions, and the blanks and comments that one of them lets a
reader pass over.
-/

namespace Arbor.Regex

/-- A switch that changes how an expression is meant. -/
inductive Flag where
  | foldsCase
  | multiline
  | dotAll
  /-- Exchanges greedy and lazy repetition. -/
  | swapsGreed
  | unicode
  /-- Lines end at carriage returns too. -/
  | returns
  /-- Blanks and comments say nothing. -/
  | spaced
  deriving DecidableEq, Repr

/-- The flag with a letter. -/
def Flag.ofChar? : Char → Option Flag
  | 'i' => some .foldsCase
  | 'm' => some .multiline
  | 's' => some .dotAll
  | 'U' => some .swapsGreed
  | 'u' => some .unicode
  | 'R' => some .returns
  | 'x' => some .spaced
  | _ => none

/-- Flags and whether they are set or cleared. -/
abbrev Changes := List (Flag × Bool)

/-- Reads flags, of which those after a minus sign are cleared. None may be given twice. -/
def readChanges (cs : List Char) : Option Changes := do
  let set ← (cs.takeWhile (· != '-')).mapM Flag.ofChar?
  let cleared ← match cs.dropWhile (· != '-') with
    | [] => some []
    | [_] => none
    | _ :: rest => rest.mapM Flag.ofChar?
  let changes := set.map (·, true) ++ cleared.map (·, false)
  if (changes.map (·.1)).Nodup then some changes else none

/-- The flags in force. -/
structure Flags where
  foldsCase : Bool := false
  multiline : Bool := false
  dotAll : Bool := false
  unicode : Bool := true
  returns : Bool := false
  spaced : Bool := false
  deriving DecidableEq, Repr

namespace Flags

/-- The flags after a change. -/
def change (f : Flags) : Flag × Bool → Flags
  | (.foldsCase, b) => { f with foldsCase := b }
  | (.multiline, b) => { f with multiline := b }
  | (.dotAll, b) => { f with dotAll := b }
  | (.swapsGreed, _) => f
  | (.unicode, b) => { f with unicode := b }
  | (.returns, b) => { f with returns := b }
  | (.spaced, b) => { f with spaced := b }

/-- The flags after several changes. -/
def changeAll (f : Flags) (changes : Changes) : Flags := changes.foldl change f

/-- A set with the characters that differ in case only, where case does not matter. -/
def folded (f : Flags) (s : CharSet) : CharSet :=
  if f.foldsCase then if f.unicode then s.withCases else s.withAsciiCases else s

/-- A set or, if it is negated, what is outside it. Without Unicode, texts are read as bytes, and
the bytes outside a set of ASCII characters need not make up characters. -/
def negated? (f : Flags) (negated : Bool) (s : CharSet) : Option CharSet :=
  if !negated then some s else if f.unicode then some s.compl else none

/-! ### Blanks and comments -/

/-- Passes over blanks and over comments up to the ends of their lines. The first argument tells
whether a comment has been entered. -/
def skipSpaces (comment : Bool) : List Char → List Char
  | [] => []
  | c :: cs =>
    if comment then skipSpaces (c != '\n') cs
    else if isBlank c then skipSpaces false cs
    else if c == '#' then skipSpaces true cs
    else c :: cs

/-- Passes over what says nothing. -/
def skip (f : Flags) (cs : List Char) : List Char :=
  if f.spaced then skipSpaces false cs else cs

/-- Takes a number of characters off a text, apart from those that say nothing. -/
def take? (f : Flags) (comment : Bool) : Nat → List Char → Option (List Char × List Char)
  | 0, cs => some ([], cs)
  | _ + 1, [] => none
  | width + 1, c :: cs =>
    if comment then f.take? (c != '\n') (width + 1) cs
    else if f.spaced && isBlank c then f.take? false (width + 1) cs
    else if f.spaced && c == '#' then f.take? true (width + 1) cs
    else (f.take? false width cs).map fun (taken, rest) => (c :: taken, rest)

/-- Takes off what stands before a closing brace, apart from what says nothing, and the brace. -/
def takeBraced? (f : Flags) (comment : Bool) : List Char → Option (List Char × List Char)
  | [] => none
  | c :: cs =>
    if comment then f.takeBraced? (c != '\n') cs
    else if f.spaced && isBlank c then f.takeBraced? false cs
    else if f.spaced && c == '#' then f.takeBraced? true cs
    else if c == '\x7d' then some ([], cs)
    else (f.takeBraced? false cs).map fun (taken, rest) => (c :: taken, rest)

/-- The next character that is no blank, passing over the start of a comment at most. If there is
none, it is the next character of all. -/
def peek? (f : Flags) (cs : List Char) : Option Char :=
  if f.spaced then
    let next := match cs.dropWhile isBlank with
      | '#' :: rest => (rest.dropWhile isBlank).head?
      | rest => rest.head?
    next.or cs.head?
  else cs.head?

end Flags

end Arbor.Regex
