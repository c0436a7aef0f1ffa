import Arbor.Regex.Flags
import Arbor.Regex.Place
import Arbor.Text.Property

/-!
The written forms of single characters, of classes of characters and of places in regular
expressions: escapes, and classes in brackets with their operations. Every reader takes off what it
reads and gives back the rest.
-/

namespace Arbor.Regex

/-! ### Escapes -/

/-- What a backslash can introduce. -/
inductive Escape where
  /-- A character, and whether it is given by the two digits of a byte. -/
  | literal (c : Char) (byte : Bool)
  | cls (s : CharSet)
  | place (p : Place)
  deriving DecidableEq, Repr

/-- Reads a code of a fixed number of digits, or of any number between braces. -/
def readCode (f : Flags) (width : Nat) (cs : List Char) : Option (Escape × List Char) :=
  match f.skip cs with
  | '\x7b' :: cs => do
    let (digits, rest) ← f.takeBraced? false cs
    return (.literal (← charOfHex? digits) false, rest)
  | cs => do
    let (digits, rest) ← f.take? false width cs
    return (.literal (← charOfHex? digits) (width == 2), rest)

/-- Reads what follows a `b`: the edge of a word, or only one kind of edge if a name in braces says
which. Braces around anything but a name belong to a count. -/
def readEdge (f : Flags) : List Char → Option (Escape × List Char)
  | '\x7b' :: cs => do
    let (name, rest) ← f.takeBraced? false cs
    if name.head?.any fun c => c.isAlpha || c == '-' then
      let kind ← match String.ofList name with
        | "start" => some Edge.start
        | "end" => some Edge.stop
        | "start-half" => some Edge.startHalf
        | "end-half" => some Edge.stopHalf
        | _ => none
      return (.place (.word (!f.unicode) kind), rest)
    else return (.place (.word (!f.unicode) .any), '\x7b' :: cs)
  | cs => some (.place (.word (!f.unicode) .any), cs)

/-- Divides a text at the first place where another starts. -/
def cutAt? (mark : List Char) : List Char → Option (List Char × List Char)
  | [] => none
  | c :: cs =>
    if mark.isPrefixOf (c :: cs) then some ([], (c :: cs).drop mark.length)
    else (cutAt? mark cs).map fun (l, r) => (c :: l, r)

/-- The set with a name, or with a property and a value between which one of several signs stands.
Tells also whether that sign is the one for "differs from". -/
def property? (name : List Char) : Option (Bool × CharSet) :=
  match cutAt? ['!', '='] name, (cutAt? [':'] name).or (cutAt? ['='] name) with
  | some (property, value), _ => (Property.valued? property value).map (true, ·)
  | none, some (property, value) => (Property.valued? property value).map (false, ·)
  | none, none => (Property.named? name).map (false, ·)

/-- Reads the name of a property, which is a single letter or stands in braces. -/
def readProperty (f : Flags) (negated : Bool) (cs : List Char) : Option (Escape × List Char) := do
  guard f.unicode
  let (name, rest) ← match f.skip cs with
    | [] => none
    | '\\' :: _ => none
    | '\x7b' :: cs => f.takeBraced? false cs
    | c :: cs => some ([c], cs)
  let (differs, set) ← property? name
  return (.cls (← f.negated? (negated != differs) (f.folded set)), rest)

/-- A class with a letter of its own, of ASCII or of all characters. -/
def lettered? (f : Flags) (negated : Bool) (ascii : String) (wide : CharSet) :
    Option Escape :=
  (f.negated? negated (if f.unicode then wide else .ofRuns ascii)).map .cls

/-- Reads what follows a backslash. Any ASCII character that is neither a letter nor a digit may be
escaped to stand for itself. -/
def readEscape (f : Flags) : List Char → Option (Escape × List Char)
  | [] => none
  | 'd' :: cs => (lettered? f false "30-39" Category.decimalNumber).map (·, cs)
  | 'D' :: cs => (lettered? f true "30-39" Category.decimalNumber).map (·, cs)
  | 's' :: cs => (lettered? f false "9-D 20" Trait.whiteSpace).map (·, cs)
  | 'S' :: cs => (lettered? f true "9-D 20" Trait.whiteSpace).map (·, cs)
  | 'w' :: cs => (lettered? f false "30-39 41-5A 5F 61-7A" wordChars).map (·, cs)
  | 'W' :: cs => (lettered? f true "30-39 41-5A 5F 61-7A" wordChars).map (·, cs)
  | 'p' :: cs => readProperty f false cs
  | 'P' :: cs => readProperty f true cs
  | 'A' :: cs => some (.place .textStart, cs)
  | 'z' :: cs => some (.place .textEnd, cs)
  | 'b' :: cs => readEdge f cs
  | 'B' :: cs => some (.place (.word (!f.unicode) .none), cs)
  | '<' :: cs => some (.place (.word (!f.unicode) .start), cs)
  | '>' :: cs => some (.place (.word (!f.unicode) .stop), cs)
  | 'a' :: cs => some (.literal '\x07' false, cs)
  | 'f' :: cs => some (.literal '\x0c' false, cs)
  | 't' :: cs => some (.literal '\t' false, cs)
  | 'n' :: cs => some (.literal '\n' false, cs)
  | 'r' :: cs => some (.literal '\r' false, cs)
  | 'v' :: cs => some (.literal '\x0b' false, cs)
  | 'x' :: cs => readCode f 2 cs
  | 'u' :: cs => readCode f 4 cs
  | 'U' :: cs => readCode f 8 cs
  | c :: cs => if c.toNat < 0x80 && !c.isAlphanum then some (.literal c false, cs) else none

/-! ### Classes in brackets -/

/-- A class, with the number of levels at which its parts lie in each other. -/
structure CharClass where
  set : CharSet
  depth : Nat
  deriving DecidableEq, Repr

/-- The ways to put two classes together. -/
inductive ClassOp where
  | inter
  | diff
  | symmDiff
  deriving DecidableEq, Repr

/-- What an operation makes of two sets. -/
def ClassOp.apply : ClassOp → CharSet → CharSet → CharSet
  | inter => CharSet.inter
  | diff => CharSet.diff
  | symmDiff => CharSet.symmDiff

/-- The part of a class that has been read: an operation that waits for its second class, and the
members read since. -/
structure Members where
  pending : Option (ClassOp × CharClass) := none
  set : CharSet := .empty
  /-- The number of members and ranges. -/
  count : Nat := 0
  /-- The depth of the deepest of them. -/
  depth : Nat := 0

namespace Members

/-- One more member, range or class. -/
def add (m : Members) (c : CharClass) : Members :=
  { m with set := m.set.union c.set, count := m.count + 1, depth := max m.depth c.depth }

/-- The class that has been read, in which several members make up a level. -/
def toClass (f : Flags) (m : Members) : CharClass :=
  let own := if 2 ≤ m.count then m.depth + 1 else m.depth
  match m.pending with
  | none => ⟨m.set, own⟩
  | some (op, c) => ⟨op.apply (f.folded c.set) (f.folded m.set), max c.depth own + 1⟩

/-- The members after an operation, which wait for its second class. -/
def operate (f : Flags) (m : Members) (op : ClassOp) : Members :=
  { pending := some (op, m.toClass f) }

/-- The class in brackets that ends here. -/
def close? (f : Flags) (negated : Bool) (m : Members) : Option CharClass :=
  let c := m.toClass f
  (f.negated? negated (f.folded c.set)).map (⟨·, c.depth + 1⟩)

end Members

/-- The classes that have a name, all of them of ASCII characters. -/
def asciiClass? : String → Option CharSet
  | "alnum" => some (.ofRuns "30-39 41-5A 61-7A")
  | "alpha" => some (.ofRuns "41-5A 61-7A")
  | "ascii" => some (.ofRuns "0-7F")
  | "blank" => some (.ofRuns "9 20")
  | "cntrl" => some (.ofRuns "0-1F 7F")
  | "digit" => some (.ofRuns "30-39")
  | "graph" => some (.ofRuns "21-7E")
  | "lower" => some (.ofRuns "61-7A")
  | "print" => some (.ofRuns "20-7E")
  | "punct" => some (.ofRuns "21-2F 3A-40 5B-60 7B-7E")
  | "space" => some (.ofRuns "9-D 20")
  | "upper" => some (.ofRuns "41-5A")
  | "word" => some (.ofRuns "30-39 41-5A 5F 61-7A")
  | "xdigit" => some (.ofRuns "30-39 41-46 61-66")
  | _ => none

/-- Reads the name of a class with its colons, of which the opening bracket is read. Tells also
whether the class is negated. -/
def readAsciiClass : List Char → Option (Bool × CharSet × List Char)
  | ':' :: cs => do
    let negated := cs.head? == some '^'
    let cs := if negated then cs.drop 1 else cs
    let ':' :: ']' :: rest := cs.dropWhile (· != ':') | none
    return (negated, ← asciiClass? (String.ofList (cs.takeWhile (· != ':'))), rest)
  | _ => none

/-- Reads one member of a class, which may turn out to be the start of a range. -/
def readMember (f : Flags) : List Char → Option (Escape × List Char)
  | [] => none
  | '\\' :: cs => readEscape f cs
  | c :: cs => some (.literal c false, cs)

/-- A character as a member of a class. Without Unicode it has to be one of ASCII. -/
def memberCode? (f : Flags) (c : Char) : Option Nat :=
  if f.unicode || c.toNat < 0x80 then some c.toNat else none

/-- Reads a member of a class or a range of members. A hyphen before the closing bracket or before
another hyphen makes no range. -/
def readRange (f : Flags) (cs : List Char) : Option (CharClass × List Char) := do
  let (first, rest) ← readMember f cs
  let rest := f.skip rest
  let alone : Option (CharClass × List Char) :=
    match first with
    | .literal c _ => (memberCode? f c).map fun n => (⟨.single n, 0⟩, rest)
    | .cls s => some (⟨s, 0⟩, rest)
    | .place _ => none
  match rest with
  | [] => none
  | '-' :: more =>
    if f.peek? more == some ']' || f.peek? more == some '-' then alone
    else
      match first, ← readMember f (f.skip more) with
      | .literal c _, (.literal d _, rest) =>
        if c ≤ d then
          return (⟨.range (← memberCode? f c) (← memberCode? f d), 0⟩, rest)
        else none
      | _, _ => none
  | _ => alone

/-- Passes over hyphens at the start of a class and counts them. -/
def skipHyphens (f : Flags) : Nat → List Char → Nat × List Char
  | 0, cs => (0, cs)
  | steps + 1, cs =>
    match cs with
    | '-' :: rest =>
      let (n, rest) := skipHyphens f steps (f.skip rest)
      (n + 1, rest)
    | _ => (0, cs)

mutual

/-- Reads a class of which the opening bracket is read. Hyphens at the start stand for themselves,
and so does a closing bracket there. The first argument bounds the number of steps. -/
def readClass (f : Flags) : Nat → List Char → Option (CharClass × List Char)
  | 0, _ => none
  | steps + 1, cs =>
    let cs := f.skip cs
    let negated := cs.head? == some '^'
    let cs := if negated then f.skip (cs.drop 1) else cs
    match skipHyphens f cs.length cs with
    | (0, ']' :: rest) =>
      readMembers f steps negated { set := .single ']'.toNat, count := 1 } rest
    | (0, cs) => readMembers f steps negated {} cs
    | (n + 1, cs) => readMembers f steps negated { set := .single '-'.toNat, count := n + 1 } cs

/-- Reads the rest of a class, given whether it is negated and what has been read of it. Operations
group to the left. -/
def readMembers (f : Flags) : Nat → Bool → Members → List Char → Option (CharClass × List Char)
  | 0, _, _, _ => none
  | steps + 1, negated, m, cs =>
    match f.skip cs with
    | [] => none
    | ']' :: rest => (m.close? f negated).map (·, rest)
    | '&' :: '&' :: rest => readMembers f steps negated (m.operate f .inter) rest
    | '-' :: '-' :: rest => readMembers f steps negated (m.operate f .diff) rest
    | '~' :: '~' :: rest => readMembers f steps negated (m.operate f .symmDiff) rest
    | '[' :: rest =>
      match readAsciiClass rest with
      | some (outside, s, rest) =>
        match f.negated? outside (f.folded s) with
        | some s => readMembers f steps negated (m.add ⟨s, 0⟩) rest
        | none => none
      | none =>
        match readClass f steps rest with
        | some (c, rest) => readMembers f steps negated (m.add c) rest
        | none => none
    | cs =>
      match readRange f cs with
      | some (c, rest) => readMembers f steps negated (m.add c) rest
      | none => none

end

end Arbor.Regex
