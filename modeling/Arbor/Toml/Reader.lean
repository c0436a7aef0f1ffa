import Arbor.Toml.Scalar
import Arbor.Toml.Table
import Arbor.Toml.Text

/-!
Reading TOML. Every reader takes off what it reads and gives back the rest. Keys and values may not
be nested deeper than a bound; apart from that, the number that a reader of values is given first
bounds the number of its steps, for which twice the length of the text is enough.
-/

namespace Arbor.Toml

/-- How many parts a key may have, and how many lists and tables in braces may lie in each
other. -/
def depthLimit : Nat := 80

/-! ### Keys -/

/-- Whether a character may stand in a key without quotes. -/
def isKeyChar (c : Char) : Bool := c.isAlphanum || c == '_' || c == '-'

/-- Reads one part of a key. -/
def readKeyPart : List Char → Option (String × List Char)
  | '"' :: cs => readBasic [] cs
  | '\x27' :: cs => readLiteral cs
  | cs =>
    let key := cs.takeWhile isKeyChar
    if key.isEmpty then none else some (String.ofList key, cs.drop key.length)

/-- Reads a key with a bounded number of parts, and the blanks after it. -/
def readKeyParts : Nat → List Char → Option (List String × List Char)
  | 0, _ => none
  | parts + 1, cs => do
    let (key, rest) ← readKeyPart cs
    match skipGap rest with
    | '.' :: rest => do
      let (path, rest) ← readKeyParts parts (skipGap rest)
      return (key :: path, rest)
    | rest => return ([key], rest)

/-- Reads a key and the blanks after it. -/
def readKey (cs : List Char) : Option (List String × List Char) :=
  readKeyParts depthLimit cs

/-! ### Values -/

mutual

/-- Reads a value that may have so many levels of lists and tables in it. -/
def readValue : Nat → Nat → List Char → Option (Datum × List Char)
  | 0, _, _ => none
  | _ + 1, _, '"' :: '"' :: '"' :: cs =>
    (readBasicBlock false [] (skipLine cs)).map fun (s, rest) => (.text s, rest)
  | _ + 1, _, '"' :: cs => (readBasic [] cs).map fun (s, rest) => (.text s, rest)
  | _ + 1, _, '\x27' :: '\x27' :: '\x27' :: cs =>
    (readLiteralBlock [] (skipLine cs)).map fun (s, rest) => (.text s, rest)
  | _ + 1, _, '\x27' :: cs => (readLiteral cs).map fun (s, rest) => (.text s, rest)
  | _ + 1, 0, '[' :: _ => none
  | steps + 1, levels + 1, '[' :: cs => do readItems steps levels [] (← skipFill false cs)
  | _ + 1, 0, '\x7b' :: _ => none
  | steps + 1, levels + 1, '\x7b' :: cs => do readPairs steps levels [] (← skipFill false cs)
  | _ + 1, _, cs => readScalar cs

/-- Reads the rest of a list, which may have a comma at its end. -/
def readItems : Nat → Nat → List Datum → List Char → Option (Datum × List Char)
  | 0, _, _, _ => none
  | _ + 1, _, done, ']' :: rest => some (.sequence done.reverse, rest)
  | steps + 1, levels, done, cs => do
    let (d, rest) ← readValue steps levels cs
    match ← skipFill false rest with
    | ',' :: rest => readItems steps levels (d :: done) (← skipFill false rest)
    | ']' :: rest => return (.sequence (d :: done).reverse, rest)
    | _ => none

/-- Reads the rest of a table in braces, which may have a comma at its end. -/
def readPairs : Nat → Nat → Members → List Char → Option (Datum × List Char)
  | 0, _, _, _ => none
  | _ + 1, _, ms, '\x7d' :: rest => some (.record (membersToData ms), rest)
  | steps + 1, levels, ms, cs => do
    let (path, rest) ← readKey cs
    let '=' :: rest ← skipFill false rest | none
    let (d, rest) ← readValue steps levels (← skipFill false rest)
    let ms ← ms.define .headed path d
    match ← skipFill false rest with
    | ',' :: rest => readPairs steps levels ms (← skipFill false rest)
    | '\x7d' :: rest => return (.record (membersToData ms), rest)
    | _ => none

end

/-! ### Documents -/

/-- Passes over the end of a line, and over all that follows up to the next header or key. -/
def endLine (cs : List Char) : Option (List Char) :=
  let cs := skipGap cs
  if cs.isEmpty || startsLine cs || cs.head? == some '#' then skipFill false cs else none

/-- Reads the lines of a document, given the last header and all that was read before. -/
def readLines : Nat → List String → Members → List Char → Option Members
  | _, _, ms, [] => some ms
  | 0, _, _, _ :: _ => none
  | steps + 1, _, ms, '[' :: '[' :: cs => do
    let (path, rest) ← readKey (skipGap cs)
    let ']' :: ']' :: rest := rest | none
    readLines steps path (← ms.openRow path) (← endLine rest)
  | steps + 1, _, ms, '[' :: cs => do
    let (path, rest) ← readKey (skipGap cs)
    let ']' :: rest := rest | none
    readLines steps path (← ms.openTable path) (← endLine rest)
  | steps + 1, header, ms, cs => do
    let (path, rest) ← readKey cs
    let '=' :: rest := rest | none
    let (d, rest) ← readValue (2 * rest.length + 2) depthLimit (skipGap rest)
    readLines steps header (← ms.defineIn header path d) (← endLine rest)

/-- Reads a document, which may start with a byte order mark. -/
def read? (text : String) : Option Datum := do
  let cs := text.toList
  let cs ← skipFill false (if cs.head? == some '\uFEFF' then cs.tail else cs)
  return .record (membersToData (← readLines cs.length [] [] cs))

end Arbor.Toml
