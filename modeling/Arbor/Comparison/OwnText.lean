import Arbor.Tree
import Arbor.Text.CharSet

/-!
The text of a node outside its children. The text of each child is cut out of the node's text where
the positions say that it stands, and otherwise where it first occurs behind the children before it;
a child that does not occur there is left alone. Columns count bytes, so a position may fall outside
the text or inside a character, and then says nothing. Where a child stands is computed in numbers
of 64 bits, and positions near their bound make this fail.
-/

namespace Arbor.Comparison

/-! ### Places -/

/-- Splits a text before and behind the first place where another occurs in it. -/
def splitAround? (part : List Char) : List Char → Option (List Char × List Char)
  | [] => (part.isPrefixOf? []).map ([], ·)
  | c :: cs =>
    match part.isPrefixOf? (c :: cs) with
    | some rest => some ([], rest)
    | none => (splitAround? part cs).map fun r => (c :: r.1, r.2)

/-- Splits a text after a number of bytes, if a character ends there. -/
def splitBytes? : Nat → List Char → Option (List Char × List Char)
  | 0, cs => some ([], cs)
  | _ + 1, [] => none
  | n + 1, c :: cs =>
    if c.utf8Size ≤ n + 1 then
      (splitBytes? (n + 1 - c.utf8Size) cs).map fun r => (c :: r.1, r.2)
    else none

/-- The number of bytes in front of the line break with a number, counted from zero. -/
def lineBreak? : Nat → List Char → Option Nat
  | _, [] => none
  | k, c :: cs =>
    if c = '\n' then
      match k with
      | 0 => some 0
      | k + 1 => (lineBreak? k cs).map (· + c.utf8Size)
    else (lineBreak? k cs).map (· + c.utf8Size)

/-- The operations on the way to the offset of a child. -/
inductive Operation where
  /-- The columns between the start of the node and a child in the same row. -/
  | columns
  /-- The rows between the start of the node and a child further down. -/
  | rows
  /-- The number of the line break in front of the child's line, counted from zero. -/
  | lineBreak
  /-- The start of the child's line, one behind the line break. -/
  | lineStart
  /-- The column behind the start of the line. -/
  | offset
  deriving DecidableEq, Repr

/-- Sums and differences for the operations on the way to an offset. -/
structure Arithmetic (m : Type → Type) where
  add : Operation → Nat → Nat → m Nat
  sub : Operation → Nat → Nat → m Nat

/-- Unbounded numbers. -/
def Arithmetic.exact : Arithmetic Id where
  add _ a b := a + b
  sub _ a b := a - b

/-- Numbers of 64 bits. An operation that leaves their range fails. -/
def Arithmetic.words : Arithmetic (Except Operation) where
  add op a b := if a + b < wordBound then .ok (a + b) else .error op
  sub op a b := if b ≤ a then .ok (a - b) else .error op

/-- The number of bytes in front of a child, going by the positions. -/
def offsetBy {m : Type → Type} [Monad m] (s : Arithmetic m) (node child : Tree) :
    m (Option Nat) :=
  let p := node.span.start
  let q := child.span.start
  if q.row = p.row then
    if p.column ≤ q.column then some <$> s.sub .columns q.column p.column else pure none
  else if p.row < q.row then do
    let rows ← s.sub .rows q.row p.row
    let number ← s.sub .lineBreak rows 1
    match lineBreak? number node.text.toList with
    | none => pure none
    | some n =>
      let start ← s.add .lineStart n 1
      some <$> s.add .offset start q.column
  else pure none

/-- The exact number of bytes in front of a child. -/
def offset? (node child : Tree) : Option Nat :=
  (offsetBy .exact node child).run

/-- The number of bytes in front of a child, or the first operation on the way to it that leaves the
range of 64 bits. -/
def wordOffset? (node child : Tree) : Except Operation (Option Nat) :=
  offsetBy .words node child

/-- Fails if there is a child with a text whose number of bytes in front cannot be had. -/
def checkOffsets (node : Tree) : Except Operation Unit :=
  (node.children.filter (!·.text.isEmpty)).forM fun child => discard (wordOffset? node child)

/-! ### Cuts -/

/-- Finds a part in the rest of a text, which starts after `cursor` bytes, and gives what stands
before and behind it: where the part is placed, if it stands there, or else where it first
occurs. -/
def locate? (part : List Char) (place : Option Nat) (cursor : Nat) (rest : List Char) :
    Option (List Char × List Char) :=
  let placed := place.bind fun n =>
    if cursor ≤ n then do
      let (gap, tail) ← splitBytes? (n - cursor) rest
      let behind ← part.isPrefixOf? tail
      return (gap, behind)
    else none
  placed.or (splitAround? part rest)

/-- A text from which children are cut out. -/
structure Cut where
  /-- The children that are cut out, each with what stands before it. -/
  pieces : List (List Char × Tree)
  /-- What stands behind the last. -/
  rest : List Char

/-- Cuts children out of the rest of a text, which starts after `cursor` bytes. -/
def cutFrom (place? : Tree → Option Nat) (cursor : Nat) (rest : List Char) : List Tree → Cut
  | [] => ⟨[], rest⟩
  | child :: children =>
    let part := child.text.toList
    match if child.text.isEmpty then none else locate? part (place? child) cursor rest with
    | none => cutFrom place? cursor rest children
    | some (gap, behind) =>
      let next := cursor + (String.ofList gap).utf8ByteSize + child.text.utf8ByteSize
      let cut := cutFrom place? next behind children
      { cut with pieces := (gap, child) :: cut.pieces }

/-- The characters that are not cut out. -/
def Cut.remainder (c : Cut) : List Char :=
  c.pieces.flatMap (·.1) ++ c.rest

/-- The text of a node outside its children, without blanks, if they are placed at the given numbers
of bytes; a node without children keeps its text as it is. -/
def ownTextBy (place? : Tree → Option Nat) (t : Tree) : String :=
  if t.children.isEmpty then t.text
  else withoutBlanks (String.ofList (cutFrom place? 0 t.text.toList t.children).remainder)

/-- The text of a node outside its children, which the positions place. -/
def ownText (t : Tree) : String :=
  ownTextBy (offset? t) t

end Arbor.Comparison
