import Arbor.Comparison.Difference
import Arbor.Comparison.Options
import Arbor.Comparison.OwnText

/-!
The comparison of two trees, child by child in order. How similar two nodes are is a number between
zero and one: one for equal nodes, less if their kinds or texts differ, times the mean of their
children, where a child without a counterpart counts as zero. The numbers are those of a scale, so
that the same comparison can be carried out with rounding and without.
-/

namespace Arbor.Comparison

variable {α : Type}

/-- Numbers to measure similarity with. -/
structure Scale (α : Type) where
  zero : α
  one : α
  /-- The factor for nodes of different kinds. -/
  typePenalty : α
  /-- The factor for nodes with different texts. -/
  textPenalty : α
  add : α → α → α
  mul : α → α → α
  divNat : α → Nat → α

/-- Similarity in double precision. -/
def Scale.float : Scale Float where
  zero := 0
  one := 1
  typePenalty := 0.5
  textPenalty := 0.8
  add := (· + ·)
  mul := (· * ·)
  divNat x n := x / n.toFloat

/-- What is known after comparing some nodes. -/
structure Account (α : Type) where
  /-- The similarity of two nodes, or the sum over several pairs. -/
  similarity : α
  differences : List Difference
  compared : Nat
  matching : Nat
  different : Nat

namespace Account

/-- The account of nodes that are not looked at. -/
def skipped (s : Scale α) : Account α := ⟨s.one, [], 0, 0, 0⟩

/-- The account of no nodes. -/
def empty (s : Scale α) : Account α := ⟨s.zero, [], 0, 0, 0⟩

/-- Two accounts together. -/
def add (s : Scale α) (x y : Account α) : Account α where
  similarity := s.add x.similarity y.similarity
  differences := x.differences ++ y.differences
  compared := x.compared + y.compared
  matching := x.matching + y.matching
  different := x.different + y.different

/-- An account with one more node, which has no counterpart. -/
def unpaired (x : Account α) (d : Difference) : Account α :=
  { x with
    differences := x.differences ++ [d], compared := x.compared + 1, different := x.different + 1 }

/-- Whether no difference was found. -/
def identical (x : Account α) : Bool := x.differences.isEmpty

end Account

/-- Whether two nodes at some depth are not looked at. -/
def Options.passesOver (o : Options) (depth : Nat) (a b : Tree) : Bool :=
  o.maxDepth.any (· < depth) || o.ignoredKinds.contains a.kind || o.ignoredKinds.contains b.kind

/-- How two nodes differ in kind. -/
def typeDifference? (a b : Tree) : Option Kind :=
  if a.kind = b.kind then none else some (.type a.kind b.kind)

/-- How two nodes differ in their own text. -/
def textDifference? (o : Options) (a b : Tree) : Option Kind :=
  if o.ignoreText || ownText a = ownText b then none else some (.text (ownText a) (ownText b))

/-- How two nodes differ in the number of their children. -/
def countDifference? (a b : Tree) : Option Kind :=
  if a.children.length = b.children.length then none
  else some (.count a.children.length b.children.length)

/-- The account of two nodes by themselves. A different number of children does not make the nodes
different. -/
def compareNodes (s : Scale α) (o : Options) (path : List Nat) (a b : Tree) : Account α :=
  let byType := typeDifference? a b
  let byText := textDifference? o a b
  let own := if byType.isSome then s.mul s.one s.typePenalty else s.one
  let own := if byText.isSome then s.mul own s.textPenalty else own
  let found := byType.toList ++ byText.toList ++ (countDifference? a b).toList
  let same := byType.isNone && byText.isNone
  { similarity := own
    differences := found.map fun k => ⟨k, path, some a.span, some b.span⟩
    compared := 1
    matching := if same then 1 else 0
    different := if same then 0 else 1 }

/-- The account of two nodes and of their children together. -/
def combine (s : Scale α) (width : Nat) (own children : Account α) : Account α :=
  { own.add s children with
    similarity :=
      if width = 0 then own.similarity
      else s.mul own.similarity (s.divNat children.similarity width) }

/-- Adds children that only the second tree has. -/
def addExtra (path : List Nat) (index : Nat) (x : Account α) : List Tree → Account α
  | [] => x
  | b :: bs =>
    addExtra path (index + 1) (x.unpaired ⟨.extra b.kind, path ++ [index], none, some b.span⟩) bs

mutual

/-- Compares two trees at a path. -/
def compareAt (s : Scale α) (o : Options) (path : List Nat) : Tree → Tree → Account α
  | a@⟨_, _, _, children, _⟩, b =>
    if o.passesOver path.length a b then .skipped s
    else
      combine s (max children.length b.children.length) (compareNodes s o path a b)
        (compareAll s o path 0 (.empty s) children b.children)

/-- Compares children in order, from an index on. -/
def compareAll (s : Scale α) (o : Options) (path : List Nat) (index : Nat) (x : Account α) :
    List Tree → List Tree → Account α
  | [], bs => addExtra path index x bs
  | a :: as, [] =>
    let x := x.unpaired ⟨.missing a.kind, path ++ [index], some a.span, none⟩
    compareAll s o path (index + 1) x as []
  | a :: as, b :: bs =>
    let x := x.add s (compareAt s o (path ++ [index]) a b)
    compareAll s o path (index + 1) x as bs

end

/-- Compares two trees in double precision. -/
def compare (o : Options) (a b : Tree) : Account Float :=
  compareAt .float o [] a b

/-! ### Comparison in 64 bits -/

/-- Fails if the own texts of two nodes count and one of them cannot be had. -/
def checkTexts (o : Options) (a b : Tree) : Except Operation Unit :=
  if o.ignoreText then pure ()
  else do
    checkOffsets a
    checkOffsets b

mutual

/-- Checks the nodes that are compared in two trees, whose roots have some depth. -/
def checkAt (o : Options) (depth : Nat) : Tree → Tree → Except Operation Unit
  | a@⟨_, _, _, children, _⟩, b =>
    if o.passesOver depth a b then pure ()
    else do
      checkTexts o a b
      checkAll o (depth + 1) children b.children

/-- Checks children in order. -/
def checkAll (o : Options) (depth : Nat) : List Tree → List Tree → Except Operation Unit
  | a :: as, b :: bs => do
    checkAt o depth a b
    checkAll o depth as bs
  | _, _ => pure ()

end

/-- Compares two trees, or fails with an operation on positions that leaves the range of 64 bits. -/
def compareChecked (o : Options) (a b : Tree) : Except Operation (Account Float) := do
  checkAt o 0 a b
  return compare o a b

end Arbor.Comparison
