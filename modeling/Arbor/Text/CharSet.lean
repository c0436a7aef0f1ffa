import Arbor.Decimal

/-!
Sets of characters. A set is given by the code points at which membership changes: characters below
the first are outside, those from the first up to the second are inside, and so on. In ascending
order the changes determine the set and are determined by it.
-/

namespace Arbor

/-! ### Runs of code points -/

/-- Code points at a constant distance, from the first to the last. -/
structure CharRun where
  first : Nat
  last : Nat
  step : Nat

/-- The last digits of a number, with the first power of sixteen that is out of their reach. -/
structure Numeral where
  value : Nat := 0
  power : Nat := 1

namespace Numeral

/-- The digits with one more. -/
def push (x : Numeral) (c : Char) : Numeral := ⟨16 * x.value + digitValue c, 16 * x.power⟩

/-- The number with these last digits. It shares the leading ones with the number before. -/
def after (x : Numeral) (before : Nat) : Nat := before / x.power * x.power + x.value

end Numeral

namespace CharRun

/-- The code points of the run. -/
def members (r : CharRun) : List Nat :=
  (List.range ((r.last - r.first) / r.step + 1)).map fun i => r.first + i * r.step

/-- The code points at which membership in the run changes. -/
def changes (r : CharRun) : List Nat :=
  if r.step = 1 then [r.first, r.last + 1] else r.members.flatMap fun n => [n, n + 1]

/-- The run up to a code point, from a first one with a step if there is such. -/
def upTo (start : Option (Nat × Nat)) (last : Nat) : CharRun :=
  match start with
  | none => ⟨last, last, 1⟩
  | some (first, step) => ⟨first, last, step⟩

/-- Reads runs in base sixteen. Between the first and the last code point of a run stands a hyphen,
or a slash if only every second one is meant. A number lacks the leading digits that it shares with
the number before it. The first three arguments are this number, the start of the current run with
its step if it has been passed, and the digits that have been read of the current number. -/
def readFrom (before : Nat) (start : Option (Nat × Nat)) (digits : Option Numeral)
    (cs : List Char) : List CharRun :=
  let current := digits.elim before (·.after before)
  let run := (digits.map fun _ => upTo start current).toList
  match cs with
  | [] => run
  | '-' :: cs => readFrom current (some (current, 1)) none cs
  | '/' :: cs => readFrom current (some (current, 2)) none cs
  | ' ' :: cs | '\n' :: cs | '>' :: cs => run ++ readFrom current none none cs
  | c :: cs => readFrom before start (some ((digits.getD {}).push c)) cs

/-- The runs of a text. -/
def read (runs : String) : List CharRun := readFrom 0 none none runs.toList

end CharRun

/-! ### Sets -/

/-- Whether a code point belongs to the set with the given changes of membership. -/
def inRuns : List Nat → Nat → Bool
  | [], _ => false
  | b :: bs, n => if n < b then false else !inRuns bs n

/-- A set of code points, by the changes of membership in ascending order. -/
structure CharSet where
  changes : List Nat
  deriving DecidableEq, Repr

namespace CharSet

/-- Whether a code point belongs to the set. -/
def contains (s : CharSet) (n : Nat) : Bool := inRuns s.changes n

/-! ### Simple sets -/

/-- The set without members. -/
def empty : CharSet := ⟨[]⟩

/-- The set of all code points. -/
def all : CharSet := ⟨[0]⟩

/-- The code points from the first to the last, both included. -/
def range (first last : Nat) : CharSet := ⟨[first, last + 1]⟩

/-- The set of one code point. -/
def single (n : Nat) : CharSet := range n n

/-- The changes of a set with one more member, which lies below all others. -/
def changesWith (n : Nat) : List Nat → List Nat
  | [] => [n, n + 1]
  | m :: ms => if n = m then m :: ms else if n + 1 = m then n :: ms else n :: (n + 1) :: m :: ms

/-- The set of the listed code points. -/
def ofList (ns : List Nat) : CharSet :=
  ⟨(ns.mergeSort (· ≤ ·)).foldr changesWith []⟩

/-- The set with the given runs, in ascending order. -/
def ofRuns (runs : String) : CharSet := ⟨(CharRun.read runs).flatMap CharRun.changes⟩

/-! ### Operations -/

/-- The code points outside a set. -/
def compl (s : CharSet) : CharSet :=
  match s.changes with
  | 0 :: cs => ⟨cs⟩
  | cs => ⟨0 :: cs⟩

/-- The changes of the set of those code points that are kept, given whether they lie in two others.
The flags tell whether one has come inside these. -/
def mergeChanges (keep : Bool → Bool → Bool) (x y : Bool) : List Nat → List Nat → List Nat
  | [], [] => []
  | a :: as, [] =>
    let rest := mergeChanges keep (!x) y as []
    if keep (!x) y == keep x y then rest else a :: rest
  | [], b :: bs =>
    let rest := mergeChanges keep x (!y) [] bs
    if keep x (!y) == keep x y then rest else b :: rest
  | a :: as, b :: bs =>
    if a < b then
      let rest := mergeChanges keep (!x) y as (b :: bs)
      if keep (!x) y == keep x y then rest else a :: rest
    else if b < a then
      let rest := mergeChanges keep x (!y) (a :: as) bs
      if keep x (!y) == keep x y then rest else b :: rest
    else
      let rest := mergeChanges keep (!x) (!y) as bs
      if keep (!x) (!y) == keep x y then rest else a :: rest
termination_by as bs => as.length + bs.length

/-- The members of either set. -/
def union (s t : CharSet) : CharSet := ⟨mergeChanges or false false s.changes t.changes⟩

/-- The members of both sets. -/
def inter (s t : CharSet) : CharSet := ⟨mergeChanges and false false s.changes t.changes⟩

/-- The members of the first set that are not in the second. -/
def diff (s t : CharSet) : CharSet :=
  ⟨mergeChanges (fun x y => x && !y) false false s.changes t.changes⟩

/-- The members of exactly one of the sets. -/
def symmDiff (s t : CharSet) : CharSet := ⟨mergeChanges xor false false s.changes t.changes⟩

/-- The members of any of the sets. -/
def anyOf (sets : List CharSet) : CharSet := sets.foldr union empty

/-! ### Runs -/

/-- The runs between changes of membership, the last of which may have no end. -/
def runsOf : List Nat → List (Nat × Nat)
  | [] => []
  | [a] => [(a, 0x10FFFF)]
  | a :: b :: rest => (a, b - 1) :: runsOf rest

/-- The runs of neighbours that the set consists of, by their first and last members. -/
def runs (s : CharSet) : List (Nat × Nat) := runsOf s.changes

/-- Whether all members are ASCII characters. -/
def isAscii (s : CharSet) : Bool := s.runs.all (·.2 < 0x80)

/-- The only character of the set. -/
def only? (s : CharSet) : Option Char :=
  match s.runs with
  | [(a, b)] => if a = b then some (Char.ofNat a) else none
  | _ => none

end CharSet

/-! ### Blank characters -/

/-- Whether a character is blank: it has the property `White_Space` of the Unicode standard. -/
def isBlank (c : Char) : Bool :=
  let n := c.toNat
  (0x9 ≤ n && n ≤ 0xD) || n == 0x20 || n == 0x85 || n == 0xA0 || n == 0x1680
    || (0x2000 ≤ n && n ≤ 0x200A) || n == 0x2028 || n == 0x2029 || n == 0x202F || n == 0x205F
    || n == 0x3000

/-- The text without the blanks at its two ends. -/
def trim (s : String) : String :=
  String.ofList ((s.toList.dropWhile isBlank).reverse.dropWhile isBlank).reverse

/-- The text without its blanks. -/
def withoutBlanks (s : String) : String :=
  String.ofList (s.toList.filter (!isBlank ·))

end Arbor
