/-!
Places in a source text. Rows count lines from zero and columns count bytes within a line; both are
numbers of 64 bits, and are written counted from one. A span reaches from its start up to, but not
including, its end.
-/

namespace Arbor

/-! ### Numbers of 64 bits -/

/-- The first number that does not fit into 64 bits. -/
def wordBound : Nat := 0x10000000000000000

/-- The first number that does not fit into 64 bits of which one is a sign. -/
def signedBound : Nat := 0x8000000000000000

/-! ### Positions -/

/-- A row and a byte column within it. -/
structure Position where
  row : Nat
  column : Nat
  deriving DecidableEq, Inhabited, Repr

namespace Position

/-- Earlier rows come first, and within a row earlier columns. -/
def le (p q : Position) : Bool :=
  p.row < q.row || (p.row == q.row && p.column ≤ q.column)

instance : LE Position := ⟨fun p q => p.le q = true⟩
instance : LT Position := ⟨fun p q => q.le p = false⟩

instance (p q : Position) : Decidable (p ≤ q) := inferInstanceAs (Decidable (p.le q = true))
instance (p q : Position) : Decidable (p < q) := inferInstanceAs (Decidable (q.le p = false))

/-- The start of a text. -/
def origin : Position := ⟨0, 0⟩

/-- A count from zero as a count from one, if this fits into 64 bits. -/
def ordinal? (n : Nat) : Option Nat :=
  if n + 1 < wordBound then some (n + 1) else none

/-- Rows and columns are written counted from one. -/
def render? (p : Position) : Option String := do
  return s!"{← ordinal? p.row}:{← ordinal? p.column}"

theorem le_iff {p q : Position} :
    p ≤ q ↔ p.row < q.row ∨ (p.row = q.row ∧ p.column ≤ q.column) := by
  change p.le q = true ↔ _
  simp [le]

theorem lt_iff {p q : Position} :
    p < q ↔ p.row < q.row ∨ (p.row = q.row ∧ p.column < q.column) := by
  change q.le p = false ↔ _
  simp only [le, Bool.or_eq_false_iff, decide_eq_false_iff_not, Bool.and_eq_false_iff,
    beq_eq_false_iff_ne, ne_eq]
  omega

end Position

/-! ### Spans -/

/-- The stretch of text from `start` up to `stop`. -/
structure Span where
  start : Position
  stop : Position
  deriving DecidableEq, Inhabited, Repr

namespace Span

/-- The empty span at the start of a text. -/
def zero : Span := ⟨.origin, .origin⟩

/-- Whether a position lies in the span, whose end does not. -/
def contains (s : Span) (p : Position) : Bool :=
  s.start ≤ p && p < s.stop

/-- Whether the span reaches at least as far as another on both sides. -/
def encloses (s t : Span) : Bool :=
  s.start ≤ t.start && t.stop ≤ s.stop

/-- The two ends joined by a hyphen. -/
def render? (s : Span) : Option String := do
  return s!"{← s.start.render?}-{← s.stop.render?}"

end Span

end Arbor
