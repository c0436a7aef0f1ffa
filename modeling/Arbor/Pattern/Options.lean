import Arbor.Datum

/-!
Where a search for patterns looks, and how much it reports.
-/

namespace Arbor.Pattern

/-- The bounds of a search. -/
structure Options where
  /-- How many matches to report at most. -/
  limit : Option Nat := none
  /-- Whether to look for matches below a match. -/
  includeNested : Bool := true
  /-- Matches may not start before this position. -/
  start : Option Position := none
  /-- Matches may not end after this position. -/
  stop : Option Position := none
  /-- Matches must exceed this confidence. -/
  minConfidence : Float := 0
  deriving Inhabited, Repr

namespace Options

/-- The options with a limit. -/
def withLimit (o : Options) (limit : Nat) : Options :=
  { o with limit := some limit }

/-- The options without matches below a match. -/
def withoutNested (o : Options) : Options :=
  { o with includeNested := false }

/-- The options with bounds on the positions. -/
def within (o : Options) (start stop : Position) : Options :=
  { o with start := some start, stop := some stop }

/-- Whether a span lies in the bounds. -/
def admits (o : Options) (s : Span) : Bool :=
  o.start.all (· ≤ s.start) && o.stop.all (s.stop ≤ ·)

/-- The fields of the options, in their order. -/
def fieldNames : List String := ["limit", "include_nested", "start", "end", "min_confidence"]

/-- Reads options. Missing ones take their defaults, and others are refused. -/
def ofDatum? (d : Datum) : Option Options := do
  let f ← d.fields? fieldNames true
  return {
    limit := ← f.optional? "limit" none (Datum.toOption? Datum.toNat?)
    includeNested := ← f.optional? "include_nested" true Datum.toBool?
    start := ← f.optional? "start" none (Datum.toOption? Position.ofDatum?)
    stop := ← f.optional? "end" none (Datum.toOption? Position.ofDatum?)
    minConfidence := ← f.optional? "min_confidence" 0 Datum.toFloat? }

/-- The options as a record. -/
def toDatum (o : Options) : Datum :=
  .record [
    ("limit", (o.limit.map fun n => .integer n).getD .null),
    ("include_nested", .bool o.includeNested),
    ("start", (o.start.map Position.toDatum).getD .null),
    ("end", (o.stop.map Position.toDatum).getD .null),
    ("min_confidence", .decimal o.minConfidence)]

end Options

end Arbor.Pattern
