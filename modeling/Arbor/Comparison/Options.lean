import Arbor.Datum

/-!
What a comparison of trees passes over.
-/

namespace Arbor.Comparison

/-- What a comparison does not look at. -/
structure Options where
  /-- Nodes of these kinds count as equal to anything, with all that is below them. -/
  ignoredKinds : List String := []
  ignoreText : Bool := false
  /-- Nodes deeper than this count as equal. -/
  maxDepth : Option Nat := none
  deriving DecidableEq, Inhabited, Repr

namespace Options

/-- The fields of the options, in their order. -/
def fieldNames : List String := ["ignore_types", "ignore_text", "max_depth"]

/-- Reads options. Missing ones take their defaults, and others are refused. -/
def ofDatum? (d : Datum) : Option Options := do
  let f ← d.fields? fieldNames true
  return {
    ignoredKinds := ← f.optional? "ignore_types" [] (Datum.toList? Datum.toText?)
    ignoreText := ← f.optional? "ignore_text" false Datum.toBool?
    maxDepth := ← f.optional? "max_depth" none (Datum.toOption? Datum.toNat?) }

/-- The options as a record. -/
def toDatum (o : Options) : Datum :=
  .record [
    ("ignore_types", .list (o.ignoredKinds.map .text)),
    ("ignore_text", .bool o.ignoreText),
    ("max_depth", (o.maxDepth.map fun n => .integer n).getD .null)]

end Options

end Arbor.Comparison
