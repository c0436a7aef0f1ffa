import Arbor.Datum

/-!
What the flow analysis looks for and how deep it goes.
-/

namespace Arbor.Flow

/-- The detectors, each of which can be switched off, and the depth at which building stops. -/
structure Options where
  unreachable : Bool := true
  infiniteLoops : Bool := true
  missingReturns : Bool := true
  nullDereferences : Bool := true
  unusedVariables : Bool := true
  uninitializedReads : Bool := true
  /-- Nodes nested more deeply than this are not looked at. -/
  maxDepth : Nat := 256
  deriving DecidableEq, Inhabited, Repr

namespace Options

/-- The fields of the options, in their order. -/
def fieldNames : List String :=
  ["detect_unreachable", "detect_infinite_loops", "detect_missing_returns",
    "detect_null_dereferences", "detect_unused_variables", "detect_uninitialized_reads",
    "max_depth"]

/-- Reads options. Missing ones take their defaults, and others are refused. -/
def ofDatum? (d : Datum) : Option Options := do
  let f ← d.fields? fieldNames true
  return {
    unreachable := ← f.optional? "detect_unreachable" true Datum.toBool?
    infiniteLoops := ← f.optional? "detect_infinite_loops" true Datum.toBool?
    missingReturns := ← f.optional? "detect_missing_returns" true Datum.toBool?
    nullDereferences := ← f.optional? "detect_null_dereferences" true Datum.toBool?
    unusedVariables := ← f.optional? "detect_unused_variables" true Datum.toBool?
    uninitializedReads := ← f.optional? "detect_uninitialized_reads" true Datum.toBool?
    maxDepth := ← f.optional? "max_depth" 256 Datum.toNat? }

/-- The options as a record. -/
def toDatum (o : Options) : Datum :=
  .record [
    ("detect_unreachable", .bool o.unreachable),
    ("detect_infinite_loops", .bool o.infiniteLoops),
    ("detect_missing_returns", .bool o.missingReturns),
    ("detect_null_dereferences", .bool o.nullDereferences),
    ("detect_unused_variables", .bool o.unusedVariables),
    ("detect_uninitialized_reads", .bool o.uninitializedReads),
    ("max_depth", .integer o.maxDepth)]

end Options

end Arbor.Flow
