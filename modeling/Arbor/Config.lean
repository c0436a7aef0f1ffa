import Arbor.Comparison.Options
import Arbor.Error
import Arbor.Flow.Options
import Arbor.Pattern.Options
import Arbor.Symbols.Options
import Arbor.Toml.Reader

/-!
The options of all analyses together, as a configuration file gives them.
-/

namespace Arbor

/-- The options of all analyses. -/
structure Config where
  flow : Flow.Options := {}
  symbols : Symbols.Options := {}
  patterns : Pattern.Options := {}
  comparison : Comparison.Options := {}

namespace Config

/-- The fields of a configuration, in their order. -/
def fieldNames : List String := ["flow", "semantics", "patterns", "compare"]

/-- Reads a configuration. Missing options take their defaults, and others are refused. -/
def ofDatum? (d : Datum) : Option Config := do
  let f ← d.fields? fieldNames true
  return {
    flow := ← f.optional? "flow" {} Flow.Options.ofDatum?
    symbols := ← f.optional? "semantics" {} Symbols.Options.ofDatum?
    patterns := ← f.optional? "patterns" {} Pattern.Options.ofDatum?
    comparison := ← f.optional? "compare" {} Comparison.Options.ofDatum? }

/-- The configuration as a record. -/
def toDatum (c : Config) : Datum :=
  .record [("flow", c.flow.toDatum), ("semantics", c.symbols.toDatum),
    ("patterns", c.patterns.toDatum), ("compare", c.comparison.toDatum)]

/-- What is wrong with a configuration, the first thing if there are several. -/
def fault? (c : Config) : Option String :=
  if c.flow.maxDepth = 0 then some "flow.max_depth must be at least 1"
  else if c.symbols.maxDepth = 0 then some "semantics.max_scope_depth must be at least 1"
  else if !(0 ≤ c.patterns.minConfidence && c.patterns.minConfidence < 1) then
    some "patterns.min_confidence must be in [0, 1)"
  else
    match c.patterns.start, c.patterns.stop with
    | some start, some stop =>
      if stop < start then some "patterns.start must not be after patterns.end" else none
    | _, _ => none

/-- The configuration, if there is nothing wrong with it. -/
def validated (c : Config) : Except Error Config :=
  match c.fault? with
  | some fault => .error (.configuration fault)
  | none => .ok c

/-- Reads a configuration from a value and checks it. -/
def ofDatum (malformed : Error) (d : Option Datum) : Except Error Config :=
  match d.bind ofDatum? with
  | some c => c.validated
  | none => .error malformed

/-- Reads a configuration from a TOML text and checks it. -/
def ofToml (text : String) : Except Error Config :=
  ofDatum .toml (Toml.read? text)

/-- Reads a configuration from the contents of a file, if there is one, and checks it. -/
def load (contents : Option ByteArray) : Except Error Config :=
  match contents.bind String.fromUTF8? with
  | some text => ofToml text
  | none => .error .io

end Config

end Arbor
