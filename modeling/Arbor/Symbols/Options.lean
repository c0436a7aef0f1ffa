import Arbor.Datum

/-!
What the analysis of names looks for, and the names that a program may use without declaring them.
-/

namespace Arbor.Symbols

/-- The names that the platform declares. -/
def defaultBuiltins : List String :=
  -- values
  ["undefined", "NaN", "Infinity", "globalThis", "arguments",
  -- constructors and namespaces
   "Object", "Function", "Array", "String", "Number", "Boolean", "Symbol", "BigInt", "Date",
   "RegExp", "Error", "TypeError", "RangeError", "SyntaxError", "ReferenceError", "Promise", "Map",
   "Set", "WeakMap", "WeakSet", "Proxy", "Reflect", "Math", "JSON", "Intl", "ArrayBuffer",
   "Uint8Array",
  -- functions
   "parseInt", "parseFloat", "isNaN", "isFinite", "encodeURIComponent", "decodeURIComponent",
   "setTimeout", "clearTimeout", "setInterval", "clearInterval", "queueMicrotask",
   "structuredClone", "fetch",
  -- browsers
   "console", "window", "document", "navigator", "location", "localStorage", "sessionStorage",
  -- servers
   "process", "require", "module", "exports", "Buffer", "__dirname", "__filename"]

/-- The parts of the analysis, each of which can be switched off, the names declared in advance, and
the depth of the innermost scopes. -/
structure Options where
  references : Bool := true
  shadowing : Bool := true
  includeBuiltins : Bool := true
  builtins : List String := defaultBuiltins
  /-- Scopes nested more deeply than this are not looked into. -/
  maxDepth : Nat := 128
  deriving DecidableEq, Inhabited, Repr

namespace Options

/-- The fields of the options, in their order. -/
def fieldNames : List String :=
  ["track_references", "detect_shadowing", "include_builtins", "builtins", "max_scope_depth"]

/-- Reads options. Missing ones take their defaults, and others are refused. -/
def ofDatum? (d : Datum) : Option Options := do
  let f ← d.fields? fieldNames true
  return {
    references := ← f.optional? "track_references" true Datum.toBool?
    shadowing := ← f.optional? "detect_shadowing" true Datum.toBool?
    includeBuiltins := ← f.optional? "include_builtins" true Datum.toBool?
    builtins := ← f.optional? "builtins" defaultBuiltins (Datum.toList? Datum.toText?)
    maxDepth := ← f.optional? "max_scope_depth" 128 Datum.toNat? }

/-- The options as a record. -/
def toDatum (o : Options) : Datum :=
  .record [
    ("track_references", .bool o.references),
    ("detect_shadowing", .bool o.shadowing),
    ("include_builtins", .bool o.includeBuiltins),
    ("builtins", .list (o.builtins.map .text)),
    ("max_scope_depth", .integer o.maxDepth)]

end Options

end Arbor.Symbols
