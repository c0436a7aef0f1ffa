/-!
What can go wrong. Analyses do not fail on any tree; errors come from reading data and options, from
regular expressions, and from graphs put together by hand.
-/

namespace Arbor

/-- The causes of failure. -/
inductive Error where
  /-- A graph or a model that contradicts itself. -/
  | invariant (message : String)
  /-- An expression that is not a regular expression. -/
  | pattern (source : String)
  /-- Options that cannot be honoured. -/
  | configuration (message : String)
  /-- A source text that cannot be parsed. -/
  | parse (message : String)
  /-- A file that cannot be read. -/
  | io
  /-- A text that is not TOML or does not have the expected form. -/
  | toml
  /-- A text that is not JSON or does not have the expected form. -/
  | json
  deriving DecidableEq, Repr

namespace Error

/-- The text of an error. -/
def message : Error → String
  | invariant m => "Internal invariant violated: " ++ m
  | pattern source => "Invalid pattern `" ++ source ++ "`"
  | configuration m => "Configuration error: " ++ m
  | parse m => "Parse error: " ++ m
  | io => "The file cannot be read"
  | toml => "The text is not valid TOML"
  | json => "The text is not valid JSON"

/-- Whether the fault lies in the library and not in its input. -/
def isInternal : Error → Bool
  | invariant _ => true
  | _ => false

end Error

end Arbor
