import Arbor.Node

/-!
What a node does to control flow, read off the name of its kind. The names come from the grammars of
several languages; a name that no row of the table lists is that of a plain statement.
-/

namespace Arbor

/-! ### Languages -/

/-- A language whose files can be analyzed, told by the end of their names. -/
inductive Language where
  | javaScript
  | typeScript
  | tsx
  deriving DecidableEq, Repr

namespace Language

/-- The ends of the names of files in each language. -/
def extensions : List (Language × List String) :=
  [(javaScript, ["js", "mjs", "cjs", "jsx"]),
   (typeScript, ["ts", "mts", "cts"]),
   (tsx, ["tsx"])]

/-- The language of files with an extension. -/
def ofExtension? (extension : String) : Option Language :=
  (extensions.find? (·.2.contains extension)).map (·.1)

end Language

/-! ### Constructs -/

/-- The role of a node in control flow. -/
inductive Construct where
  /-- Statements in sequence. -/
  | block
  | conditional
  | elseClause
  /-- A loop with an initializer, a condition and an increment, each of which may be missing. -/
  | forLoop
  /-- A loop over the elements or the keys of a value. -/
  | forEach
  | whileLoop
  | doWhile
  | switch
  | switchCase
  | switchDefault
  | tryCatch
  | returnJump
  | throwJump
  | breakJump
  | continueJump
  | labeled
  | declaration
  /-- Anything that works like a function: a declaration, an expression, a method. -/
  | function
  | classDef
  /-- Comments and empty statements. -/
  | ignored
  | statement
  deriving DecidableEq, Inhabited, Repr

namespace Construct

/-- The kinds of nodes that belong to each construct. -/
def kinds : List (Construct × List String) :=
  [(block, ["program", "module", "source_file", "statement_block", "block", "compound_statement"]),
   (conditional, ["if_statement", "if", "if_expression"]),
   (elseClause, ["else_clause", "else"]),
   (forLoop, ["for_statement", "for_loop"]),
   (forEach, ["for_in_statement", "for_of_statement", "enhanced_for_statement",
     "foreach_statement", "for_each"]),
   (whileLoop, ["while_statement", "while_loop"]),
   (doWhile, ["do_statement", "do_while_statement"]),
   (switch, ["switch_statement", "switch", "switch_expression"]),
   (switchCase, ["switch_case", "case_clause"]),
   (switchDefault, ["switch_default", "default_clause"]),
   (tryCatch, ["try_statement", "try_catch"]),
   (returnJump, ["return_statement", "return"]),
   (throwJump, ["throw_statement", "throw", "raise_statement"]),
   (breakJump, ["break_statement", "break"]),
   (continueJump, ["continue_statement", "continue"]),
   (labeled, ["labeled_statement"]),
   (declaration, ["lexical_declaration", "variable_declaration", "local_variable_declaration"]),
   (function, ["function_declaration", "generator_function_declaration", "function_expression",
     "function", "generator_function", "arrow_function", "method_definition",
     "function_definition", "method_declaration", "lambda"]),
   (classDef, ["class_declaration", "abstract_class_declaration", "class"]),
   (ignored, ["comment", "line_comment", "block_comment", "empty_statement"])]

/-- The construct that a kind of node belongs to. -/
def ofKind (kind : String) : Construct :=
  ((kinds.find? (·.2.contains kind)).map (·.1)).getD statement

end Construct

/-- The construct that the node belongs to. -/
def Node.construct (n : Node) : Construct :=
  .ofKind n.kind

end Arbor
