import Arbor.Construct
import Arbor.Traversal
import Arbor.Decimal
import Arbor.Text.CharSet

/-!
What can be told about an expression from its form alone: that it is always true, that it may be
null, that a loop never ends, that a function promises a value. None of these is a proof; they err
on the side of silence.
-/

namespace Arbor

/-- Whether the kind is that of a grouping around an expression, by brackets or a semicolon. -/
def isWrapper (kind : String) : Bool :=
  kind == "parenthesized_expression" || kind == "expression_statement"

namespace Node

/-- The expression inside the groupings around a tree numbered from `k` on. -/
def unwrappedFrom (k : Nat) : Tree → Node
  | t@⟨kind, _, _, c :: _, _⟩ => if isWrapper kind then unwrappedFrom (k + 1) c else ⟨k, t⟩
  | t => ⟨k, t⟩

/-- The expression inside the groupings around the node. -/
def unwrapped (n : Node) : Node :=
  unwrappedFrom n.number n.tree

end Node

namespace Flow

/-! ### Literals -/

/-- The value of a whole number of base sixteen with an optional sign, within 64 bits. -/
def hexLiteral? (cs : List Char) : Option Int :=
  let (negative, digits) := Decimal.splitSign cs
  if digits.isEmpty || !digits.all isHexDigit then none
  else
    let n : Int := ofDigits 16 digits
    let i := if negative then -n else n
    if -signedBound ≤ i ∧ i < signedBound then some i else none

/-- Whether the text of a number stands for anything but zero. Underscores are passed over, and so
is the mark of big integers at the end. -/
def isNonzeroNumber (text : String) : Bool :=
  let cs := ((text.toList.filter (· != '_')).reverse.dropWhile (· == 'n')).reverse
  match cs with
  | '0' :: 'x' :: hex | '0' :: 'X' :: hex => ((hexLiteral? hex).map (· != 0)).getD false
  | cs =>
    let (_, magnitude) := Decimal.splitSign cs
    if String.ofList (magnitude.map Char.toLower) ∈ ["inf", "infinity"] then true
    else ((Decimal.read? cs).map (·.nearest != 0)).getD false

/-- Whether a text in quotes has anything between them. -/
def isNonemptyQuoted (text : String) : Bool :=
  match text.toList with
  | c :: cs => c ∈ ['"', '\'', '\x60'] && cs.getLast? == some c && 1 < cs.length
  | [] => false

/-- Whether an expression is a literal that counts as true. -/
def isTruthyLiteral (n : Node) : Bool :=
  let n := n.unwrapped
  match n.kind with
  | "true" | "object" | "array" => true
  | "number" | "integer" | "float" | "number_literal" | "decimal_integer_literal" =>
    isNonzeroNumber n.text
  | "string" | "string_literal" | "template_string" => isNonemptyQuoted n.text
  | "bool_literal" | "boolean_literal" | "boolean" => n.text == "true"
  | _ => false

/-- Whether an expression is a literal for the absence of a value. -/
def isNullishLiteral (n : Node) : Bool :=
  let n := n.unwrapped
  match n.kind with
  | "null" | "undefined" | "null_literal" | "none" | "nil" => true
  | "identifier" => n.text == "undefined"
  | _ => false

/-- Whether a value that is about to be used may be absent: a literal for that, a chain that stops
when a link is absent, or a choice with such a literal. -/
def isNullishReceiver (n : Node) : Bool :=
  let n := n.unwrapped
  match n.kind with
  | "member_expression" | "call_expression" | "subscript_expression" =>
    (n.field? "optional_chain").isSome || n.children.any (·.kind == "optional_chain")
  | "ternary_expression" | "conditional_expression" =>
    (n.field? "consequence").any isNullishLiteral || (n.field? "alternative").any isNullishLiteral
  | _ => isNullishLiteral n

/-! ### Loops and functions -/

/-- Whether a `break` or a `return` stands anywhere below the node. -/
def containsLoopExit (n : Node) : Bool :=
  n.descendants.any fun d => d.construct == .breakJump || d.construct == .returnJump

/-- Whether the condition of a loop always holds. A missing condition does so in a `for`. -/
def alwaysHolds (n : Node) : Bool :=
  match n.field? "condition" with
  | some condition =>
    let condition := condition.unwrapped
    -- An empty condition between two semicolons is a node of its own.
    condition.kind == "empty_statement" || condition.kind == ";" || isTruthyLiteral condition
  | none => n.construct == .forLoop

/-- Whether a loop seems to have no end: its condition always holds and nothing in its body leaves
it. -/
def isInfiniteLoop (n : Node) : Bool :=
  alwaysHolds n && !(n.field? "body").any containsLoopExit

/-- The type that an annotation gives, without the mark in front of it. -/
def annotatedType (text : String) : String :=
  let cs := (trim text).toList
  trim <| String.ofList <|
    match cs with
    | ':' :: rest => rest
    | '-' :: '>' :: rest => rest
    | rest => rest

/-- The types of functions that return no value. -/
def emptyTypes : List String :=
  ["", "void", "never", "undefined", "None", "()", "Promise<void>"]

/-- Whether a function declares that it returns a value. -/
def declaresValue (function : Node) : Bool :=
  match function.field? "return_type" with
  | some annotation => !emptyTypes.contains (annotatedType annotation.text)
  | none => false

end Flow

end Arbor
