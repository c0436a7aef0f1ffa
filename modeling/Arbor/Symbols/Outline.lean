import Arbor.Node.Below
import Arbor.Symbols.Model

/-!
The outline of a program: the scopes that it opens, one inside the other, and what is declared in
each, in the order of the text. An outline says nothing of the places where names are used.
-/

namespace Arbor.Symbols

/-- What is declared. -/
structure Declaration where
  name : String
  kind : SymbolKind
  span : Span
  /-- The node that spells the name, which is no use of the name. -/
  node : Option Node
  visibility : Visibility := .unmarked
  imported : Bool := false
  parameters : Option (List String) := none

/-- The declaration of the name that a node spells. -/
def Declaration.of (kind : SymbolKind) (name : Node) : Declaration where
  name := name.text
  kind := kind
  span := name.span
  node := some name

/-- An item of an outline. -/
inductive Outline where
  /-- A node with what it holds. -/
  | node (n : Node) (inner : List Outline)
  /-- A declaration in the scope at hand. -/
  | declare (d : Declaration)
  /-- A declaration in the scope around the one at hand. -/
  | declareOutside (d : Declaration)
  /-- A scope with what it holds. -/
  | scope (kind : ScopeKind) (owner : Node) (inner : List Outline)
  /-- Items whose declarations in the scope at hand are exported. -/
  | exporting (inner : List Outline)
  /-- Names of the scope at hand that are exported if they are declared by now. -/
  | exportNames (names : List String)

namespace Outline

/-- The declarations of names. -/
def declareAll (kind : SymbolKind) (names : List Node) : List Outline :=
  names.map fun name => declare (.of kind name)

/-- The names of the parameters of a function. -/
def parameterNames (function : Node) : List String :=
  (function.parameters.flatMap Node.boundNames).map (·.text)

/-- Who may use the member of a class. A name that starts with a hash mark is private. -/
def memberVisibility (member name : Node) : Visibility :=
  if name.kind == "private_property_identifier" || name.text.toList.head? == some '#' then
    .ownClass
  else match member.children.find? (·.kind == "accessibility_modifier") with
    | some modifier => .ofModifier modifier.text
    | none => .unmarked

/-! ### The forms of declarations -/

/-- What a node declares or opens. -/
inductive Form where
  | function
  | functionExpression
  | method
  | classDef
  | property
  | declarator
  | importing
  | exporting
  | interface
  | typeAlias
  | enum
  | module
  | block
  | loop
  | conditional
  | switch
  | catchClause
  /-- Nothing by itself. -/
  | other
  deriving DecidableEq, Repr

/-- The kinds of nodes that have each form. -/
def Form.kinds : List (Form × List String) :=
  [(function, ["function_declaration", "generator_function_declaration"]),
   (functionExpression,
     ["function_expression", "function", "generator_function", "arrow_function"]),
   (method, ["method_definition", "method_signature", "abstract_method_signature"]),
   (classDef, ["class_declaration", "abstract_class_declaration", "class"]),
   (property, ["field_definition", "public_field_definition"]),
   (declarator, ["variable_declarator"]),
   (importing, ["import_statement"]),
   (exporting, ["export_statement"]),
   (interface, ["interface_declaration"]),
   (typeAlias, ["type_alias_declaration"]),
   (enum, ["enum_declaration"]),
   (module, ["internal_module", "module"]),
   (block, ["statement_block"]),
   (loop, ["for_statement", "for_in_statement"]),
   (conditional, ["if_statement"]),
   (switch, ["switch_statement"]),
   (catchClause, ["catch_clause"])]

/-- The form of a node. A module without a name is like any other node. -/
def Form.of (n : Node) : Form :=
  match (kinds.find? (·.2.contains n.kind)).map (·.1) with
  | some module => if (n.field? "name").isSome then module else other
  | some form => form
  | none => other

section

variable {n : Node} (visit : Below n → List Outline)

/-- The items of a body, whose own braces open no scope. -/
def body (c : Below n) : List Outline :=
  if c.1.kind == "statement_block" then c.children.flatMap visit else visit c

/-- The items of what stands under a field, if anything does. -/
def part (name : String) : List Outline :=
  (n.belowField? name).toList.flatMap visit

end

section

variable (n : Node) (visit : Below n → List Outline)

/-- The name of the node. -/
def named (kind : SymbolKind) : List Outline :=
  declareAll kind (n.field? "name").toList

/-- The scope of a function: `this` for a method, the name of a function expression, the parameters
with their defaults, the body. -/
def functionScope (isMethod : Bool) : Outline :=
  let this : List Outline :=
    if isMethod then [declare { name := "this", kind := .parameter, span := n.span, node := none }]
    else []
  let ownName :=
    if Form.of n = .function then []
    else declareAll .function ((n.field? "name").filter (·.kind == "identifier")).toList
  let parameters := n.belowParameters.flatMap fun p =>
    declareAll .parameter p.1.boundNames ++ p.bindingDefaults.flatMap visit
  scope .function n
    (this ++ ownName ++ parameters ++ (n.belowField? "body").toList.flatMap (body visit))

/-- A function with a name, and its scope. -/
def namedFunction (kind : SymbolKind) : List Outline :=
  let own := (n.field? "name").toList.map fun name =>
    declare { Declaration.of kind name with
      parameters := some (parameterNames n)
      visibility := if kind = .method then memberVisibility n name else .unmarked }
  own ++ [functionScope n visit (kind = .method)]

/-- A class. The name of a class expression is declared inside it, any other outside. -/
def classScope : Outline :=
  let name := n.field? "name"
  let own := name.toList.map fun name =>
    if n.kind == "class" then declare (.of .classDef name)
    else declareOutside (.of .classDef name)
  let members := (n.below.filter fun c => !name.any c.1.same).flatMap fun c =>
    if c.1.kind == "class_body" then c.children.flatMap visit else visit c
  scope .classDef n (own ++ members)

/-- A property of a class. -/
def property : List Outline :=
  let own := (n.fieldOr? "name" "property").toList.map fun name =>
    declare { Declaration.of .property name with visibility := memberVisibility n name }
  own ++ part visit "value"

/-- The declaration of variables: the value comes before the names. -/
def declarator : List Outline :=
  part visit "value" ++ (n.belowField? "name").toList.flatMap fun target =>
    declareAll .var target.1.boundNames ++ target.bindingDefaults.flatMap visit

/-- The names that one part of an import clause brings in. -/
def importedNames (part : Node) : List (SymbolKind × Node) :=
  match part.kind with
  | "identifier" => [(.var, part)]
  | "namespace_import" =>
    (part.children.find? (·.kind == "identifier")).toList.map (.module, ·)
  | "named_imports" =>
    part.children.flatMap fun specifier =>
      (specifier.fieldOr? "alias" "name").toList.map (.var, ·)
  | _ => []

/-- The names that an import declares. -/
def importing : List Outline :=
  (n.children.find? (·.kind == "import_clause")).toList.flatMap fun clause =>
    (clause.children.flatMap importedNames).map fun e =>
      declare { Declaration.of e.1 e.2 with imported := true }

/-- An export: declarations under it are exported, and so are names listed in a clause. -/
def exportItems : Outline :=
  exporting <| n.below.flatMap fun c =>
    if c.1.kind == "export_clause" then
      [exportNames (c.1.children.flatMap fun s => (s.field? "name").toList.map (·.text))]
    else visit c

/-- The name that a member of an enumeration declares. -/
def memberName? (member : Node) : Option Node :=
  match member.kind with
  | "enum_assignment" => member.field? "name"
  | "property_identifier" | "string" => some member
  | _ => none

/-- An enumeration, whose members have a scope of their own. -/
def enumeration : List Outline :=
  named n .enum ++ (n.belowField? "body").toList.map fun members =>
    scope .block members.1 <| members.children.flatMap fun m =>
      declareAll .enumMember (memberName? m.1).toList
        ++ (m.field? "value").toList.flatMap visit

/-- A loop, whose header belongs to its scope. The names on the left of a loop over the parts of a
value are declared if there is a keyword for that. -/
def loopScope : Outline :=
  let left := if n.kind == "for_in_statement" then n.field? "left" else none
  let names := if (n.field? "kind").isSome then left.toList.flatMap Node.boundNames else []
  scope .loop n
    (declareAll .var names ++ (n.below.filter fun c => !left.any c.1.same).flatMap visit)

/-- One side of a conditional, with a scope for the statement inside an else clause. -/
def side (branch : Below n) : List Outline :=
  let inner := if branch.1.kind == "else_clause" then branch.children.head? else some branch
  inner.toList.map fun b => scope .conditional b.1 (body visit b)

/-- A conditional. -/
def conditional : List Outline :=
  part visit "condition"
    ++ (n.belowField? "consequence").toList.flatMap (side n visit)
    ++ (n.belowField? "alternative").toList.flatMap (side n visit)

/-- A switch, whose cases share a scope. -/
def switch : List Outline :=
  part visit "value" ++ (n.belowField? "body").toList.map fun cases =>
    scope .switch cases.1 (cases.children.flatMap visit)

/-- The handler of a try statement, with its parameter. -/
def handler : Outline :=
  scope .catchClause n
    (declareAll .parameter ((n.field? "parameter").toList.flatMap Node.boundNames)
      ++ (n.belowField? "body").toList.flatMap (body visit))

/-- The items of a node, given those of the nodes below it. -/
def step : List Outline :=
  match Form.of n with
  | .function => namedFunction n visit .function
  | .functionExpression => [functionScope n visit false]
  | .method => namedFunction n visit .method
  | .classDef => [classScope n visit]
  | .property => property n visit
  | .declarator => declarator n visit
  | .importing => importing n
  | .exporting => [exportItems n visit]
  | .interface => named n .interface
  | .typeAlias => named n .type
  | .enum => enumeration n visit
  | .module => named n .module ++ part visit "body"
  | .block => [scope .block n (n.below.flatMap visit)]
  | .loop => [loopScope n visit]
  | .conditional => conditional n visit
  | .switch => switch n visit
  | .catchClause => [handler n visit]
  | .other => n.below.flatMap visit

end

end Outline

/-- The outline of a node. -/
def outline (n : Node) : List Outline :=
  [.node n (Outline.step n fun c => outline c.1)]
termination_by n.size
decreasing_by exact c.2

end Arbor.Symbols
