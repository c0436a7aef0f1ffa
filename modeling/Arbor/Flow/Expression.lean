import Arbor.Binding
import Arbor.Flow.Draft
import Arbor.Flow.Literal

/-!
Expressions: which names they read, write and declare, and which values they use that may be absent.
A name is read unless it stands on the left of an assignment, which writes it, or under an increment
or decrement, which does both.
-/

namespace Arbor.Flow

/-- What an expression does with its parts. -/
inductive ExpressionForm where
  | name
  | declarator
  | assignment
  | update
  /-- The use of the value under a field. -/
  | use (receiver : String)
  /-- Nothing in it is evaluated. -/
  | inert
  | function
  | classDef
  /-- All its parts are evaluated. -/
  | compound
  deriving DecidableEq, Repr

/-- The form of a kind of node. -/
def ExpressionForm.ofKind (kind : String) : ExpressionForm :=
  match kind with
  | "identifier" | "shorthand_property_identifier" => name
  | "variable_declarator" => declarator
  | "assignment_expression" => assignment
  | "update_expression" => update
  | "member_expression" | "subscript_expression" => use "object"
  | "call_expression" => use "function"
  | "import_statement" => inert
  | kind =>
    match Construct.ofKind kind with
    | .function => function
    | .classDef => classDef
    | _ => compound

/-- The form that the node has as an expression. -/
def expressionForm (n : Node) : ExpressionForm := .ofKind n.kind

/-- Whether a function declares its name outside itself. -/
def bindsNameOutside (kind : String) : Bool :=
  ["function_declaration", "generator_function_declaration", "function_definition"].contains kind

namespace Walker

variable (w : Walker)

/-- Visits expressions one after the other. -/
def visitAll (ns : List Node) (ctx : Context) : Build Unit :=
  ns.forM (w.expression · ctx)

/-- Visits the part under a field. -/
def visitField (n : Node) (name : String) (ctx : Context) : Build Unit :=
  w.visitAll (n.field? name).toList ctx

/-- Visits what is assigned to. A name is written; anything else is evaluated. -/
def visitTarget (n : Node) (ctx : Context) : Build Unit :=
  let target := n.unwrapped
  if expressionForm target = .name then .emit (.written ctx.scope target)
  else w.expression target ctx

/-- Visits the declaration of variables: the value, the names, the defaults. -/
def visitDeclarator (n : Node) (ctx : Context) : Build Unit := do
  w.visitField n "value" ctx
  if let some target := n.field? "name" then
    let binding := if (n.field? "value").isSome then .initialized else .uninitialized
    .declare ctx.scope binding target.boundNames
    w.visitAll target.bindingDefaults ctx

/-- Visits an increment or decrement. -/
def visitUpdate (n : Node) (ctx : Context) : Build Unit :=
  match (n.field? "argument").map Node.unwrapped with
  | some target =>
    if expressionForm target = .name then do
      .emit (.read ctx.scope target)
      .emit (.written ctx.scope target)
    else w.visitAll n.children ctx
  | none => w.visitAll n.children ctx

/-- Notes the use of a value that may be absent. -/
def checkReceiver (n : Node) (receiver : String) : Build Unit :=
  if (n.field? receiver).any isNullishReceiver then .emit (.nullish n) else pure ()

/-- Visits a function, which gets a graph of its own. -/
def visitFunction (n : Node) (ctx : Context) : Build Unit := do
  if bindsNameOutside n.kind then
    .declare ctx.scope .implicit (n.field? "name").toList
  .onFreshGraph n.span (w.function n ctx)

/-- Visits a class: its name is declared, its other parts are evaluated. -/
def visitClass (n : Node) (ctx : Context) : Build Unit := do
  let name := n.field? "name"
  .declare ctx.scope .implicit name.toList
  w.visitAll (n.children.filter fun c => !name.any c.same) ctx

/-- Visits an expression. -/
def visitExpression (n : Node) (ctx : Context) : Build Unit :=
  match expressionForm n with
  | .name => .emit (.read ctx.scope n)
  | .declarator => w.visitDeclarator n ctx
  | .assignment => do
    w.visitField n "right" ctx
    if let some left := n.field? "left" then
      w.visitTarget left ctx
  | .update => w.visitUpdate n ctx
  | .use receiver => do
    checkReceiver n receiver
    w.visitAll n.children ctx
  | .inert => pure ()
  | .function => w.visitFunction n ctx
  | .classDef => w.visitClass n ctx
  | .compound => w.visitAll n.children ctx

/-! ### Functions -/

/-- Builds the body of a function and gives the open ends behind it. A body that is no block is the
value that the function returns. -/
def buildBody (n : Node) (ends : List OpenEnd) (ctx : Context) : Build (List OpenEnd) :=
  match n.field? "body" with
  | some body =>
    if body.construct = .block then w.statement body ends ctx
    else do
      let p ← Build.pointAfter .returnJump body ends
      w.expression body ctx
      .linkToExits [.plain p]
      return []
  | none => return ends

/-- Declares the parameters of a function one after the other, and visits their defaults. -/
def declareParameters (n : Node) (ctx : Context) : Build Unit :=
  n.parameters.forM fun parameter => do
    .declare ctx.scope .implicit parameter.boundNames
    w.visitAll parameter.bindingDefaults ctx

/-- Builds a function into the graph at hand, which holds nothing else. Its scope lies in the scope
where the function stands, and no jump leads out of it. -/
def buildFunction (n : Node) (ctx : Context) : Build Unit := do
  let scope ← Build.openScope .function (some ctx.scope)
  let inner := Context.root scope
  if !bindsNameOutside n.kind then
    .declare scope .implicit ((n.field? "name").filter (·.kind == "identifier")).toList
  w.declareParameters n inner
  let entry := OpenEnd.plain (← get).graph.entry
  let ends ← w.buildBody n [entry] inner
  .linkToExits ends
  .emit (.finished (some n) (← get).graph)

end Walker

end Arbor.Flow
