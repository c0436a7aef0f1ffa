import Arbor.Flow.Expression

/-!
Statements: how each construct is built from the open ends in front of it, and which open ends it
leaves behind.
-/

namespace Arbor.Flow.Walker

variable (w : Walker)

/-! ### Sequences -/

/-- Notes a statement that cannot be reached. It gets a point of its own, without edges. -/
def buildDead (n : Node) (ctx : Context) : Build Unit := do
  let _ ← Build.point .statement n
  w.expression n ctx

/-- Builds statements one after the other. Once there are no open ends left, the rest is dead. -/
def buildAll : List Node → List OpenEnd → Context → Build (List OpenEnd)
  | [], ends, _ => return ends
  | n :: ns, ends, ctx => do
    let ends ← w.statement n ends ctx
    if ends.isEmpty then
      ns.forM (w.buildDead · ctx)
      return []
    else buildAll ns ends ctx

/-- Builds the statements among some nodes in their order. -/
def buildSequence (ns : List Node) (ends : List OpenEnd) (ctx : Context) :
    Build (List OpenEnd) :=
  w.buildAll (ns.filter (·.construct != .ignored)) ends ctx

/-- Builds a statement that does nothing to control flow. -/
def buildPlain (n : Node) (ends : List OpenEnd) (ctx : Context) : Build (List OpenEnd) := do
  let p ← Build.pointAfter .statement n ends
  w.visitExpression n ctx
  return [.plain p]

/-- Builds the part of a statement under a field. Control passes over a part that is missing. -/
def buildField (n : Node) (name : String) (ends : List OpenEnd) (ctx : Context) :
    Build (List OpenEnd) :=
  match n.field? name with
  | some part => w.statement part ends ctx
  | none => return ends

/-- Builds a statement with a label: its body, or else its last child. -/
def buildLabeled (n : Node) (ends : List OpenEnd) (ctx : Context) : Build (List OpenEnd) :=
  match (n.field? "body").or n.children.getLast? with
  | some body => w.statement body ends ctx
  | none => return ends

/-! ### Branches -/

/-- Builds a conditional. -/
def buildConditional (n : Node) (ends : List OpenEnd) (ctx : Context) :
    Build (List OpenEnd) := do
  let branch ← Build.pointAfter .branch n ends
  w.visitField n "condition" ctx
  let taken ← w.buildField n "consequence" [.labelled branch .whenTrue] ctx
  let passed ← w.buildField n "alternative" [.labelled branch .whenFalse] ctx
  .join n (taken ++ passed)

/-- The cases of a switch, which are children of its body or its own. -/
def switchCases (n : Node) : List Node :=
  ((n.field? "body").getD n).children.filter fun c =>
    c.construct == .switchCase || c.construct == .switchDefault

/-- The reason for which control goes to a case. -/
def caseLabel (c : Node) : Label :=
  if c.construct == .switchDefault then .onDefault else .onCase

/-- Builds the cases of a switch. Control enters a case from the branch and from the open ends that
the case before leaves. -/
def buildCases (branch : Nat) : List Node → List OpenEnd → Context → Build (List OpenEnd)
  | [], ends, _ => return ends
  | c :: cs, ends, ctx => do
    let value := c.field? "value"
    w.visitField c "value" ctx
    let statements := c.children.filter fun s => !value.any s.same
    let ends ← w.buildSequence statements (ends ++ [.labelled branch (caseLabel c)]) ctx
    buildCases branch cs ends ctx

/-- Builds a switch. -/
def buildSwitch (n : Node) (ends : List OpenEnd) (ctx : Context) : Build (List OpenEnd) := do
  let branch ← Build.pointAfter .branch n ends
  w.visitField n "value" ctx
  let merge ← Build.point .merge n
  let scope ← Build.openScope .switch (some ctx.scope)
  let cases := switchCases n
  let ends ← w.buildCases branch cases [] (ctx.inSwitch scope merge)
  .link ends merge
  if !cases.any (·.construct == .switchDefault) then
    .edge branch merge (some .onDefault) false
  -- Nothing comes out of a switch whose cases all end elsewhere.
  if ((← get).graph.predecessors merge).isEmpty then return []
  else return [.plain merge]

/-! ### Loops -/

/-- Builds the head and the body of a loop that decides before each round. -/
def buildLoop (n : Node) (ends : List OpenEnd) (ctx : Context) : Build (List OpenEnd) := do
  let head ← Build.point .loop n
  let merge ← Build.point .merge n
  .link ends head
  if let some body := n.field? "body" then
    let ends ← w.statement body [.labelled head .whenTrue] (ctx.inLoop ctx.scope head merge)
    .linkBack ends head
  .edge head merge (some .whenFalse) false
  return [.plain merge]

/-- Notes a loop that seems to have no end. -/
def checkLoop (n : Node) : Build Unit :=
  if isInfiniteLoop n then .emit (.endless n) else pure ()

/-- Builds a loop with a header of several parts. -/
def buildFor (n : Node) (ends : List OpenEnd) (ctx : Context) : Build (List OpenEnd) := do
  let scope ← Build.openScope .loop (some ctx.scope)
  let inner := ctx.withScope scope
  w.visitField n "initializer" inner
  w.visitField n "condition" inner
  w.visitField n "increment" inner
  checkLoop n
  w.buildLoop n ends inner

/-- Builds a loop over the parts of a value. Its header declares new names if it has a keyword for
that, and otherwise writes to what it names. -/
def buildForEach (n : Node) (ends : List OpenEnd) (ctx : Context) : Build (List OpenEnd) := do
  let scope ← Build.openScope .loop (some ctx.scope)
  let inner := ctx.withScope scope
  w.visitField n "right" ctx
  if let some left := n.field? "left" then
    if (n.field? "kind").isSome then .declare scope .initialized left.boundNames
    else w.visitTarget left inner
  w.buildLoop n ends inner

/-- Builds a loop with a condition. -/
def buildWhile (n : Node) (ends : List OpenEnd) (ctx : Context) : Build (List OpenEnd) := do
  let scope ← Build.openScope .loop (some ctx.scope)
  let inner := ctx.withScope scope
  w.visitField n "condition" inner
  checkLoop n
  w.buildLoop n ends inner

/-- Builds a loop that decides after each round. Control enters its body from the code before it,
and again from its head. -/
def buildDoWhile (n : Node) (ends : List OpenEnd) (ctx : Context) : Build (List OpenEnd) := do
  let scope ← Build.openScope .loop (some ctx.scope)
  let head ← Build.point .loop n
  let merge ← Build.point .merge n
  let inner := ctx.inLoop scope head merge
  let ends ← w.buildField n "body" (ends ++ [⟨head, some .whenTrue, true⟩]) inner
  .linkBack ends head
  w.visitField n "condition" inner
  .edge head merge (some .whenFalse) false
  return [.plain merge]

/-! ### Exceptions -/

/-- Builds the handler of a try statement, which is entered wherever the try statement is. -/
def buildHandler (handler : Node) (ends : List OpenEnd) (ctx : Context) :
    Build (List OpenEnd) := do
  let scope ← Build.openScope .catchClause (some ctx.scope)
  .declare scope .implicit ((handler.field? "parameter").toList.flatMap Node.boundNames)
  w.buildField handler "body" (ends.map (·.relabel .onCatch)) (ctx.withScope scope)

/-- Builds a try statement. Its last part runs also if the others leave no open ends, but then
nothing follows it. -/
def buildTry (n : Node) (ends : List OpenEnd) (ctx : Context) : Build (List OpenEnd) := do
  let tried ← w.buildField n "body" ends ctx
  let caught ← match n.field? "handler" with
    | some handler => w.buildHandler handler ends ctx
    | none => pure []
  let out := tried ++ caught
  match n.field? "finalizer" with
  | none => .join n out
  | some finalizer =>
    let body := (finalizer.field? "body").getD finalizer
    if out.isEmpty then
      let _ ← w.statement body (ends.map (·.relabel .onFinally)) ctx
      return []
    else w.statement body (out.map (·.relabel .onFinally)) ctx

/-! ### Jumps -/

/-- Builds a return, which leads to the end of the function. -/
def buildReturn (n : Node) (ends : List OpenEnd) (ctx : Context) : Build (List OpenEnd) := do
  let p ← Build.pointAfter .returnJump n ends
  w.visitAll n.children ctx
  .linkToExits [.plain p]
  return []

/-- Builds a throw, which leads nowhere. -/
def buildThrow (n : Node) (ends : List OpenEnd) (ctx : Context) : Build (List OpenEnd) := do
  let _ ← Build.pointAfter .throwJump n ends
  w.visitAll n.children ctx
  return []

/-- Builds a break, which leads out of the innermost loop or switch. -/
def buildBreak (n : Node) (ends : List OpenEnd) (ctx : Context) : Build (List OpenEnd) := do
  let p ← Build.pointAfter .breakJump n ends
  if let some target := ctx.breakTarget? then
    .edge p target (some .onBreak) false
  return []

/-- Builds a continue, which leads back to the head of the innermost loop. -/
def buildContinue (n : Node) (ends : List OpenEnd) (ctx : Context) : Build (List OpenEnd) := do
  let p ← Build.pointAfter .continueJump n ends
  if let some head := ctx.loopEntry then
    .edge p head (some .onContinue) true
  return []

/-! ### All constructs -/

/-- Builds a statement. -/
def buildStatement (n : Node) (ends : List OpenEnd) (ctx : Context) : Build (List OpenEnd) :=
  match n.construct with
  | .block | .elseClause | .switchCase | .switchDefault => w.buildSequence n.children ends ctx
  | .conditional => w.buildConditional n ends ctx
  | .forLoop => w.buildFor n ends ctx
  | .forEach => w.buildForEach n ends ctx
  | .whileLoop => w.buildWhile n ends ctx
  | .doWhile => w.buildDoWhile n ends ctx
  | .switch => w.buildSwitch n ends ctx
  | .tryCatch => w.buildTry n ends ctx
  | .returnJump => w.buildReturn n ends ctx
  | .throwJump => w.buildThrow n ends ctx
  | .breakJump => buildBreak n ends ctx
  | .continueJump => buildContinue n ends ctx
  | .labeled => w.buildLabeled n ends ctx
  | .ignored => return ends
  | .declaration | .function | .classDef | .statement => w.buildPlain n ends ctx

end Arbor.Flow.Walker
