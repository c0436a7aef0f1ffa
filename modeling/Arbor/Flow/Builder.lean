import Arbor.Flow.Statement

/-!
The walk through a program. Every step into a part of a node uses up one level of depth; where none
is left, nothing is built. The walk to depth `d` therefore builds each node with the help of the
walk to depth `d - 1`, which ends the recursion.
-/

namespace Arbor.Flow

/-- The walk that adds nothing. -/
def Walker.idle : Walker := ⟨fun _ ends _ => pure ends, fun _ _ => pure (), fun _ _ => pure ()⟩

mutual

/-- Builds a statement with some levels of depth left. -/
def statementTo : Nat → Node → List OpenEnd → Context → Build (List OpenEnd)
  | 0, _, ends, _ => return ends
  | d + 1, n, ends, ctx =>
    Walker.buildStatement ⟨statementTo d, expressionTo d, functionTo d⟩ n ends ctx

/-- Visits an expression with some levels of depth left. -/
def expressionTo : Nat → Node → Context → Build Unit
  | 0, _, _ => return ()
  | d + 1, n, ctx => Walker.visitExpression ⟨statementTo d, expressionTo d, functionTo d⟩ n ctx

/-- Builds a function with some levels of depth left. Without any, the function still gets its
graph, to which its parts add nothing. -/
def functionTo : Nat → Node → Context → Build Unit
  | 0, n, ctx => Walker.idle.buildFunction n ctx
  | d + 1, n, ctx => Walker.buildFunction ⟨statementTo d, expressionTo d, functionTo d⟩ n ctx

end

/-- The walk with some levels of depth left. -/
def walker (d : Nat) : Walker := ⟨statementTo d, expressionTo d, functionTo d⟩

/-- Builds a program, or any other statement by itself. -/
def buildProgram (w : Walker) (root : Node) : Build Unit := do
  let scope ← Build.openScope .program none
  let entry := OpenEnd.plain (← get).graph.entry
  let ends ← w.statement root [entry] (.root scope)
  .linkToExits ends
  .emit (.finished none (← get).graph)

/-- Builds a function by itself. -/
def buildRootFunction (w : Walker) (function : Node) : Build Unit := do
  let scope ← Build.openScope .program none
  w.function function (.root scope)

end Arbor.Flow
