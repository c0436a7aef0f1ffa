import Arbor.Flow.Builder
import Arbor.Flow.Options

/-!
The flow analysis of a program or of a function. The walk finds everything there is to find; the
report leaves out what the options do not ask for.
-/

namespace Arbor.Flow

/-- The result of a flow analysis. -/
structure Report where
  graph : Graph
  reads : Array Access
  writes : Array Access
  captures : Array Access
  uninitializedReads : Array Access
  nullDereferences : Array Span
  unusedVariables : List String
  unreachableCode : Array Span
  infiniteLoops : Array Span
  missingReturns : Array Span
  deriving Inhabited

/-- The list with one more element, unless it is there already. -/
def pushNew (spans : Array Span) (s : Span) : Array Span :=
  if spans.contains s then spans else spans.push s

/-- What stands in a trace besides the uses of variables. -/
structure Findings where
  nullDereferences : Array Span
  infiniteLoops : Array Span
  /-- Code that is not reached, of the functions first that are finished first. -/
  unreachableCode : Array Span
  /-- Functions that promise a value and may end without one. -/
  missingReturns : Array Span
  deriving Inhabited

namespace Findings

/-- Nothing is found. -/
def none : Findings := ⟨#[], #[], #[], #[]⟩

/-- Adds what a finished graph shows. -/
def finish (f : Findings) (function : Option Node) (g : Graph) : Findings :=
  { f with
    unreachableCode := g.unreachable.foldl (fun spans p => pushNew spans p.span) f.unreachableCode
    missingReturns :=
      match function with
      | some n =>
        if declaresValue n && g.fallsOffEnd then f.missingReturns.push n.span else f.missingReturns
      | Option.none => f.missingReturns }

/-- Adds what an event shows. -/
def record (f : Findings) : Event → Except Error Findings
  | .endless n => .ok { f with infiniteLoops := f.infiniteLoops.push n.span }
  | .nullish n => .ok { f with nullDereferences := pushNew f.nullDereferences n.span }
  | .finished function g => g.markReachable.map (f.finish function)
  | .opened .. | .declared .. | .read .. | .written .. => .ok f

/-- What a trace shows. -/
def ofTrace (trace : Array Event) : Except Error Findings :=
  trace.foldlM record none

end Findings

/-- The report on a finished draft. -/
def report (o : Options) (d : Draft) : Except Error Report := do
  let graph ← d.graph.markReachable
  let found ← Findings.ofTrace d.trace
  let ledger := Ledger.ofTrace d.trace
  return {
    graph
    reads := ledger.reads
    writes := ledger.writes
    captures := ledger.captures
    uninitializedReads := if o.uninitializedReads then ledger.uninitialized else #[]
    nullDereferences := if o.nullDereferences then found.nullDereferences else #[]
    unusedVariables := if o.unusedVariables then ledger.scopes.unused else []
    unreachableCode := if o.unreachable then found.unreachableCode else #[]
    infiniteLoops := if o.infiniteLoops then found.infiniteLoops else #[]
    missingReturns := if o.missingReturns then found.missingReturns else #[] }

/-- The draft before the first step. -/
def Draft.start (n : Node) : Draft := ⟨.fresh n.span, 0, #[]⟩

/-- The finished draft of a program. The program itself stands at depth zero. -/
def draftProgram (o : Options) (root : Node) : Draft :=
  (buildProgram (walker (o.maxDepth + 1)) root (.start root)).2

/-- The finished draft of a function. -/
def draftFunction (o : Options) (function : Node) : Draft :=
  (buildRootFunction (walker (o.maxDepth + 1)) function (.start function)).2

/-- Analyzes a program, or any other statement by itself. -/
def analyze (o : Options) (root : Node) : Except Error Report :=
  report o (draftProgram o root)

/-- Analyzes a function by itself: its parameters are bound, and its body is the graph. -/
def analyzeFunction (o : Options) (function : Node) : Except Error Report :=
  report o (draftFunction o function)

end Arbor.Flow
