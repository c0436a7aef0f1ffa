import Arbor.Flow.Trace
import Arbor.Flow.Context

/-!
A graph under construction. Building goes through the program with the open ends of the graph: the
points from which control flows into whatever is built next. Each statement takes the open ends in
front of it and leaves those behind it; when there are none left, what follows cannot be reached.
-/

namespace Arbor.Flow

/-- A point from which control flows on, and the edge by which it will do so. -/
structure OpenEnd where
  point : Nat
  label : Option Label
  back : Bool
  deriving DecidableEq, Inhabited, Repr

namespace OpenEnd

/-- Control flows on without a reason. -/
def plain (point : Nat) : OpenEnd := ⟨point, none, false⟩

/-- Control flows on for a reason. -/
def labelled (point : Nat) (label : Label) : OpenEnd := ⟨point, some label, false⟩

/-- Control flows on for another reason. -/
def relabel (e : OpenEnd) (label : Label) : OpenEnd :=
  { e with label := some label }

/-- The edge by which control flows on to a point. -/
def edgeTo (e : OpenEnd) (target : Nat) : Edge := ⟨e.point, target, e.label, e.back⟩

end OpenEnd

/-- The graph under construction, and what the walk has come across. -/
structure Draft where
  /-- The graph of the function that the walk is in, or of the program. -/
  graph : Graph
  /-- The number of scopes opened so far. -/
  scopes : Nat
  trace : Array Event
  deriving Inhabited

namespace Draft

/-- The draft with one more event. -/
def emit (d : Draft) (e : Event) : Draft :=
  { d with trace := d.trace.push e }

/-- The draft with one more scope. -/
def openScope (d : Draft) (kind : ScopeKind) (parent : Option Nat) : Draft :=
  { d.emit (.opened kind parent) with scopes := d.scopes + 1 }

/-- The draft with one more point. -/
def addPoint (d : Draft) (kind : PointKind) (n : Node) : Draft :=
  { d with graph := d.graph.addPoint kind n.span (some n) }

/-- The draft with one more edge. -/
def addEdge (d : Draft) (e : Edge) : Draft :=
  { d with graph := d.graph.addEdge e }

end Draft

/-- Steps of building. -/
abbrev Build := StateM Draft

namespace Build

/-- Notes an event. -/
def emit (e : Event) : Build Unit :=
  modify (·.emit e)

/-- Opens a scope inside another and gives its number. -/
def openScope (kind : ScopeKind) (parent : Option Nat) : Build Nat :=
  modifyGet fun d => (d.scopes, d.openScope kind parent)

/-- Declares names in a scope. -/
def declare (scope : Nat) (binding : Binding) (names : List Node) : Build Unit :=
  names.forM fun name => emit (.declared scope name binding)

/-- Adds a point for a node and gives its number. -/
def point (kind : PointKind) (n : Node) : Build Nat :=
  modifyGet fun d => (d.graph.points.size, d.addPoint kind n)

/-- Adds an edge. -/
def edge (source target : Nat) (label : Option Label) (back : Bool) : Build Unit :=
  modify (·.addEdge ⟨source, target, label, back⟩)

/-- Lets open ends flow on to a point. -/
def link (ends : List OpenEnd) (target : Nat) : Build Unit :=
  ends.forM fun e => modify (·.addEdge (e.edgeTo target))

/-- Lets open ends flow back to the head of their loop. -/
def linkBack (ends : List OpenEnd) (head : Nat) : Build Unit :=
  ends.forM fun e => edge e.point head e.label true

/-- Lets open ends flow on to the end of the function. -/
def linkToExits (ends : List OpenEnd) : Build Unit := do
  for exit in (← get).graph.exits do
    link ends exit

/-- Adds a point for a node and lets open ends flow on to it. -/
def pointAfter (kind : PointKind) (n : Node) (ends : List OpenEnd) : Build Nat := do
  let p ← point kind n
  link ends p
  return p

/-- Brings open ends together. If they all start at one point, the first of them goes on; otherwise
they meet in a new point. -/
def join (n : Node) (ends : List OpenEnd) : Build (List OpenEnd) :=
  match ends with
  | [] => return []
  | first :: _ =>
    if ends.all (·.point == first.point) then return [first]
    else return [.plain (← pointAfter .merge n ends)]

/-- Works on a graph of its own, and then goes back to the graph from before. -/
def onFreshGraph (span : Span) (act : Build Unit) : Build Unit := do
  let outer := (← get).graph
  modify ({ · with graph := .fresh span })
  act
  modify ({ · with graph := outer })

end Build

/-- How the parts of a node are built: as statements, as expressions and as functions. -/
structure Walker where
  /-- Takes the open ends in front of a statement and gives those behind it. -/
  statement : Node → List OpenEnd → Context → Build (List OpenEnd)
  expression : Node → Context → Build Unit
  /-- Builds a function into the graph at hand, which holds nothing else. -/
  function : Node → Context → Build Unit

end Arbor.Flow
