import Arbor.Node
import Arbor.Error

/-!
Control flow graphs. A graph has points, one of them its entry, and labelled edges between them. The
graph that a program or a function starts with has an entry and one exit; building adds points and
edges, and never a second edge between the same two points. Once a graph is complete, its points are
marked by whether they can be reached from the entry.
-/

namespace Arbor.Flow

/-- What happens at a point of a graph. -/
inductive PointKind where
  | entry
  | exit
  | statement
  /-- Where control takes one of several ways. -/
  | branch
  /-- Where several ways come together. -/
  | merge
  /-- Where a loop decides whether to go on. -/
  | loop
  | returnJump
  | throwJump
  | breakJump
  | continueJump
  deriving DecidableEq, Inhabited, Repr

namespace PointKind

/-- Whether the point stands for no code of its own. -/
def isScaffolding : PointKind → Bool
  | entry | exit | merge => true
  | _ => false

/-- Whether control leaves the function at the point and does not fall off its end. -/
def isExplicitExit : PointKind → Bool
  | returnJump | throwJump => true
  | _ => false

end PointKind

/-- Why control takes an edge. -/
inductive Label where
  | whenTrue
  | whenFalse
  | onCase
  | onDefault
  | onCatch
  | onFinally
  | onBreak
  | onContinue
  deriving DecidableEq, Inhabited, Repr

/-- A set of points, listed in increasing order. -/
abbrev PointSet := List Nat

/-- The set with one more point. -/
def PointSet.insert (p : Nat) : PointSet → PointSet
  | [] => [p]
  | q :: qs => if p < q then p :: q :: qs else if q < p then q :: PointSet.insert p qs else q :: qs

/-- A point of a graph. -/
structure Point where
  id : Nat
  kind : PointKind
  span : Span
  /-- The node of the syntax tree that the point was built for. -/
  origin : Option Node
  successors : PointSet
  predecessors : PointSet
  /-- Whether the point can be reached, once that has been found out. -/
  reachable : Bool
  deriving Inhabited

/-- An edge of a graph. -/
structure Edge where
  source : Nat
  target : Nat
  label : Option Label
  /-- Whether the edge leads back to the head of a loop, or from there into its body again. -/
  back : Bool
  deriving DecidableEq, Inhabited, Repr

/-- A control flow graph. -/
structure Graph where
  entry : Nat
  exits : List Nat
  points : Array Point
  edges : Array Edge
  deriving Inhabited

namespace Graph

/-- The graph with one more point; its id is its index. -/
def addPoint (g : Graph) (kind : PointKind) (span : Span) (origin : Option Node) : Graph :=
  { g with points := g.points.push ⟨g.points.size, kind, span, origin, [], [], false⟩ }

/-- The graph with one more edge, unless there is one between the two points already. The first
label of an edge stays. -/
def addEdge (g : Graph) (e : Edge) : Graph :=
  match g.points[e.source]? with
  | none => g
  | some p =>
    if g.points.size ≤ e.target || p.successors.contains e.target then g
    else
      { g with
        points :=
          (g.points.modify e.source fun p =>
            { p with successors := PointSet.insert e.target p.successors }).modify e.target
              fun p => { p with predecessors := PointSet.insert e.source p.predecessors }
        edges := g.edges.push e }

/-- A graph with nothing but its entry and its exit. -/
def fresh (span : Span) : Graph :=
  ((Graph.mk 0 [1] #[] #[]).addPoint .entry span none).addPoint .exit span none

/-- The point at an index. -/
def point? (g : Graph) (i : Nat) : Option Point := g.points[i]?

/-- The points to which an edge leads from a point. -/
def successors (g : Graph) (i : Nat) : PointSet :=
  ((g.point? i).map (·.successors)).getD []

/-- The points from which an edge leads to a point. -/
def predecessors (g : Graph) (i : Nat) : PointSet :=
  ((g.point? i).map (·.predecessors)).getD []

/-- The first edge between two points. -/
def edge? (g : Graph) (source target : Nat) : Option Edge :=
  g.edges.find? fun e => e.source == source && e.target == target

/-- The edges that lead back. -/
def backEdges (g : Graph) : Array Edge :=
  g.edges.filter (·.back)

/-- The points of a kind. -/
def ofKind (g : Graph) (kind : PointKind) : Array Point :=
  g.points.filter (·.kind == kind)

/-- The points that stand for code which is not reached. -/
def unreachable (g : Graph) : Array Point :=
  g.points.filter fun p => !p.reachable && !p.kind.isScaffolding

/-! ### Reachability -/

/-- The place of the point with an id, the last one if there are several. -/
def index? (g : Graph) (id : Nat) : Option Nat :=
  (g.points.toList.zipIdx.reverse.find? (·.1.id == id)).map (·.2)

/-- The edges between points of the graph, as pairs of ids. -/
def arcs (g : Graph) : List (Nat × Nat) :=
  let ids := g.points.toList.map (·.id)
  (g.edges.toList.filter fun e => ids.contains e.source && ids.contains e.target).map
    fun e => (e.source, e.target)

/-- Goes along arcs from the points that were reached last, for at most `n` rounds. -/
def spread (arcs : List (Nat × Nat)) : Nat → List Nat → List Nat → List Nat
  | 0, _, seen => seen
  | n + 1, last, seen =>
    let next := ((arcs.filter fun a => last.contains a.1 && !seen.contains a.2).map (·.2)).eraseDups
    if next.isEmpty then seen else spread arcs n next (next ++ seen)

/-- The ids that can be reached from an id. Every round but the last reaches a new point. -/
def reach (g : Graph) (start : Nat) : List Nat :=
  spread g.arcs g.points.size [start] [start]

/-- The graph with its points marked as reachable from the entry or not. -/
def markReachable (g : Graph) : Except Error Graph :=
  match g.index? g.entry with
  | none => .error (.invariant s!"entry node {g.entry} not found")
  | some _ =>
    let reached := g.reach g.entry
    .ok { g with points := g.points.mapIdx fun i p => { p with reachable := reached.contains i } }

/-- Whether an exit can be reached other than by returning or throwing. -/
def fallsOffEnd (g : Graph) : Bool :=
  g.exits.any fun exit => (g.predecessors exit).any fun p =>
    match g.point? p with
    | some p => p.reachable && !p.kind.isExplicitExit
    | none => false

end Graph

end Arbor.Flow
