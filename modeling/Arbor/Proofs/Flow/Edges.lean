import Arbor.Flow.Draft
import Mathlib.Logic.Relation
import Mathlib.Tactic.Common

/-!
# Points and edges of a growing graph

What the two ways of extending a graph do to it. A new point changes nothing that is there. A new
edge is either refused, or it stands behind the edges that are there and is noted at both its ends.
-/

namespace Arbor.Flow

@[simp] lemma PointSet.mem_insert {p q : Nat} {s : PointSet} :
    q ∈ PointSet.insert p s ↔ q = p ∨ q ∈ s := by
  induction s with
  | nil => simp [PointSet.insert]
  | cons r s ih =>
    rw [PointSet.insert]
    split_ifs with hlt hgt
    · simp
    · simp only [List.mem_cons, ih]
      tauto
    · have hpr : p = r := by omega
      simp [hpr]

/-- The point at index `i` once it knows of an edge. -/
def Point.note (p : Point) (i : Nat) (e : Edge) : Point :=
  { p with
    successors := if i = e.source then PointSet.insert e.target p.successors else p.successors
    predecessors :=
      if i = e.target then PointSet.insert e.source p.predecessors else p.predecessors }

/-- The edge by which control flows back to the head of a loop. -/
def OpenEnd.backTo (e : OpenEnd) (head : Nat) : Edge := ⟨e.point, head, e.label, true⟩

namespace Graph

variable {g : Graph} {e : Edge} {i u v : Nat}

/-- The kind of the point at an index. -/
def kind? (g : Graph) (i : Nat) : Option PointKind := (g.point? i).map (·.kind)

/-- An edge leads from one point to another. -/
def Arc (g : Graph) (u v : Nat) : Prop := ∃ e ∈ g.edges, e.source = u ∧ e.target = v

lemma kind?_eq_some_iff {k : PointKind} :
    g.kind? i = some k ↔ ∃ p, g.points[i]? = some p ∧ p.kind = k := by
  simp [kind?, point?]

lemma lt_size_of_kind? {k : PointKind} (h : g.kind? i = some k) : i < g.points.size := by
  obtain ⟨p, hp, -⟩ := kind?_eq_some_iff.1 h
  exact (Array.getElem?_eq_some_iff.1 hp).1

lemma mem_successors_iff :
    v ∈ g.successors u ↔ ∃ p, g.points[u]? = some p ∧ v ∈ p.successors := by
  cases h : g.points[u]? <;> simp [successors, point?, h]

lemma mem_predecessors_iff :
    u ∈ g.predecessors v ↔ ∃ p, g.points[v]? = some p ∧ u ∈ p.predecessors := by
  cases h : g.points[v]? <;> simp [predecessors, point?, h]

/-! ### New points -/

section AddPoint

variable (k : PointKind) (sp : Span) (o : Option Node)

@[simp] lemma addPoint_entry : (g.addPoint k sp o).entry = g.entry := rfl

@[simp] lemma addPoint_exits : (g.addPoint k sp o).exits = g.exits := rfl

@[simp] lemma addPoint_edges : (g.addPoint k sp o).edges = g.edges := rfl

@[simp] lemma addPoint_size : (g.addPoint k sp o).points.size = g.points.size + 1 := by
  simp [addPoint]

lemma addPoint_point? (i : Nat) :
    (g.addPoint k sp o).points[i]? =
      if i = g.points.size then some ⟨g.points.size, k, sp, o, [], [], false⟩
      else g.points[i]? := by
  simp only [addPoint, Array.getElem?_push]

@[simp] lemma addPoint_kind?_size : (g.addPoint k sp o).kind? g.points.size = some k := by
  simp only [kind?, point?, addPoint_point?, if_pos, Option.map_some]

lemma addPoint_kind?_of_ne (h : i ≠ g.points.size) :
    (g.addPoint k sp o).kind? i = g.kind? i := by
  simp only [kind?, point?, addPoint_point?, if_neg h]

lemma addPoint_kind?_of_eq_some {k' : PointKind} (h : g.kind? i = some k') :
    (g.addPoint k sp o).kind? i = some k' := by
  rw [addPoint_kind?_of_ne _ _ _ (Nat.ne_of_lt (lt_size_of_kind? h)), h]

@[simp] lemma addPoint_arc : (g.addPoint k sp o).Arc u v ↔ g.Arc u v := Iff.rfl

end AddPoint

/-! ### New edges -/

/-- The graph with an edge behind those it has, whether or not there is one like it. -/
def insertEdge (g : Graph) (e : Edge) : Graph :=
  { g with
    points :=
      (g.points.modify e.source fun p =>
        { p with successors := PointSet.insert e.target p.successors }).modify e.target
          fun p => { p with predecessors := PointSet.insert e.source p.predecessors }
    edges := g.edges.push e }

lemma insertEdge_point? (i : Nat) :
    (g.insertEdge e).points[i]? = g.points[i]?.map (·.note i e) := by
  simp only [insertEdge, Array.getElem?_modify]
  cases g.points[i]? with
  | none => simp
  | some p =>
    simp only [Point.note, eq_comm (a := i)]
    by_cases hs : e.source = i <;> by_cases ht : e.target = i <;> simp [hs, ht]

/-- An edge is refused because one of its ends is missing or because there is one like it, or it is
inserted. -/
lemma addEdge_cases (g : Graph) (e : Edge) :
    (g.addEdge e = g ∧
      (e.source < g.points.size → e.target < g.points.size → e.target ∈ g.successors e.source)) ∨
    (g.addEdge e = g.insertEdge e ∧
      e.source < g.points.size ∧ e.target < g.points.size ∧
      e.target ∉ g.successors e.source) := by
  unfold addEdge
  cases hp : g.points[e.source]? with
  | none =>
    left
    have hs := Array.getElem?_eq_none_iff.1 hp
    exact ⟨rfl, fun h => absurd h (by omega)⟩
  | some p =>
    have hs : e.source < g.points.size := (Array.getElem?_eq_some_iff.1 hp).1
    have hsucc : g.successors e.source = p.successors := by simp [successors, point?, hp]
    rw [hsucc]
    dsimp only
    split_ifs with hc
    · left
      refine ⟨rfl, fun _ ht => ?_⟩
      simpa [Nat.not_le.2 ht] using hc
    · right
      refine ⟨rfl, hs, ?_⟩
      simpa using hc

@[simp] lemma addEdge_entry : (g.addEdge e).entry = g.entry := by
  obtain ⟨h, -⟩ | ⟨h, -⟩ := addEdge_cases g e <;> rw [h]
  rfl

@[simp] lemma addEdge_exits : (g.addEdge e).exits = g.exits := by
  obtain ⟨h, -⟩ | ⟨h, -⟩ := addEdge_cases g e <;> rw [h]
  rfl

@[simp] lemma addEdge_size : (g.addEdge e).points.size = g.points.size := by
  obtain ⟨h, -⟩ | ⟨h, -⟩ := addEdge_cases g e <;> rw [h]
  simp [insertEdge]

@[simp] lemma insertEdge_kind? (i : Nat) : (g.insertEdge e).kind? i = g.kind? i := by
  simp only [kind?, point?, insertEdge_point?, Option.map_map]
  rfl

@[simp] lemma addEdge_kind? (i : Nat) : (g.addEdge e).kind? i = g.kind? i := by
  obtain ⟨h, -⟩ | ⟨h, -⟩ := addEdge_cases g e <;> rw [h]
  exact insertEdge_kind? i

lemma insertEdge_arc_iff :
    (g.insertEdge e).Arc u v ↔ g.Arc u v ∨ e.source = u ∧ e.target = v := by
  simp only [Arc, insertEdge, Array.mem_push]
  constructor
  · rintro ⟨e', he' | rfl, h⟩
    · exact .inl ⟨e', he', h⟩
    · exact .inr h
  · rintro (⟨e', he', h⟩ | h)
    · exact ⟨e', .inl he', h⟩
    · exact ⟨e, .inr rfl, h⟩

lemma arc_of_addEdge (h : (g.addEdge e).Arc u v) : g.Arc u v ∨ e.source = u ∧ e.target = v := by
  obtain ⟨heq, -⟩ | ⟨heq, -⟩ := addEdge_cases g e <;> rw [heq] at h
  · exact .inl h
  · exact insertEdge_arc_iff.1 h

/-! ### Several edges -/

/-- The graph with further edges. -/
def addEdges (g : Graph) (es : List Edge) : Graph := es.foldl addEdge g

section AddEdges

variable (es : List Edge)

@[simp] lemma addEdges_nil : g.addEdges [] = g := rfl

@[simp] lemma addEdges_cons : g.addEdges (e :: es) = (g.addEdge e).addEdges es := rfl

@[simp] lemma addEdges_entry : (g.addEdges es).entry = g.entry := by
  induction es generalizing g with
  | nil => rfl
  | cons e es ih => simp [ih]

@[simp] lemma addEdges_exits : (g.addEdges es).exits = g.exits := by
  induction es generalizing g with
  | nil => rfl
  | cons e es ih => simp [ih]

@[simp] lemma addEdges_size : (g.addEdges es).points.size = g.points.size := by
  induction es generalizing g with
  | nil => rfl
  | cons e es ih => simp [ih]

@[simp] lemma addEdges_kind? (i : Nat) : (g.addEdges es).kind? i = g.kind? i := by
  induction es generalizing g with
  | nil => rfl
  | cons e es ih => simp [ih]

end AddEdges

/-! ### Steps of building -/

/-- The graph with a point for each of some nodes that cannot be reached. -/
def addDead (g : Graph) (ns : List Node) : Graph :=
  ns.foldl (fun g n => g.addPoint .statement n.span (some n)) g

/-- The graph with a point for a node, to which open ends flow on. -/
def pointAfter (g : Graph) (kind : PointKind) (n : Node) (ends : List OpenEnd) : Graph :=
  (g.addPoint kind n.span (some n)).addEdges (ends.map (·.edgeTo g.points.size))

/-- The graph with the two points of a loop, first its head and then the point behind it. -/
def loopPoints (g : Graph) (n : Node) : Graph :=
  (g.addPoint .loop n.span (some n)).addPoint .merge n.span (some n)

/-- The graph with a loop closed: open ends flow back to the head, and the head leads out. -/
def closeLoop (g : Graph) (head : Nat) (ends : List OpenEnd) : Graph :=
  (g.addEdges (ends.map (·.backTo head))).addEdge ⟨head, head + 1, some .whenFalse, false⟩

/-- The graph with a switch closed: open ends flow on to the point behind it, and so does the branch
if there is no case for all other values. -/
def closeSwitch (g : Graph) (branch merge : Nat) (hasDefault : Bool) (ends : List OpenEnd) :
    Graph :=
  (g.addEdges (ends.map (·.edgeTo merge))).addEdges
    (if hasDefault then [] else [⟨branch, merge, some .onDefault, false⟩])

/-- The graph with open ends flowing on to the end of the function. -/
def toExits (g : Graph) (ends : List OpenEnd) : Graph :=
  g.addEdges (g.exits.flatMap fun exit => ends.map (·.edgeTo exit))

/-- The open end at a point, if anything leads there. -/
def endAt (g : Graph) (p : Nat) : List OpenEnd :=
  if (g.predecessors p).isEmpty then [] else [.plain p]

lemma endAt_eq_nil_iff {p : Nat} : g.endAt p = [] ↔ ∀ u, u ∉ g.predecessors p := by
  rw [endAt, ← List.eq_nil_iff_forall_not_mem]
  split_ifs with h
  · exact iff_of_true rfl (List.isEmpty_iff.1 h)
  · exact iff_of_false (by simp) (by simpa using h)

/-- Open ends brought together. -/
def join (g : Graph) (n : Node) : List OpenEnd → List OpenEnd × Graph
  | [] => ([], g)
  | first :: rest =>
    if (first :: rest).all (·.point == first.point) then ([first], g)
    else ([.plain g.points.size], g.pointAfter .merge n (first :: rest))

section Steps

variable (k : PointKind) (n : Node) (ends : List OpenEnd)

@[simp] lemma pointAfter_entry : (g.pointAfter k n ends).entry = g.entry := by
  simp [pointAfter]

@[simp] lemma pointAfter_exits : (g.pointAfter k n ends).exits = g.exits := by
  simp [pointAfter]

@[simp] lemma pointAfter_size : (g.pointAfter k n ends).points.size = g.points.size + 1 := by
  simp [pointAfter]

@[simp] lemma loopPoints_size : (g.loopPoints n).points.size = g.points.size + 2 := by
  simp [loopPoints]

@[simp] lemma loopPoints_kind?_head : (g.loopPoints n).kind? g.points.size = some .loop :=
  addPoint_kind?_of_eq_some _ _ _ (addPoint_kind?_size _ _ _)

@[simp] lemma loopPoints_kind?_exit : (g.loopPoints n).kind? (g.points.size + 1) = some .merge := by
  rw [← addPoint_size .loop n.span (some n)]
  exact addPoint_kind?_size _ _ _

@[simp] lemma closeLoop_size (head : Nat) :
    (g.closeLoop head ends).points.size = g.points.size := by
  simp [closeLoop]

@[simp] lemma closeSwitch_size (branch merge : Nat) (d : Bool) :
    (g.closeSwitch branch merge d ends).points.size = g.points.size := by
  simp [closeSwitch]

lemma toExits_plain (p : Nat) :
    g.toExits [.plain p] = g.addEdges (g.exits.map fun exit => ⟨p, exit, none, false⟩) := by
  simp only [toExits, List.map_cons, List.map_nil, ← List.map_eq_flatMap]
  rfl

end Steps

end Graph

end Arbor.Flow
