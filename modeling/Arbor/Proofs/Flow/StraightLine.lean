import Arbor.Proofs.Flow.Finally
import Arbor.Proofs.Height

/-!
# Straight-line code

Blocks, clauses and labels by themselves leave no mark in a graph. A statement that is made of them
and of plain statements, nested in any way, has the graph of its plain statements in a row: a path
from the entry through one point for each of them to the exit.
-/

namespace Arbor

/-- Whether the construct only holds statements that are built one after the other. -/
def Construct.isGroup : Construct → Bool
  | .block | .elseClause | .switchCase | .switchDefault | .labeled => true
  | _ => false

namespace Flow

open Relation Flow.Graph

/-! ### Plain statements in groups -/

/-- The statement is made of groups, plain statements and what is left out. -/
inductive StraightLine : Node → Prop where
  | plain {n : Node} (h : n.construct.isPlain = true) : StraightLine n
  | ignored {n : Node} (h : n.construct = .ignored) : StraightLine n
  | group {n : Node} (h : n.construct.isGroup = true)
      (hparts : ∀ m ∈ statementParts n, StraightLine m) : StraightLine n

/-- The plain statements of a statement, from left to right. -/
def plainStatements (n : Node) : List Node :=
  if n.construct.isPlain then [n]
  else (statementParts n).attach.flatMap fun m => plainStatements m.1
termination_by n.size
decreasing_by exact (inside_of_mem_statementParts m.2).size_lt

lemma plainStatements_of_isPlain {n : Node} (h : n.construct.isPlain = true) :
    plainStatements n = [n] := by
  rw [plainStatements, if_pos h]

lemma plainStatements_of_not_isPlain {n : Node} (h : n.construct.isPlain = false) :
    plainStatements n = (statementParts n).flatMap plainStatements := by
  rw [plainStatements, if_neg (by simp [h]), List.flatMap_subtype (g := plainStatements) (by simp)]
  simp

lemma plainStatements_ignored {n : Node} (h : n.construct = .ignored) : plainStatements n = [] := by
  rw [plainStatements_of_not_isPlain (by rw [h]; rfl)]
  simp [statementParts, h]

lemma flatMap_filter_plainStatements (ns : List Node) :
    (ns.filter (·.construct != .ignored)).flatMap plainStatements =
      ns.flatMap plainStatements := by
  induction ns with
  | nil => rfl
  | cons n ns ih =>
    by_cases h : n.construct = .ignored
    · rw [List.filter_cons_of_neg (by simp [h]), List.flatMap_cons, plainStatements_ignored h, ih,
        List.nil_append]
    · rw [List.filter_cons_of_pos (by simpa using h), List.flatMap_cons, List.flatMap_cons, ih]

/-! ### Building in a row -/

/-- Adds a point for each of some statements, each behind the one before, and gives the last. -/
def buildRow (u : Nat) (g : Graph) (ss : List Node) : Nat × Graph :=
  ss.foldl (fun r s => (r.2.points.size, r.2.pointAfter .statement s [.plain r.1])) (u, g)

lemma buildRow_append (u : Nat) (g : Graph) (ss ss' : List Node) :
    buildRow u g (ss ++ ss') = buildRow (buildRow u g ss).1 (buildRow u g ss).2 ss' := by
  rw [buildRow, List.foldl_append]
  rfl

/-- The skeleton adds the statements in a row, to whatever point comes before them. -/
def Skeleton.IsRow (s : Skeleton) (ss : List Node) : Prop :=
  ∀ t u g, s.build t [.plain u] g = ([.plain (buildRow u g ss).1], (buildRow u g ss).2)

namespace Skeleton.IsRow

lemma pass : Skeleton.pass.IsRow [] := by
  intro t u g
  rw [Skeleton.build]
  rfl

lemma plain (n : Node) : (Skeleton.plain n).IsRow [n] := by
  intro t u g
  rw [Skeleton.build]
  rfl

lemma andThen {first rest : Skeleton} {ss ss' : List Node} (h : first.IsRow ss)
    (h' : rest.IsRow ss') (dead : List Node) :
    (Skeleton.andThen first dead rest).IsRow (ss ++ ss') := by
  intro t u g
  rw [Skeleton.build, h t u g, if_neg (by simp), h', buildRow_append]

lemma sequence {sk : Node → Skeleton} {ns : List Node}
    (h : ∀ n ∈ ns, (sk n).IsRow (plainStatements n)) :
    (Skeleton.sequence sk ns).IsRow (ns.flatMap plainStatements) := by
  induction ns with
  | nil => exact .pass
  | cons n ns ih =>
    rw [Skeleton.sequence, List.flatMap_cons]
    exact (h n List.mem_cons_self).andThen (ih fun m hm => h m (List.mem_cons_of_mem _ hm)) ns

lemma statements {sk : Node → Skeleton} {ns : List Node}
    (h : ∀ n ∈ ns, (sk n).IsRow (plainStatements n)) :
    (Skeleton.statements sk ns).IsRow (ns.flatMap plainStatements) := by
  rw [← flatMap_filter_plainStatements]
  exact sequence fun n hn => h n (List.mem_filter.1 hn).1

lemma part {sk : Node → Skeleton} {part : Option Node}
    (h : ∀ n ∈ part.toList, (sk n).IsRow (plainStatements n)) :
    (Skeleton.part sk part).IsRow (part.toList.flatMap plainStatements) := by
  cases part with
  | none => exact .pass
  | some n =>
    rw [Option.toList_some, List.flatMap_singleton]
    exact h n (by simp)

/-- A group is the row of its parts. -/
lemma group {sk : Node → Skeleton} {n : Node} (hn : n.construct.isGroup = true)
    (h : ∀ m ∈ statementParts n, (sk m).IsRow (plainStatements m)) :
    (Skeleton.ofNode sk n).IsRow ((statementParts n).flatMap plainStatements) := by
  unfold Skeleton.ofNode
  unfold statementParts at h ⊢
  cases hc : n.construct <;> simp only [hc, Construct.isGroup, Bool.false_eq_true] at hn h ⊢
  case block | elseClause | switchCase | switchDefault => exact statements h
  case labeled => exact part h

end Skeleton.IsRow

/-- With enough levels of depth, straight-line code is built in a row. -/
lemma StraightLine.isRow {n : Node} (h : StraightLine n) {d : Nat} (hd : n.height ≤ d) :
    (skeleton d n).IsRow (plainStatements n) := by
  induction h generalizing d with
  | @plain n h =>
    obtain ⟨d, rfl⟩ := Nat.exists_eq_add_of_lt (Nat.lt_of_lt_of_le n.height_pos hd)
    rw [Nat.zero_add, skeleton_plain h, plainStatements_of_isPlain h]
    exact .plain n
  | @ignored n h =>
    obtain ⟨d, rfl⟩ := Nat.exists_eq_add_of_lt (Nat.lt_of_lt_of_le n.height_pos hd)
    rw [Nat.zero_add, skeleton, Skeleton.ofNode, h, plainStatements_ignored h]
    exact .pass
  | @group n h hparts ih =>
    obtain ⟨d, rfl⟩ := Nat.exists_eq_add_of_lt (Nat.lt_of_lt_of_le n.height_pos hd)
    have hplain : n.construct.isPlain = false := by
      cases hc : n.construct <;> simp_all [Construct.isGroup, Construct.isPlain]
    rw [Nat.zero_add, skeleton, plainStatements_of_not_isPlain hplain]
    refine .group h fun m hm => ih m hm ?_
    have hlt := Node.height_lt_of_inside (inside_of_mem_statementParts hm)
    omega

/-! ### Paths -/

/-- The edges from each point of a way to the next. -/
def steps (way : List Nat) : List Edge := (way.zip way.tail).map fun a => ⟨a.1, a.2, none, false⟩

@[simp] lemma steps_cons_cons (u v : Nat) (way : List Nat) :
    steps (u :: v :: way) = ⟨u, v, none, false⟩ :: steps (v :: way) := rfl

lemma steps_append {way : List Nat} {u : Nat} (h : way.getLast? = some u) (v : Nat) :
    steps (way ++ [v]) = steps way ++ [⟨u, v, none, false⟩] := by
  induction way with
  | nil => cases h
  | cons w way ih =>
    cases way with
    | nil =>
      obtain rfl : w = u := by simpa using h
      rfl
    | cons w' way =>
      rw [List.getLast?_cons_cons] at h
      rw [List.cons_append, List.cons_append, steps_cons_cons, steps_cons_cons,
        ← List.cons_append, ih h]
      rfl

lemma length_steps (u : Nat) (way : List Nat) : (steps (u :: way)).length = way.length := by
  simp [steps]

lemma target_mem_of_mem_steps {way : List Nat} {e : Edge} (h : e ∈ steps way) :
    e.target ∈ way.tail := by
  obtain ⟨a, ha, rfl⟩ := List.mem_map.1 h
  exact (List.of_mem_zip ha).2

/-- A way leads to each of its points. -/
lemma reflTransGen_of_steps {g : Graph} {u v : Nat} (way : List Nat)
    (h : ∀ e ∈ steps (u :: way), e ∈ g.edges) (hv : v ∈ u :: way) : ReflTransGen g.Arc u v := by
  induction way generalizing u with
  | nil =>
    obtain rfl : v = u := by simpa using hv
    exact .refl
  | cons w way ih =>
    rw [steps_cons_cons] at h
    have hfirst : g.Arc u w := ⟨_, h _ List.mem_cons_self, rfl, rfl⟩
    rcases List.mem_cons.1 hv with rfl | hv
    · exact .refl
    · exact .head hfirst (ih (fun e he => h e (List.mem_cons_of_mem _ he)) hv)

namespace Graph

variable {g : Graph} {e : Edge}

/-- An edge between points that have none is added behind the others. -/
lemma WellFormed.edges_addEdge (h : g.WellFormed) (hs : e.source < g.points.size)
    (ht : e.target < g.points.size) (hnew : ¬ g.Arc e.source e.target) :
    (g.addEdge e).edges.toList = g.edges.toList ++ [e] := by
  obtain ⟨-, hold⟩ | ⟨heq, -⟩ := addEdge_cases g e
  · exact absurd ((h.successors _ _).1 (hold hs ht)) hnew
  · rw [heq]
    simp [Graph.insertEdge]

/-- The graph is a path from its entry through points for some statements, on which `u` is the
last. -/
structure RowTo (g : Graph) (u : Nat) (ss : List Node) : Prop where
  wellFormed : g.WellFormed
  size : g.points.size = ss.length + 2
  statements : ∀ i s, ss[i]? = some s → g.StandsFor (i + 2) .statement s
  last : (0 :: List.range' 2 ss.length).getLast? = some u
  edges : g.edges.toList = steps (0 :: List.range' 2 ss.length)

namespace RowTo

variable {u : Nat} {ss : List Node}

lemma fresh (sp : Span) : (Graph.fresh sp).RowTo 0 [] :=
  ⟨.fresh sp, rfl, by simp, rfl, rfl⟩

/-- The last point is the entry or that of a statement. -/
lemma open_last (h : g.RowTo u ss) : g.Open (.plain u) := by
  have hmem := List.mem_of_getLast? h.last
  rcases List.mem_cons.1 hmem with rfl | hmem
  · exact ⟨.entry, (h.wellFormed.kind_entry 0).2 rfl, rfl, by simp [OpenEnd.plain]⟩
  · obtain ⟨i, hi, rfl⟩ := List.mem_range'.1 hmem
    have hstands := h.statements i ss[i] (List.getElem?_eq_getElem hi)
    refine ⟨.statement, ?_, rfl, by simp [OpenEnd.plain]⟩
    simpa [OpenEnd.plain, Nat.add_comm] using hstands.kind?

lemma inRange (h : g.RowTo u ss) : g.InRange := by
  rintro v w ⟨e, he, rfl, rfl⟩
  exact (h.wellFormed.range e he).1

/-- The row goes on with one more statement. -/
lemma pointAfter (h : g.RowTo u ss) (x : Node) :
    (g.pointAfter .statement x [.plain u]).RowTo g.points.size (ss ++ [x]) := by
  have hopen := h.open_last
  have hbuilt : Built g (g.pointAfter .statement x [.plain u]) :=
    .pointAfter h.inRange (by simpa using hopen) (by decide) (by decide) x
  have hedges : (g.pointAfter .statement x [.plain u]).edges.toList =
      g.edges.toList ++ [⟨u, g.points.size, none, false⟩] := by
    have hpoint := h.wellFormed.addPoint (k := .statement) x.span (some x) (by decide) (by decide)
    refine hpoint.edges_addEdge ?_ ?_ ?_
    · rw [addPoint_size]
      exact Nat.lt_succ_of_lt hopen.lt_size
    · rw [addPoint_size]
      exact Nat.lt_succ_self _
    · rintro ⟨e, he, -, htarget⟩
      exact absurd htarget (Nat.ne_of_lt (h.wellFormed.range e he).2)
  have hrange : List.range' 2 (ss.length + 1) = List.range' 2 ss.length ++ [g.points.size] := by
    rw [List.range'_concat, h.size]
    simp [Nat.add_comm]
  refine ⟨hbuilt.keeps WellFormed.step h.wellFormed, ?_, fun i s hi => ?_, ?_, ?_⟩
  · rw [pointAfter_size, h.size, List.length_append]
    rfl
  · -- The statement is one of those before, or the new one.
    rcases Nat.lt_trichotomy i ss.length with hlt | rfl | hgt
    · rw [List.getElem?_append_left hlt] at hi
      have hgrown : Grown [] ⟨none, none⟩ g (g.addPoint .statement x.span (some x)) :=
        (Grown.refl _ _ g).addPoint _ _ _
      exact ((h.statements i s hi).grown hgrown).addEdges _
    · obtain rfl : x = s := by simpa using hi
      rw [← h.size]
      exact standsFor_pointAfter g .statement x _
    · rw [List.getElem?_eq_none (by simp; omega)] at hi
      cases hi
  · rw [List.length_append, List.length_singleton, hrange, ← List.cons_append, List.getLast?_concat]
  · rw [List.length_append, List.length_singleton, hrange, ← List.cons_append,
      steps_append h.last, ← h.edges]
    exact hedges

lemma buildRow (h : g.RowTo u ss) (ss' : List Node) :
    (Flow.buildRow u g ss').2.RowTo (Flow.buildRow u g ss').1 (ss ++ ss') := by
  induction ss' generalizing g u ss with
  | nil =>
    rw [List.append_nil]
    exact h
  | cons x ss' ih =>
    rw [List.append_cons]
    exact ih (h.pointAfter x)

end RowTo

/-- The graph is a path from its entry through points for some statements to its exit, and all of it
is marked as reachable. -/
structure IsPath (g : Graph) (ss : List Node) : Prop where
  size : g.points.size = ss.length + 2
  edgeCount : g.edges.size = ss.length + 1
  entry : g.entry = 0 ∧ g.kind? 0 = some .entry
  exit : g.exits = [1] ∧ g.kind? 1 = some .exit
  statements : ∀ i s, ss[i]? = some s → g.StandsFor (i + 2) .statement s
  edges : g.edges.toList = steps (0 :: List.range' 2 ss.length ++ [1])
  reachable : ∀ p ∈ g.points, p.reachable = true

/-- A row that leads to the exit is a path. -/
lemma RowTo.isPath {u : Nat} {ss : List Node} (h : g.RowTo u ss)
    (hG : (g.addEdge ⟨u, 1, none, false⟩).WellFormed) :
    (g.addEdge ⟨u, 1, none, false⟩).marked.IsPath ss := by
  -- So far nothing leads to the exit, since edges lead to statements only.
  have hnew : ¬ g.Arc u 1 := by
    rintro ⟨e, he, -, htarget⟩
    rw [← Array.mem_toList_iff, h.edges] at he
    have hmem := target_mem_of_mem_steps he
    rw [htarget, List.tail_cons, List.mem_range'] at hmem
    obtain ⟨i, -, hi⟩ := hmem
    omega
  have hexit : 1 < g.points.size := by
    rw [h.size]
    omega
  have hedges : (g.addEdge ⟨u, 1, none, false⟩).edges.toList =
      steps (0 :: List.range' 2 ss.length ++ [1]) := by
    rw [steps_append h.last, ← h.edges]
    exact h.wellFormed.edges_addEdge h.open_last.lt_size hexit hnew
  have hreach : ∀ i < ss.length + 2, (g.addEdge ⟨u, 1, none, false⟩).Reachable i := by
    intro i hi
    rw [Reachable, hG.entry]
    -- The way along the row comes by every point.
    refine reflTransGen_of_steps (List.range' 2 ss.length ++ [1]) (fun e he => ?_) ?_
    · rw [← Array.mem_toList_iff, hedges]
      exact he
    · rw [List.mem_cons, List.mem_append, List.mem_range', List.mem_singleton]
      match i with
      | 0 => exact .inl rfl
      | 1 => exact .inr (.inr rfl)
      | i + 2 => exact .inr (.inl ⟨i, by omega, by omega⟩)
  refine ⟨?_, ?_, ⟨hG.entry, ?_⟩, ⟨hG.exits, ?_⟩, fun i s hi => ?_, hedges, fun p hp => ?_⟩
  · rw [marked_size, addEdge_size, h.size]
  · rw [marked_edges, ← Array.length_toList, hedges, List.cons_append, length_steps]
    simp
  · rw [marked_kind?]
    exact (hG.kind_entry 0).2 rfl
  · rw [marked_kind?]
    exact (hG.kind_exit 1).2 rfl
  · exact ((h.statements i s hi).addEdge _).marked
  · obtain ⟨i, hi, rfl⟩ := Array.getElem_of_mem hp
    rw [hG.marked_reachable_iff (Array.getElem?_eq_getElem hi)]
    apply hreach
    rw [marked_size, addEdge_size, h.size] at hi
    exact hi

end Graph

/-- The graph of straight-line code is a path through its plain statements. -/
theorem analyze_straightLine (o : Options) (n : Node) (h : StraightLine n)
    (hdepth : n.height ≤ o.maxDepth + 1) :
    ∃ r, analyze o n = .ok r ∧ r.graph.IsPath (plainStatements n) := by
  have hD := wellFormed_draftProgram o n
  obtain ⟨r, hr, hgraph, -⟩ := hD.report_eq o
  refine ⟨r, hr, ?_⟩
  have hrow := (RowTo.fresh n.span).buildRow (plainStatements n)
  have hwellFormed := hD.graph
  rw [draftProgram_graph, programGraph, Skeleton.graphFrom_fresh, h.isRow hdepth]
    at hgraph hwellFormed
  rw [hgraph]
  exact hrow.isPath hwellFormed

/-- A declaration under a label, behind a comment, and then a class in a clause. -/
theorem analyze_straightLine_nested :
    let declaration : Tree := .leaf "lexical_declaration" "let x;"
    let block : Tree := ⟨"block", "", .zero, [.leaf "comment" "", declaration], ∅⟩
    let labelled : Tree := ⟨"labeled_statement", "", .zero, [.leaf "identifier" "a", block],
      .ofList [("body", 1)]⟩
    let cls : Tree := .leaf "class_declaration" "class C \x7b\x7d"
    let clause : Tree := ⟨"else_clause", "", .zero, [cls], ∅⟩
    let n := Node.root ⟨"program", "", .zero, [labelled, clause], ∅⟩
    StraightLine n ∧ n.height ≤ ({} : Options).maxDepth + 1 ∧
      plainStatements n = [⟨5, declaration⟩, ⟨7, cls⟩] ∧
      ∃ r, analyze {} n = .ok r ∧ r.graph.IsPath (plainStatements n) := by
  intro declaration block labelled cls clause n
  have hline : StraightLine n := by
    refine .group (by decide) fun m hm => ?_
    rcases List.mem_pair.1 hm with rfl | rfl
    · refine .group (by decide) fun m hm => ?_
      obtain rfl := List.mem_singleton.1 hm
      refine .group (by decide) fun m hm => ?_
      rcases List.mem_pair.1 hm with rfl | rfl
      · exact .ignored (by decide)
      · exact .plain (by decide)
    · refine .group (by decide) fun m hm => ?_
      obtain rfl := List.mem_singleton.1 hm
      exact .plain (by decide)
  have hdepth : n.height ≤ ({} : Options).maxDepth + 1 := by decide
  have hblock : plainStatements ⟨3, block⟩ = [⟨5, declaration⟩] := by
    rw [plainStatements_of_not_isPlain (by decide),
      show statementParts ⟨3, block⟩ = [⟨4, .leaf "comment" ""⟩, ⟨5, declaration⟩] from rfl,
      List.flatMap_cons, List.flatMap_singleton, plainStatements_ignored (by decide),
      plainStatements_of_isPlain (by decide), List.nil_append]
  have hclause : plainStatements ⟨6, clause⟩ = [⟨7, cls⟩] := by
    rw [plainStatements_of_not_isPlain (by decide),
      show statementParts ⟨6, clause⟩ = [⟨7, cls⟩] from rfl, List.flatMap_singleton,
      plainStatements_of_isPlain (by decide)]
  have hstatements : plainStatements n = [⟨5, declaration⟩, ⟨7, cls⟩] := by
    rw [plainStatements_of_not_isPlain (by decide),
      show statementParts n = [⟨1, labelled⟩, ⟨6, clause⟩] from rfl, List.flatMap_cons,
      List.flatMap_singleton, hclause, plainStatements_of_not_isPlain (by decide),
      show statementParts ⟨1, labelled⟩ = [⟨3, block⟩] from rfl, List.flatMap_singleton, hblock,
      List.singleton_append]
  exact ⟨hline, hdepth, hstatements, analyze_straightLine {} n hline hdepth⟩

end Flow

end Arbor
