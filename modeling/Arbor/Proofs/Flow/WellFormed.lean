import Arbor.Proofs.Flow.Construction

/-!
# Well-formed graphs

A graph keeps its edges three times: as a list, and at their two ends as sets of successors and
predecessors. In a well-formed graph the three agree, no edge is listed twice, and the entry and the
exit stand where they should. Every step of building keeps a graph well-formed.
-/

namespace Arbor.Flow

namespace Graph

/-- The representation of a graph is consistent. -/
structure WellFormed (g : Graph) : Prop where
  ids : ∀ (i : Nat) (p : Point), g.points[i]? = some p → p.id = i
  entry : g.entry = 0
  exits : g.exits = [1]
  kind_entry : ∀ i, g.kind? i = some .entry ↔ i = 0
  kind_exit : ∀ i, g.kind? i = some .exit ↔ i = 1
  range : ∀ e ∈ g.edges, e.source < g.points.size ∧ e.target < g.points.size
  simple : g.edges.toList.Pairwise fun e e' => (e.source, e.target) ≠ (e'.source, e'.target)
  successors : ∀ u v, v ∈ g.successors u ↔ g.Arc u v
  predecessors : ∀ u v, u ∈ g.predecessors v ↔ g.Arc u v
  source_entry : ∀ u, ¬ g.Arc u 0
  sink_exit : g.IsSink 1

/-! ### Neighbours -/

variable {g : Graph} {e : Edge} {u v : Nat}

lemma addPoint_successors (k : PointKind) (sp : Span) (o : Option Node) :
    (g.addPoint k sp o).successors u = g.successors u := by
  unfold successors point?
  rw [addPoint_point?]
  split_ifs with h <;> simp [h]

lemma addPoint_predecessors (k : PointKind) (sp : Span) (o : Option Node) :
    (g.addPoint k sp o).predecessors u = g.predecessors u := by
  unfold predecessors point?
  rw [addPoint_point?]
  split_ifs with h <;> simp [h]

lemma mem_insertEdge_successors (h : e.source < g.points.size) :
    v ∈ (g.insertEdge e).successors u ↔ v ∈ g.successors u ∨ e.source = u ∧ e.target = v := by
  simp only [mem_successors_iff, insertEdge_point?, Option.map_eq_some_iff]
  constructor
  · rintro ⟨_, ⟨p, hp, rfl⟩, hv⟩
    simp only [Point.note] at hv
    split_ifs at hv with hu
    · rcases PointSet.mem_insert.1 hv with rfl | hv
      · exact .inr ⟨hu.symm, rfl⟩
      · exact .inl ⟨p, hp, hv⟩
    · exact .inl ⟨p, hp, hv⟩
  · rintro (⟨p, hp, hv⟩ | ⟨rfl, rfl⟩)
    · exact ⟨_, ⟨p, hp, rfl⟩, (Point.Grew.note p u e).successors hv⟩
    · refine ⟨_, ⟨g.points[e.source], Array.getElem?_eq_getElem h, rfl⟩, ?_⟩
      simp [Point.note]

lemma mem_insertEdge_predecessors (h : e.target < g.points.size) :
    u ∈ (g.insertEdge e).predecessors v ↔ u ∈ g.predecessors v ∨ e.source = u ∧ e.target = v := by
  simp only [mem_predecessors_iff, insertEdge_point?, Option.map_eq_some_iff]
  constructor
  · rintro ⟨_, ⟨p, hp, rfl⟩, hu⟩
    simp only [Point.note] at hu
    split_ifs at hu with hv
    · rcases PointSet.mem_insert.1 hu with rfl | hu
      · exact .inr ⟨rfl, hv.symm⟩
      · exact .inl ⟨p, hp, hu⟩
    · exact .inl ⟨p, hp, hu⟩
  · rintro (⟨p, hp, hu⟩ | ⟨rfl, rfl⟩)
    · exact ⟨_, ⟨p, hp, rfl⟩, (Point.Grew.note p v e).predecessors hu⟩
    · refine ⟨_, ⟨g.points[e.target], Array.getElem?_eq_getElem h, rfl⟩, ?_⟩
      simp [Point.note]

/-! ### Steps -/

namespace WellFormed

lemma fresh (sp : Span) : (Graph.fresh sp).WellFormed := by
  have hpoint (i : Nat) : (Graph.fresh sp).points[i]? =
      if i = 1 then some ⟨1, .exit, sp, none, [], [], false⟩
      else if i = 0 then some ⟨0, .entry, sp, none, [], [], false⟩ else none := by
    simp [Graph.fresh, addPoint_point?]
  have hedges : (Graph.fresh sp).edges = #[] := rfl
  have harc (u v : Nat) : ¬ (Graph.fresh sp).Arc u v := by
    rintro ⟨e, he, -⟩
    simp [hedges] at he
  refine ⟨fun i p hp => ?_, rfl, rfl, fun i => ?_, fun i => ?_, by simp [hedges], by simp [hedges],
    fun u v => ?_, fun u v => ?_, fun u => harc u 0, fun v => harc 1 v⟩
  · rw [hpoint] at hp
    split_ifs at hp with h1 h0
    · rw [← Option.some.inj hp, h1]
    · rw [← Option.some.inj hp, h0]
  · simp only [kind?, point?, hpoint]
    split_ifs <;> simp_all
  · simp only [kind?, point?, hpoint]
    split_ifs <;> simp_all
  · simp only [Graph.successors, point?, hpoint, harc, iff_false]
    split_ifs <;> simp
  · simp only [Graph.predecessors, point?, hpoint, harc, iff_false]
    split_ifs <;> simp

lemma addPoint (h : g.WellFormed) {k : PointKind} (sp : Span) (o : Option Node)
    (hentry : k ≠ .entry) (hexit : k ≠ .exit) : (g.addPoint k sp o).WellFormed where
  ids i p hp := by
    rw [addPoint_point?] at hp
    split_ifs at hp with hi
    · obtain rfl := Option.some.inj hp
      exact hi.symm
    · exact h.ids i p hp
  entry := h.entry
  exits := h.exits
  kind_entry i := by
    -- The new point is not the first and is of another kind.
    by_cases hi : i = g.points.size
    · have := lt_size_of_kind? ((h.kind_entry 0).2 rfl)
      subst hi
      simp only [addPoint_kind?_size, Option.some.injEq, hentry, false_iff]
      omega
    · rw [addPoint_kind?_of_ne _ _ _ hi, h.kind_entry]
  kind_exit i := by
    by_cases hi : i = g.points.size
    · have := lt_size_of_kind? ((h.kind_exit 1).2 rfl)
      subst hi
      simp only [addPoint_kind?_size, Option.some.injEq, hexit, false_iff]
      omega
    · rw [addPoint_kind?_of_ne _ _ _ hi, h.kind_exit]
  range e he := by
    have := h.range e he
    rw [addPoint_size]
    omega
  simple := h.simple
  successors u v := by
    rw [addPoint_successors]
    exact h.successors u v
  predecessors u v := by
    rw [addPoint_predecessors]
    exact h.predecessors u v
  source_entry := h.source_entry
  sink_exit := h.sink_exit

lemma insertEdge (h : g.WellFormed) (he : g.Admissible e)
    (hnew : e.target ∉ g.successors e.source) : (g.insertEdge e).WellFormed := by
  obtain ⟨ks, hks, hexit⟩ := he.source
  obtain ⟨kt, hkt, hentry⟩ := he.target
  have hs := lt_size_of_kind? hks
  have ht := lt_size_of_kind? hkt
  have hsize : (g.insertEdge e).points.size = g.points.size := by simp [Graph.insertEdge]
  refine ⟨fun i p hp => ?_, h.entry, h.exits, by simpa using h.kind_entry,
    by simpa using h.kind_exit, fun e' he' => ?_, ?_, fun u v => ?_, fun u v => ?_, fun u ha => ?_,
    fun v ha => ?_⟩
  · rw [insertEdge_point?] at hp
    obtain ⟨q, hq, rfl⟩ := Option.map_eq_some_iff.1 hp
    exact h.ids i q hq
  · rw [hsize]
    rcases Array.mem_push.1 he' with he' | rfl
    · exact h.range e' he'
    · exact ⟨hs, ht⟩
  · have hlist : (g.insertEdge e).edges.toList = g.edges.toList ++ [e] := by simp [Graph.insertEdge]
    rw [hlist, List.pairwise_append]
    refine ⟨h.simple, by simp, fun e₁ he₁ e₂ he₂ heq => hnew ?_⟩
    obtain rfl := List.mem_singleton.1 he₂
    obtain ⟨hsource, htarget⟩ := Prod.mk.inj heq
    exact (h.successors _ _).2 ⟨e₁, Array.mem_toList_iff.1 he₁, hsource, htarget⟩
  · rw [mem_insertEdge_successors hs, insertEdge_arc_iff, h.successors]
  · rw [mem_insertEdge_predecessors ht, insertEdge_arc_iff, h.predecessors]
  · rcases insertEdge_arc_iff.1 ha with ha | ⟨-, heq⟩
    · exact h.source_entry u ha
    · rw [heq, (h.kind_entry 0).2 rfl] at hkt
      exact hentry (Option.some.inj hkt).symm
  · rcases insertEdge_arc_iff.1 ha with ha | ⟨heq, -⟩
    · exact h.sink_exit v ha
    · rw [heq, (h.kind_exit 1).2 rfl] at hks
      exact hexit (Option.some.inj hks).symm

lemma addEdge (h : g.WellFormed) (he : g.Admissible e) : (g.addEdge e).WellFormed := by
  obtain ⟨heq, -⟩ | ⟨heq, -, -, hnew⟩ := addEdge_cases g e
  · rwa [heq]
  · rw [heq]
    exact h.insertEdge he hnew

lemma step {g' : Graph} (hstep : Step g g') (h : g.WellFormed) : g'.WellFormed := by
  cases hstep with
  | point sp o hentry hexit => exact h.addPoint sp o hentry hexit
  | edge he => exact h.addEdge he

/-- Every graph that is built is well-formed. -/
lemma built {sp : Span} (h : Built (.fresh sp) g) : g.WellFormed :=
  h.keeps step (fresh sp)

end WellFormed

end Graph

end Arbor.Flow
