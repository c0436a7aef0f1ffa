import Arbor.Proofs.Flow.Trace
import Arbor.Proofs.Flow.WellFormed

/-!
# Reports

A report fails only if a graph has lost its entry, and no graph that is built has. So every analysis
comes to an end with a report, and the graph in it is well-formed.
-/

namespace Arbor.Flow

namespace Graph

variable {g : Graph}

/-! ### Marks -/

/-- The graph with its points marked as reachable from the entry or not. -/
def marked (g : Graph) : Graph :=
  { g with points := g.points.mapIdx fun i p =>
      { p with reachable := (g.reach g.entry).contains i } }

@[simp] lemma marked_entry : g.marked.entry = g.entry := rfl

@[simp] lemma marked_exits : g.marked.exits = g.exits := rfl

@[simp] lemma marked_edges : g.marked.edges = g.edges := rfl

@[simp] lemma marked_size : g.marked.points.size = g.points.size := by
  simp [marked]

lemma marked_point? (i : Nat) :
    g.marked.points[i]? =
      g.points[i]?.map fun p => { p with reachable := (g.reach g.entry).contains i } := by
  simp [marked]

@[simp] lemma marked_kind? (i : Nat) : g.marked.kind? i = g.kind? i := by
  simp only [kind?, point?, marked_point?, Option.map_map]
  rfl

@[simp] lemma marked_successors (i : Nat) : g.marked.successors i = g.successors i := by
  simp only [successors, point?, marked_point?, Option.map_map]
  rfl

@[simp] lemma marked_predecessors (i : Nat) : g.marked.predecessors i = g.predecessors i := by
  simp only [predecessors, point?, marked_point?, Option.map_map]
  rfl

@[simp] lemma marked_arc {u v : Nat} : g.marked.Arc u v ↔ g.Arc u v := Iff.rfl

namespace WellFormed

lemma marked (h : g.WellFormed) : g.marked.WellFormed where
  ids i p hp := by
    rw [marked_point?] at hp
    obtain ⟨q, hq, rfl⟩ := Option.map_eq_some_iff.1 hp
    exact h.ids i q hq
  entry := h.entry
  exits := h.exits
  kind_entry := by simpa using h.kind_entry
  kind_exit := by simpa using h.kind_exit
  range := by simpa using h.range
  simple := h.simple
  successors := by simpa using h.successors
  predecessors := by simpa using h.predecessors
  source_entry := h.source_entry
  sink_exit := h.sink_exit

/-- The points of a well-formed graph can be marked, since its entry is there. -/
lemma markReachable_eq (h : g.WellFormed) : g.markReachable = .ok g.marked := by
  obtain ⟨p, hp, -⟩ := kind?_eq_some_iff.1 ((h.kind_entry 0).2 rfl)
  have hindex : (g.index? g.entry).isSome := by
    rw [index?, Option.isSome_map, List.find?_isSome]
    refine ⟨(p, 0), ?_, ?_⟩
    · rw [List.mem_reverse, List.mk_mem_zipIdx_iff_getElem?]
      simpa using hp
    · simp [h.entry, h.ids 0 p hp]
  obtain ⟨i, hi⟩ := Option.isSome_iff_exists.1 hindex
  rw [markReachable, hi]
  rfl

end WellFormed

end Graph

/-! ### Findings -/

namespace Findings

/-- Adds what an event shows, with the graphs in it marked. -/
def add (f : Findings) : Event → Findings
  | .endless n => { f with infiniteLoops := f.infiniteLoops.push n.span }
  | .nullish n => { f with nullDereferences := pushNew f.nullDereferences n.span }
  | .finished function g => f.finish function g.marked
  | .opened .. | .declared .. | .read .. | .written .. => f

lemma record_eq {e : Event} (h : ∀ f g, e = .finished f g → g.WellFormed) (found : Findings) :
    found.record e = .ok (found.add e) := by
  cases e with
  | finished f g =>
    rw [record, (h f g rfl).markReachable_eq]
    rfl
  | opened | declared | read | written | endless | nullish => rfl

/-- Nothing goes wrong with a trace all of whose graphs are well-formed. -/
lemma ofTrace_eq {trace : Array Event} (h : ∀ f g, .finished f g ∈ trace → g.WellFormed) :
    ofTrace trace = .ok (trace.foldl add none) := by
  obtain ⟨events⟩ := trace
  simp only [ofTrace, List.foldlM_toArray, List.foldl_toArray]
  generalize none = found
  induction events generalizing found with
  | nil => rfl
  | cons e events ih =>
    rw [List.foldlM_cons, record_eq fun f g he => h f g (by simp [he])]
    exact ih (fun f g hmem => h f g (by simp_all)) _

end Findings

/-! ### Analyses -/

/-- All graphs of the draft are well-formed. -/
structure Draft.WellFormed (D : Draft) : Prop where
  graph : D.graph.WellFormed
  trace : ∀ f g, .finished f g ∈ D.trace → g.WellFormed

lemma wellFormed_programGraph (d : Nat) (n : Node) : (programGraph d n).WellFormed :=
  .built (built_programGraph d n)

lemma wellFormed_functionGraph (d : Nat) (n : Node) : (functionGraph d n).WellFormed :=
  .built (built_functionGraph d n)

lemma wellFormed_draftProgram (o : Options) (root : Node) : (draftProgram o root).WellFormed := by
  refine ⟨draftProgram_graph o root ▸ wellFormed_programGraph _ _, fun f g hmem => ?_⟩
  rcases finished_draftProgram o root hmem with ⟨⟨n, d, -, rfl, -⟩, -⟩ | ⟨-, rfl⟩
  · exact wellFormed_functionGraph d n
  · exact wellFormed_programGraph _ _

lemma wellFormed_draftFunction (o : Options) (n : Node) : (draftFunction o n).WellFormed := by
  refine ⟨draftFunction_graph o n ▸ wellFormed_functionGraph _ _, fun f g hmem => ?_⟩
  obtain ⟨m, d, -, rfl, -⟩ := complete_draftFunction o n hmem
  exact wellFormed_functionGraph d m

/-- What the trace of the draft shows. -/
def Draft.found (D : Draft) : Findings := D.trace.foldl Findings.add .none

/-- The report has the graph of the draft, and of what was found that which is asked for. -/
structure Report.Shows (r : Report) (o : Options) (D : Draft) : Prop where
  graph : r.graph = D.graph.marked
  unreachableCode : r.unreachableCode = if o.unreachable then D.found.unreachableCode else #[]
  infiniteLoops : r.infiniteLoops = if o.infiniteLoops then D.found.infiniteLoops else #[]
  missingReturns : r.missingReturns = if o.missingReturns then D.found.missingReturns else #[]
  nullDereferences :
    r.nullDereferences = if o.nullDereferences then D.found.nullDereferences else #[]

/-- A draft with well-formed graphs gets its report. -/
lemma Draft.WellFormed.report_shows {D : Draft} (h : D.WellFormed) (o : Options) :
    ∃ r, report o D = .ok r ∧ r.Shows o D := by
  rw [report, h.graph.markReachable_eq, Findings.ofTrace_eq h.trace]
  exact ⟨_, rfl, rfl, rfl, rfl, rfl, rfl⟩

/-- The report has the uses of variables in the ledger, and of what they show that which is asked
for. -/
structure Report.ShowsUses (r : Report) (o : Options) (l : Ledger) : Prop where
  reads : r.reads = l.reads
  writes : r.writes = l.writes
  captures : r.captures = l.captures
  uninitializedReads : r.uninitializedReads = if o.uninitializedReads then l.uninitialized else #[]
  unusedVariables : r.unusedVariables = if o.unusedVariables then l.scopes.unused else []

lemma Draft.WellFormed.report_showsUses {D : Draft} (h : D.WellFormed) (o : Options) :
    ∃ r, report o D = .ok r ∧ r.ShowsUses o (Ledger.ofTrace D.trace) := by
  rw [report, h.graph.markReachable_eq, Findings.ofTrace_eq h.trace]
  exact ⟨_, rfl, rfl, rfl, rfl, rfl, rfl⟩

lemma Draft.WellFormed.report_eq {D : Draft} (h : D.WellFormed) (o : Options) :
    ∃ r, report o D = .ok r ∧ r.graph = D.graph.marked ∧
      r.missingReturns =
        if o.missingReturns then (D.trace.foldl Findings.add .none).missingReturns else #[] := by
  obtain ⟨r, hr, hshows⟩ := h.report_shows o
  exact ⟨r, hr, hshows.graph, hshows.missingReturns⟩

/-- Every analysis ends with a report whose graph is well-formed. -/
theorem analyses_wellFormed (o : Options) (n : Node) :
    (∃ r, analyze o n = .ok r ∧ r.graph.WellFormed) ∧
      (∃ r, analyzeFunction o n = .ok r ∧ r.graph.WellFormed) := by
  constructor
  · have hD := wellFormed_draftProgram o n
    obtain ⟨r, hr, hgraph, -⟩ := hD.report_eq o
    exact ⟨r, hr, hgraph ▸ hD.graph.marked⟩
  · have hD := wellFormed_draftFunction o n
    obtain ⟨r, hr, hgraph, -⟩ := hD.report_eq o
    exact ⟨r, hr, hgraph ▸ hD.graph.marked⟩

end Arbor.Flow
