import Arbor.Proofs.Flow.Agreement
import Arbor.Proofs.Flow.Report

/-!
# Comments and the flow analysis

The walks over a tree and over the tree with comments leave drafts that are alike, and reports on
such drafts say the same. Only the points of their graphs stand for different nodes: for a node and
for its counterpart.
-/

namespace Arbor.Flow

variable {E : Node → Node → Prop}

/-! ### Graphs -/

namespace Graph.Alike

variable {g g' : Graph} (h : g.Alike E g')
include h

lemma reach (start : Nat) : g'.reach start = g.reach start := by
  have hids : g'.points.toList.map (·.id) = g.points.toList.map (·.id) :=
    map_eq_of_forall₂ h.points fun _ _ hp => hp.id
  rw [Graph.reach, Graph.reach, arcs, arcs, hids, h.edges, h.size]

lemma marked : g.marked.Alike E g'.marked where
  entry := h.entry
  exits := h.exits
  points := by
    refine forall₂_iff_getElem?.2 fun i => ?_
    rw [Array.getElem?_toList, Array.getElem?_toList, marked_point?, marked_point?, h.entry,
      h.reach]
    match g.points[i]?, g'.points[i]?, h.getElem? i with
    | none, none, .none => exact .none
    | some p, some p', .some hp => exact .some { hp with reachable := rfl }
  edges := h.edges

lemma unreachable : List.Forall₂ (Point.Alike E) g.unreachable.toList g'.unreachable.toList := by
  simp only [Graph.unreachable, Array.toList_filter]
  refine List.rel_filter (fun p p' hp => ?_) h.points
  dsimp only
  rw [hp.reachable, hp.kind]

lemma fallsOffEnd : g'.fallsOffEnd = g.fallsOffEnd := by
  rw [Graph.fallsOffEnd, Graph.fallsOffEnd, h.exits]
  refine congrArg g.exits.any (funext fun exit => ?_)
  rw [h.predecessors]
  refine congrArg (List.any _) (funext fun i => ?_)
  have hpoint := h.getElem? i
  rw [point?, point?]
  generalize g.points[i]? = p, g'.points[i]? = p' at hpoint ⊢
  cases hpoint with
  | none => rfl
  | some hp => simp only [hp.reachable, hp.kind]

end Graph.Alike

/-! ### Traces -/

section

variable {spares : Node → List Bool → Prop} (hE : Mirrors spares E)
include hE

lemma Findings.finish_alike {f f' : Option Node} {g g' : Graph} (hf : Option.Rel E f f')
    (hg : g.Alike E g') (found : Findings) : found.finish f' g' = found.finish f g := by
  have hcode : g'.unreachable.foldl (fun spans p => pushNew spans p.span) found.unreachableCode
      = g.unreachable.foldl (fun spans p => pushNew spans p.span) found.unreachableCode := by
    rw [← Array.foldl_toList, ← Array.foldl_toList]
    refine (List.rel_foldl (P := Eq) (fun spans _ hspans p p' hp => ?_) rfl hg.unreachable).symm
    rw [hspans, hp.span]
  simp only [Findings.finish, hcode, hg.fallsOffEnd]
  cases hf with
  | none => rfl
  | some hn => simp only [hE.declaresValue hn, hE.span hn]

lemma Findings.add_alike {e e' : Event} (h : e.Alike E e') (found : Findings) :
    found.add e' = found.add e := by
  cases h with
  | opened | declared | read | written => rfl
  | endless hn | nullish hn => rw [add, add, hE.span hn]
  | finished hf hg => exact finish_alike hE hf hg.marked found

lemma Ledger.record_alike {e e' : Event} (h : e.Alike E e') (l : Ledger) :
    l.record e' = l.record e := by
  cases h with
  | opened | endless | nullish | finished => rfl
  | declared _ _ hn =>
    simp only [record, declare, Access.of, hE.text hn, hE.span hn]
  | read _ hn => simp only [record, read, Access.of, hE.text hn, hE.span hn]
  | written _ hn => simp only [record, write, Access.of, hE.text hn, hE.span hn]

/-! ### Reports -/

/-- The reports say the same, but for the nodes that the points of their graphs were built for. -/
structure Report.Alike (E : Node → Node → Prop) (r r' : Report) : Prop where
  graph : r.graph.Alike E r'.graph
  rest : { r' with graph := r.graph } = r

omit hE in
/-- Events that are alike have the same effect if they are taken one by one. -/
lemma Draft.Alike.foldl_eq {α : Type} {D D' : Draft} (hD : D.Alike E true [] D')
    {step : α → Event → α} (hstep : ∀ a e e', e.Alike E e' → step a e' = step a e) (a : α) :
    D'.trace.foldl step a = D.trace.foldl step a := by
  obtain ⟨later, hseen, hlater⟩ := hD.seen
  rw [seen_true, List.nil_append] at hseen
  rw [seen_true, ← hseen] at hlater
  rw [← Array.foldl_toList, ← Array.foldl_toList]
  refine (List.rel_foldl (P := Eq) (fun b b' hb e e' he => ?_) rfl hlater).symm
  rw [hb, hstep b' e e' he]

lemma Draft.Alike.report {o : Options} {D D' : Draft} (hD : D.Alike E true [] D')
    (hwf : D.WellFormed) (hwf' : D'.WellFormed) :
    ∃ r r', Flow.report o D = .ok r ∧ Flow.report o D' = .ok r' ∧ r.Alike E r' := by
  rw [Flow.report, Flow.report, hwf.graph.markReachable_eq, hwf'.graph.markReachable_eq,
    Findings.ofTrace_eq hwf.trace, Findings.ofTrace_eq hwf'.trace, Ledger.ofTrace, Ledger.ofTrace,
    hD.foldl_eq fun found e e' he => Findings.add_alike hE he found,
    hD.foldl_eq fun l e e' he => Ledger.record_alike hE he l]
  exact ⟨_, _, rfl, rfl, hD.graph.marked, rfl⟩

/-! ### Programs -/

lemma draftProgram_alike (o : Options) {root root' : Node} (h : E root root') :
    (draftProgram o root).Alike E true [] (draftProgram o root') := by
  have hstart : (Draft.start root).Alike E true [] (.start root') := by
    refine ⟨?_, fun _ => rfl, [], by simp [Draft.start], ?_⟩
    · rw [Draft.start, Draft.start, hE.span h]
      exact .fresh root.span
    · simp [Draft.start]
  exact (agrees_buildProgram hE _ _ h (.inl rfl) [] _ _ hstart).2

/-- The flow analysis says the same of a program and of its counterpart. -/
theorem analyze_counterpart (o : Options) {root root' : Node} (h : E root root') :
    ∃ r r', analyze o root = .ok r ∧ analyze o root' = .ok r' ∧ r.Alike E r' :=
  (draftProgram_alike hE o h).report hE (wellFormed_draftProgram o root)
    (wellFormed_draftProgram o root')

end

end Arbor.Flow
