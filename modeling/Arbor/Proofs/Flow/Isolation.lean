import Arbor.Proofs.Flow.Agreement
import Arbor.Proofs.Flow.Lexical

/-!
# Expressions are kept apart from the graph

Whatever functions an expression holds, a visit to it leaves the graph under construction alone. All
that it does is to add events to the trace, and the graphs in these events are graphs of functions
in the expression. Such a graph is about its function only: its points stand for nodes inside the
function.
-/

namespace Arbor.Flow

/-- The points of the graph stand for nodes inside the function, if for any. -/
def Graph.IsAbout (g : Graph) (f : Node) : Prop :=
  ∀ p ∈ g.points, ∀ x, p.origin = some x → x.Inside f

lemma functionGraph_isAbout (d : Nat) (f : Node) : (functionGraph d f).IsAbout f := by
  intro p hp x hx
  obtain ⟨i, hi⟩ := Array.mem_iff_getElem?.1 hp
  exact inside_of_origin hi hx

lemma Complete.isAbout {enough : Prop} {f : Node} {g : Graph} (h : Complete enough (some f) g) :
    g.IsAbout f := by
  obtain ⟨m, d, hm, rfl, -⟩ := h
  obtain rfl := Option.some.inj hm
  exact functionGraph_isAbout d f

/-- A visit to an expression does nothing to the graph and adds events to the trace. The graphs that
it finishes are those of functions in the expression. Whenever the graph of a function is finished,
it is about this function. -/
theorem expressions_isolated (d : Nat) (n : Node) (ctx : Context) (D : Draft) :
    (expressionTo d n ctx D).2.graph = D.graph ∧
    (∃ events, (expressionTo d n ctx D).2.trace = D.trace ++ events ∧
      ∀ f g, .finished f g ∈ events →
        ∃ m, f = some m ∧ (m ∈ n.preorder ∧ m.construct = .function) ∧ g.IsAbout m) ∧
    ∀ (o : Options) (f : Node) (g : Graph),
      .finished (some f) g ∈ (draftProgram o n).trace ∨
        .finished (some f) g ∈ (draftFunction o n).trace → g.IsAbout f := by
  refine ⟨keepsGraph_expressionTo d n ctx D, ⟨_,
    (agrees_expressionTo d d (.inl rfl) (.refl ctx)).trace_eq D, fun f g hmem => ?_⟩, ?_⟩
  · have hfin : (expressionTo d n ctx).Finishes
        (CompleteFor False fun m => m ∈ n.preorder ∧ m.construct = .function) :=
      finishes_expressionTo d False.elim (fun m hm hf => ⟨hm, hf⟩) ctx
    rcases hfin _ f g hmem with hmem | hfor
    · simp at hmem
    · obtain ⟨m, -, rfl, -⟩ := hfor.complete
      exact ⟨m, rfl, hfor.holds m rfl, hfor.complete.isAbout⟩
  · rintro o f g (hmem | hmem)
    · rcases finished_draftProgram o n hmem with hfor | ⟨hnone, -⟩
      · exact hfor.complete.isAbout
      · cases hnone
    · exact (complete_draftFunction o n hmem).isAbout

end Arbor.Flow
