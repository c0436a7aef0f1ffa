import Arbor.Proofs.Flow.Report
import Mathlib.Data.List.Chain

/-!
# Cycles

The points of a graph are not numbered in the order in which control gets to them: the point behind
a loop is there before the body of the loop, so a break leads to a smaller number. Yet no cycle is
made of forward edges alone, since each of them was added when nothing led on from its target.
-/

namespace Arbor.Flow

open Relation

namespace Graph

/-- The points follow each other along edges, and the first follows the last. -/
def IsCycle (g : Graph) : List Nat → Prop
  | [] => False
  | p :: ps => (p :: (ps ++ [p])).IsChain g.Arc

/-- No points form a cycle. -/
def Acyclic (g : Graph) : Prop := ∀ c, ¬ g.IsCycle c

/-- The graph without the edges that lead back. -/
def withoutBack (g : Graph) : Graph :=
  { g with edges := g.edges.filter fun e => !e.back }

/-- Every cycle goes through the head of a loop. -/
def CutByLoops (g : Graph) : Prop := ∀ c, g.IsCycle c → ∃ p ∈ c, g.kind? p = some .loop

/-- An edge that does not lead back goes from one point to another. -/
def Forward (g : Graph) (u v : Nat) : Prop :=
  ∃ e ∈ g.edges, e.back = false ∧ e.source = u ∧ e.target = v

variable {g g' : Graph} {u v : Nat}

lemma Forward.arc (h : g.Forward u v) : g.Arc u v := by
  obtain ⟨e, he, -, hends⟩ := h
  exact ⟨e, he, hends⟩

lemma withoutBack_arc : g.withoutBack.Arc u v ↔ g.Forward u v := by
  simp only [Arc, withoutBack, Forward, Array.mem_filter, Bool.not_eq_true', and_assoc]

/-- Points that follow each other lead from the first to the last. -/
lemma transGen_of_isChain {r : Nat → Nat → Prop} {p q : Nat} {ps : List Nat}
    (h : (p :: (ps ++ [q])).IsChain r) : TransGen r p q := by
  induction ps generalizing p with
  | nil => exact .single (List.isChain_pair.1 h)
  | cons p' ps ih =>
    obtain ⟨hstep, hrest⟩ := List.isChain_cons_cons.1 h
    exact .head hstep (ih hrest)

/-! ### Steps -/

/-- Forward edges form no cycle, and all others have the head of a loop at an end. -/
structure BackEdged (g : Graph) : Prop where
  acyclic : ∀ u, ¬ TransGen g.Forward u u
  back : ∀ e ∈ g.edges, e.back = true →
    g.kind? e.source = some .loop ∨ g.kind? e.target = some .loop

/-- A way along forward edges that uses a new edge into a sink ends with it. -/
lemma transGen_forward_insertEdge {e : Edge} (hsink : (g.insertEdge e).IsSink e.target)
    (h : TransGen (g.insertEdge e).Forward u v) : TransGen g.Forward u v ∨ v = e.target := by
  have hnew {u v : Nat} (h : (g.insertEdge e).Forward u v) : g.Forward u v ∨ v = e.target := by
    obtain ⟨e', he', hback, hs, ht⟩ := h
    rcases Array.mem_push.1 he' with he' | rfl
    · exact .inl ⟨e', he', hback, hs, ht⟩
    · exact .inr ht.symm
  induction h with
  | single h => exact (hnew h).imp_left .single
  | tail _ h ih =>
    -- A way that goes on behind the new edge would lead on from a sink.
    rcases ih with ih | rfl
    · exact (hnew h).imp_left ih.tail
    · exact absurd h.arc (hsink _)

namespace BackEdged

lemma fresh (sp : Span) : (Graph.fresh sp).BackEdged := by
  have hedges : (Graph.fresh sp).edges = #[] := rfl
  refine ⟨fun u h => ?_, by simp [hedges]⟩
  obtain ⟨v, ⟨e, he, -⟩, -⟩ := TransGen.head'_iff.1 h
  simp [hedges] at he

lemma addPoint (h : g.BackEdged) (k : PointKind) (sp : Span) (o : Option Node) :
    (g.addPoint k sp o).BackEdged := by
  refine ⟨h.acyclic, fun e he hback => ?_⟩
  exact (h.back e he hback).imp (addPoint_kind?_of_eq_some _ _ _) (addPoint_kind?_of_eq_some _ _ _)

lemma insertEdge {e : Edge} (h : g.BackEdged) (he : g.Admissible e) :
    (g.insertEdge e).BackEdged := by
  constructor
  · intro u hu
    cases hback : e.back with
    | true =>
      refine h.acyclic u (TransGen.mono (fun a b hab => ?_) _ _ hu)
      obtain ⟨e', he', hforward, hends⟩ := hab
      rcases Array.mem_push.1 he' with he' | rfl
      · exact ⟨e', he', hforward, hends⟩
      · rw [hback] at hforward
        exact absurd hforward (by decide)
    | false =>
      obtain ⟨hne, hsink⟩ := he.forward hback
      have hsink' : (g.insertEdge e).IsSink e.target := by
        intro v hv
        rcases insertEdge_arc_iff.1 hv with hv | ⟨hs, -⟩
        · exact hsink v hv
        · exact hne hs
      rcases transGen_forward_insertEdge hsink' hu with hu' | rfl
      · exact h.acyclic u hu'
      · obtain ⟨v, hv, -⟩ := TransGen.head'_iff.1 hu
        exact hsink' v hv.arc
  · intro e' he' hback
    rw [insertEdge_kind?, insertEdge_kind?]
    rcases Array.mem_push.1 he' with he' | rfl
    · exact h.back e' he' hback
    · exact he.back hback

lemma step (hstep : Step g g') (h : g.BackEdged) : g'.BackEdged := by
  cases hstep with
  | point sp o _ _ => exact h.addPoint _ sp o
  | edge he =>
    obtain ⟨heq, -⟩ | ⟨heq, -⟩ := addEdge_cases g _
    · rwa [heq]
    · rw [heq]
      exact h.insertEdge he

lemma built {sp : Span} (h : Built (.fresh sp) g) : g.BackEdged :=
  h.keeps step (fresh sp)

lemma marked (h : g.BackEdged) : g.marked.BackEdged :=
  ⟨h.acyclic, by simpa using h.back⟩

/-! ### Cycles -/

lemma acyclic_withoutBack (h : g.BackEdged) : g.withoutBack.Acyclic := by
  intro c hc
  cases c with
  | nil => exact hc
  | cons p ps =>
    have hchain : (p :: (ps ++ [p])).IsChain g.Forward := hc.imp fun _ _ ha => withoutBack_arc.1 ha
    exact h.acyclic p (transGen_of_isChain hchain)

/-- A cycle that avoids the heads of loops would be made of forward edges. -/
lemma cutByLoops (h : g.BackEdged) : g.CutByLoops := by
  intro c hc
  by_contra hloop
  refine h.acyclic_withoutBack c ?_
  cases c with
  | nil => exact hc
  | cons p ps =>
    have hother {u : Nat} (hu : u ∈ p :: (ps ++ [p])) : g.kind? u ≠ some .loop := by
      refine fun hk => hloop ⟨u, ?_, hk⟩
      simp only [List.mem_cons, List.mem_append, List.not_mem_nil, or_false] at hu ⊢
      tauto
    refine List.IsChain.imp_of_mem_imp (fun u v hu hv harc => withoutBack_arc.2 ?_) hc
    obtain ⟨e, he, rfl, rfl⟩ := harc
    refine ⟨e, he, ?_, rfl, rfl⟩
    cases hback : e.back with
    | false => rfl
    | true =>
      rcases h.back e he hback with hs | ht
      · exact absurd hs (hother hu)
      · exact absurd ht (hother hv)

end BackEdged

end Graph

/-- In the graph of every analysis, edges that lead back cut all cycles, and so do the heads of
loops. -/
theorem analyses_backEdges (o : Options) (n : Node) :
    (∃ r, analyze o n = .ok r ∧ r.graph.withoutBack.Acyclic ∧ r.graph.CutByLoops) ∧
      (∃ r, analyzeFunction o n = .ok r ∧ r.graph.withoutBack.Acyclic ∧ r.graph.CutByLoops) := by
  constructor
  · obtain ⟨r, hr, hgraph, -⟩ := (wellFormed_draftProgram o n).report_eq o
    have hback := (Graph.BackEdged.built (built_programGraph (o.maxDepth + 1) n)).marked
    rw [draftProgram_graph] at hgraph
    exact ⟨r, hr, hgraph ▸ hback.acyclic_withoutBack, hgraph ▸ hback.cutByLoops⟩
  · obtain ⟨r, hr, hgraph, -⟩ := (wellFormed_draftFunction o n).report_eq o
    have hback := (Graph.BackEdged.built (built_functionGraph (o.maxDepth + 1) n)).marked
    rw [draftFunction_graph] at hgraph
    exact ⟨r, hr, hgraph ▸ hback.acyclic_withoutBack, hgraph ▸ hback.cutByLoops⟩

end Arbor.Flow
