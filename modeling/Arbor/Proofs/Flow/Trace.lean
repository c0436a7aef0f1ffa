import Arbor.Proofs.Flow.Closed
import Arbor.Proofs.Flow.Simulation
import Arbor.Proofs.Height

/-!
# Finished graphs

A walk notes the graph of each function when it is done with it. These are the graphs that the
skeletons of the functions have, at the depth that is left where the walk meets the function. If the
walk may go down two levels for each level of the tree, no function is cut short.
-/

namespace Arbor.Flow

namespace Build

variable {α β γ : Type} {Q : Option Node → Graph → Prop}

/-- The step finishes no graphs but those of which `Q` holds. -/
def Finishes (Q : Option Node → Graph → Prop) (act : Build α) : Prop :=
  ∀ (D : Draft) (f : Option Node) (g : Graph), .finished f g ∈ (act D).2.trace →
    .finished f g ∈ D.trace ∨ Q f g

namespace Finishes

lemma pure (a : α) : Finishes Q (Pure.pure a : Build α) := fun _ _ _ h => .inl h

lemma bind {act : Build α} {next : α → Build β} (h : act.Finishes Q)
    (hn : ∀ a, (next a).Finishes Q) : (act >>= next).Finishes Q := by
  intro D f g hmem
  rcases hn _ _ f g hmem with hmem | hq
  · exact h D f g hmem
  · exact .inr hq

lemma forM {act : γ → Build Unit} (xs : List γ) (h : ∀ x ∈ xs, (act x).Finishes Q) :
    (xs.forM act).Finishes Q := by
  induction xs with
  | nil => exact .pure ()
  | cons x xs ih =>
    refine .bind (h x (by simp)) fun _ => ih fun y hy => h y ?_
    exact List.mem_cons_of_mem x hy

/-- A step that leaves the trace alone finishes nothing. -/
lemma of_trace {act : Build α} (h : ∀ D, (act D).2.trace = D.trace) : act.Finishes Q :=
  fun D _ _ hmem => .inl (h D ▸ hmem)

lemma emit {e : Event} (h : ∀ f g, e ≠ .finished f g) : (emit e).Finishes Q := by
  intro D f g hmem
  rcases Array.mem_push.1 hmem with hmem | heq
  · exact .inl hmem
  · exact absurd heq.symm (h f g)

lemma openScope (kind : ScopeKind) (parent : Option Nat) : (openScope kind parent).Finishes Q :=
  emit (e := .opened kind parent) (by simp)

lemma declare (scope : Nat) (binding : Binding) (names : List Node) :
    (declare scope binding names).Finishes Q :=
  .forM names fun _ _ => .emit (by simp)

end Finishes

lemma closed_finishes : Closed fun _ act => act.Finishes Q where
  bind := .bind
  of_graph h := .of_trace fun D => (h D).1
  emit he := .emit fun f g heq => by simp [heq, Event.IsPlain] at he
  openScope := .openScope

/-- The step finishes no graphs but those of which `Q` holds, and last the graph that it leaves. -/
structure FinishesLast (Q : Option Node → Graph → Prop) (last : Option Node) (act : Build Unit) :
    Prop where
  finishes : ∀ (D : Draft) (f : Option Node) (g : Graph), .finished f g ∈ (act D).2.trace →
    .finished f g ∈ D.trace ∨ Q f g ∨ f = last ∧ g = (act D).2.graph
  back : ∀ D : Draft, (act D).2.trace.back? = some (.finished last (act D).2.graph)

lemma FinishesLast.after {last : Option Node} {act : Build α} {next : α → Build Unit}
    (h : act.Finishes Q) (hn : ∀ a, (next a).FinishesLast Q last) :
    (act >>= next).FinishesLast Q last := by
  refine ⟨fun D f g hmem => ?_, fun D => (hn _).back _⟩
  rcases (hn _).finishes _ f g hmem with hmem | hq
  · exact (h D f g hmem).imp_right .inl
  · exact .inr hq

lemma FinishesLast.emit (last : Option Node) :
    FinishesLast Q last (do emit (.finished last (← get).graph)) := by
  refine ⟨fun D f g hmem => ?_, fun D => Array.back?_push⟩
  rcases Array.mem_push.1 hmem with hmem | heq
  · exact .inl hmem
  · injection heq with hf hg
    exact .inr (.inr ⟨hf, hg⟩)

end Build

/-- Started on a fresh graph, the step finishes no graphs but those of which `Q` holds. -/
def FinishesFresh (Q : Option Node → Graph → Prop) (sp : Span) (act : Build Unit) : Prop :=
  ∀ (D : Draft) (f : Option Node) (g : Graph), D.graph = .fresh sp →
    .finished f g ∈ (act D).2.trace → .finished f g ∈ D.trace ∨ Q f g

/-- None of the names that expressions have of their own is that of a function. -/
lemma expressionForm_eq_function_iff {n : Node} :
    expressionForm n = .function ↔ n.construct = .function := by
  unfold expressionForm ExpressionForm.ofKind Node.construct
  split <;> rename_i hkind
  case h_10 => cases Construct.ofKind n.kind <;> simp
  all_goals
    rw [hkind]
    decide

namespace Walker

open Build

variable {w : Walker} {Q : Option Node → Graph → Prop} {n : Node}

lemma finishes_visitFunction (hf : ∀ ctx, FinishesFresh Q n.span (w.function n ctx))
    (ctx : Context) : (w.visitFunction n ctx).Finishes Q := by
  have hfresh : (onFreshGraph n.span (w.function n ctx)).Finishes Q :=
    fun D f g hmem => hf ctx { D with graph := .fresh n.span } f g rfl hmem
  unfold visitFunction
  split_ifs
  · exact .bind (.declare _ _ _) fun _ => hfresh
  · exact hfresh

section

variable (hs : ∀ m, m.Inside n → ∀ ends ctx, (w.statement m ends ctx).Finishes Q)
  (he : ∀ m, m.Inside n → ∀ ctx, (w.expression m ctx).Finishes Q)
include he

lemma finishes_visitDeclarator (ctx : Context) : (w.visitDeclarator n ctx).Finishes Q := by
  refine .bind (closed_finishes.visitField he _ ctx) fun _ => ?_
  cases hname : n.field? "name" with
  | none => exact .pure ()
  | some target =>
    exact .bind (.declare _ _ _) fun _ =>
      closed_finishes.visitDefaults he (Node.inside_of_field? hname) ctx

lemma finishes_visitExpression
    (hf : n.construct = .function → ∀ ctx, FinishesFresh Q n.span (w.function n ctx))
    (ctx : Context) : (w.visitExpression n ctx).Finishes Q :=
  closed_finishes.visitExpression he (fun _ => finishes_visitDeclarator he ctx) fun hform =>
    finishes_visitFunction (hf (expressionForm_eq_function_iff.1 hform)) ctx

include hs

/-- Building a statement finishes what building its parts does, and the statement itself if it is a
function. -/
theorem finishes_buildStatement
    (hf : n.construct = .function → ∀ ctx, FinishesFresh Q n.span (w.function n ctx))
    (ends : List OpenEnd) (ctx : Context) : (w.buildStatement n ends ctx).Finishes Q :=
  closed_finishes.buildStatement hs he (finishes_visitExpression he hf ctx)
    (fun _ scope _ _ => .declare scope _ _) ends

/-- Building a function finishes what building its parts does, and last the function itself. -/
theorem finishes_buildFunction (ctx : Context) :
    (w.buildFunction n ctx).FinishesLast Q (some n) := by
  have hbody (scope : Nat) : FinishesLast Q (some n) (do
      w.declareParameters n (.root scope)
      let entry := OpenEnd.plain (← get).graph.entry
      let ends ← w.buildBody n [entry] (.root scope)
      linkToExits ends
      emit (.finished (some n) (← get).graph)) := by
    refine .after (closed_finishes.declareParameters he _) fun _ => ?_
    refine .after (.of_trace fun _ => rfl) fun D => ?_
    refine .after (closed_finishes.buildBody hs he _ _) fun ends => ?_
    exact .after (closed_finishes.linkToExits ends) fun _ => .emit (some n)
  refine .after (.openScope _ _) fun scope => ?_
  dsimp only
  split_ifs
  · exact .after (.declare _ _ _) fun _ => hbody scope
  · exact hbody scope

end

end Walker

/-! ### Whole walks -/

/-- The graph is that of a function, built with some levels of depth left. Where there were `enough`
levels for the walk, there are for the function. -/
def Complete (enough : Prop) (f : Option Node) (g : Graph) : Prop :=
  ∃ (n : Node) (d : Nat), f = some n ∧ g = functionGraph d n ∧ (enough → n.height ≤ d)

/-- The graph is complete and belongs to a function with some property. -/
structure CompleteFor (enough : Prop) (P : Node → Prop) (f : Option Node) (g : Graph) : Prop where
  complete : Complete enough f g
  holds : ∀ n ∈ f, P n

/-- A function that is built on a fresh graph has its own graph there when it is finished. -/
lemma finishesFresh_functionTo {Q : Option Node → Graph → Prop} {d : Nat} {n : Node} {ctx : Context}
    (h : (functionTo d n ctx).FinishesLast Q (some n)) (hQ : Q (some n) (functionGraph d n)) :
    FinishesFresh Q n.span (functionTo d n ctx) := by
  intro D f g hD hmem
  rcases h.finishes D f g hmem with hmem | hq | ⟨rfl, rfl⟩
  · exact .inl hmem
  · exact .inr hq
  · rw [(follows_functionTo d n ctx).graph D, hD]
    exact .inr hQ

section Walks

variable {enough : Prop} {P : Node → Prop}

lemma completeFor_functionGraph {d : Nat} {n : Node} (h : enough → 2 * n.height ≤ d + 1)
    (hP : P n) : CompleteFor enough P (some n) (functionGraph d n) := by
  refine ⟨⟨n, d, rfl, rfl, fun he => ?_⟩, fun m hm => ?_⟩
  · have := h he
    have := n.height_pos
    omega
  · cases hm
    exact hP

-- A function takes up two levels of depth, one as an expression and one as a function.
mutual

theorem finishes_statementTo (d : Nat) {n : Node} (h : enough → 2 * n.height ≤ d)
    (hP : ∀ m ∈ n.preorder, m.construct = .function → P m) (ends : List OpenEnd) (ctx : Context) :
    (statementTo d n ends ctx).Finishes (CompleteFor enough P) := by
  match d with
  | 0 => exact .pure ends
  | d + 1 =>
    rw [statementTo]
    refine Walker.finishes_buildStatement
      (fun m hm ends ctx => finishes_statementTo d (fun he => ?_) (fun f hf => ?_) ends ctx)
      (fun m hm ctx => finishes_expressionTo d (fun he => ?_) (fun f hf => ?_) ctx)
      (fun hn ctx => ?_) ends ctx
    · have := Node.height_lt_of_inside hm
      have := h he
      omega
    · exact hP f (Node.mem_preorder_trans hf hm.mem_preorder)
    · have := Node.height_lt_of_inside hm
      have := h he
      omega
    · exact hP f (Node.mem_preorder_trans hf hm.mem_preorder)
    · have hfun := finishesLast_functionTo d h (fun m hm => hP m hm.mem_preorder) ctx
      exact finishesFresh_functionTo hfun (completeFor_functionGraph h (hP n (by simp) hn))

theorem finishes_expressionTo (d : Nat) {n : Node} (h : enough → 2 * n.height ≤ d)
    (hP : ∀ m ∈ n.preorder, m.construct = .function → P m) (ctx : Context) :
    (expressionTo d n ctx).Finishes (CompleteFor enough P) := by
  match d with
  | 0 => exact .pure ()
  | d + 1 =>
    rw [expressionTo]
    refine Walker.finishes_visitExpression
      (fun m hm ctx => finishes_expressionTo d (fun he => ?_) (fun f hf => ?_) ctx)
      (fun hn ctx => ?_) ctx
    · have := Node.height_lt_of_inside hm
      have := h he
      omega
    · exact hP f (Node.mem_preorder_trans hf hm.mem_preorder)
    · have hfun := finishesLast_functionTo d h (fun m hm => hP m hm.mem_preorder) ctx
      exact finishesFresh_functionTo hfun (completeFor_functionGraph h (hP n (by simp) hn))

theorem finishesLast_functionTo (d : Nat) {n : Node} (h : enough → 2 * n.height ≤ d + 1)
    (hP : ∀ m, m.Inside n → m.construct = .function → P m) (ctx : Context) :
    (functionTo d n ctx).FinishesLast (CompleteFor enough P) (some n) := by
  match d with
  | 0 =>
    rw [functionTo]
    exact Walker.finishes_buildFunction (fun _ _ ends _ => .pure ends) (fun _ _ _ => .pure ()) ctx
  | d + 1 =>
    rw [functionTo]
    refine Walker.finishes_buildFunction
      (fun m hm ends ctx => finishes_statementTo d (fun he => ?_) (fun f hf => ?_) ends ctx)
      (fun m hm ctx => finishes_expressionTo d (fun he => ?_) (fun f hf => ?_) ctx) ctx
    · have := Node.height_lt_of_inside hm
      have := h he
      omega
    · exact hP f (hm.of_mem_preorder hf)
    · have := Node.height_lt_of_inside hm
      have := h he
      omega
    · exact hP f (hm.of_mem_preorder hf)

end

end Walks

/-- Building a program finishes the functions in it, and last the program itself. -/
lemma finishesLast_buildProgram (d : Nat) (root : Node) :
    (buildProgram (walker d) root).FinishesLast
      (CompleteFor (2 * root.height ≤ d) fun m => m ∈ root.preorder ∧ m.construct = .function)
      none := by
  refine .after (.openScope _ _) fun scope => .after (.of_trace fun _ => rfl) fun D => ?_
  refine .after (finishes_statementTo _ id (fun m hm hf => ⟨hm, hf⟩) _ _) fun ends => ?_
  exact .after (Build.closed_finishes.linkToExits ends) fun _ => .emit none

/-- The graphs that are finished when a program is built: those of the functions in it, and its
own. -/
theorem finished_draftProgram (o : Options) (root : Node) {f : Option Node} {g : Graph}
    (hmem : .finished f g ∈ (draftProgram o root).trace) :
    CompleteFor (2 * root.height ≤ o.maxDepth + 1)
        (fun m => m ∈ root.preorder ∧ m.construct = .function) f g ∨
      f = none ∧ g = programGraph (o.maxDepth + 1) root := by
  rcases (finishesLast_buildProgram _ root).finishes _ f g hmem with hmem | hq | ⟨hf, hg⟩
  · simp [Draft.start] at hmem
  · exact .inl hq
  · exact .inr ⟨hf, hg.trans (draftProgram_graph o root)⟩

/-- The program is finished last. -/
theorem draftProgram_trace_back? (o : Options) (root : Node) :
    (draftProgram o root).trace.back? = some (.finished none (draftProgram o root).graph) :=
  (finishesLast_buildProgram _ root).back _

/-- The graphs that are finished when a function is built by itself: those of the functions inside
it, and its own. -/
theorem finished_draftFunction (o : Options) (n : Node) {f : Option Node} {g : Graph}
    (hmem : .finished f g ∈ (draftFunction o n).trace) :
    CompleteFor (2 * n.height ≤ o.maxDepth + 2)
        (fun m => m.Inside n ∧ m.construct = .function) f g ∨
      f = some n ∧ g = functionGraph (o.maxDepth + 1) n := by
  have hlast : (functionTo (o.maxDepth + 1) n (.root 0)).FinishesLast
      (CompleteFor (2 * n.height ≤ o.maxDepth + 2)
        fun m => m.Inside n ∧ m.construct = .function) (some n) :=
    finishesLast_functionTo _ id (fun m hm hf => ⟨hm, hf⟩) _
  rcases hlast.finishes ((Draft.start n).openScope .program none) f g hmem with
    hmem | hq | ⟨hf, hg⟩
  · simp [Draft.start, Draft.openScope, Draft.emit] at hmem
  · exact .inl hq
  · exact .inr ⟨hf, hg.trans (draftFunction_graph o n)⟩

/-- All graphs that are finished when a function is built by itself are complete. -/
lemma complete_draftFunction (o : Options) (n : Node) {f : Option Node} {g : Graph}
    (hmem : .finished f g ∈ (draftFunction o n).trace) :
    Complete (2 * n.height ≤ o.maxDepth + 2) f g := by
  rcases finished_draftFunction o n hmem with h | ⟨rfl, rfl⟩
  · exact h.complete
  · exact (completeFor_functionGraph (P := fun _ => True) id trivial).complete

/-- The function that is built by itself is finished last. -/
theorem draftFunction_trace_back? (o : Options) (n : Node) :
    (draftFunction o n).trace.back? = some (.finished (some n) (draftFunction o n).graph) := by
  have hlast : (functionTo (o.maxDepth + 1) n (.root 0)).FinishesLast (fun _ _ => True)
      (some n) := by
    rw [functionTo]
    exact Walker.finishes_buildFunction (fun _ _ _ _ _ _ _ _ => .inr trivial)
      (fun _ _ _ _ _ _ _ => .inr trivial) _
  exact hlast.back ((Draft.start n).openScope .program none)

end Arbor.Flow
