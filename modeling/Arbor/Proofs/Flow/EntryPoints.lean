import Arbor.Proofs.Flow.Agreement
import Arbor.Proofs.Flow.Findings

/-!
# A function by itself and in its program

A function that stands in a program is built once more when the program is, whether or not control
gets to its declaration. It is built in other scopes and at another depth, but on a graph of its own
as well. If the depth is enough for the program, what is found in the function by itself is found in
the program too.
-/

namespace Arbor.Flow

namespace Build

variable {α β γ : Type} {events : List Event}

/-! ### Events that stay -/

/-- The step keeps the events that are there. -/
def KeepsEvents (act : Build α) : Prop := ∀ D : Draft, ∀ e ∈ D.trace, e ∈ (act D).2.trace

/-- The step comes across all of the events. -/
def ComesAcross (events : List Event) (act : Build α) : Prop :=
  ∀ D : Draft, ∀ e ∈ events, e ∈ (act D).2.trace

lemma Agrees.keepsEvents {R : α → α → Prop} {act : Build α} (h : Agrees Eq true R act act) :
    act.KeepsEvents := by
  intro D e he
  rw [h.trace_eq D]
  exact Array.mem_append_left _ he

lemma KeepsEvents.bind {act : Build α} {next : α → Build β} (h : act.KeepsEvents)
    (hn : ∀ a, (next a).KeepsEvents) : (act >>= next).KeepsEvents :=
  fun D e he => hn _ _ e (h D e he)

lemma KeepsEvents.forM {act : γ → Build Unit} (xs : List γ) (h : ∀ x ∈ xs, (act x).KeepsEvents) :
    (xs.forM act).KeepsEvents := by
  induction xs with
  | nil => exact fun _ _ he => he
  | cons x xs ih =>
    exact .bind (h x (by simp)) fun _ => ih fun y hy => h y (List.mem_cons_of_mem x hy)

lemma ComesAcross.before {act : Build α} {next : α → Build β} (h : act.ComesAcross events)
    (hn : ∀ a, (next a).KeepsEvents) : (act >>= next).ComesAcross events :=
  fun D e he => hn _ _ e (h D e he)

lemma ComesAcross.after {act : Build α} {next : α → Build β}
    (hn : ∀ a, (next a).ComesAcross events) : (act >>= next).ComesAcross events :=
  fun _ e he => hn _ _ e he

lemma ComesAcross.forM {act : γ → Build Unit} {x : γ} {xs : List γ} (hx : x ∈ xs)
    (h : (act x).ComesAcross events) (hk : ∀ y ∈ xs, (act y).KeepsEvents) :
    (xs.forM act).ComesAcross events := by
  induction xs with
  | nil => cases hx
  | cons y xs ih =>
    have hrest : ∀ z ∈ xs, (act z).KeepsEvents := fun z hz => hk z (List.mem_cons_of_mem y hz)
    rcases List.mem_cons.1 hx with rfl | hx
    · exact .before h fun _ => .forM xs hrest
    · exact .after fun _ => ih hx hrest

end Build

open Build

/-! ### The function among the statements of the program -/

section Function

variable {o : Options} {f : Node} {d : Nat}

/-- A function comes across the same events as by itself, wherever it stands. -/
lemma comesAcross_functionTo (hf : 2 * f.height ≤ o.maxDepth + 2) (hd : 2 * f.height ≤ d + 1)
    (scope : Nat) :
    (onFreshGraph f.span (functionTo d f (.root scope))).ComesAcross
      ((draftFunction o f).seen false) := by
  intro D e he
  -- The fresh scope that a function by itself starts with is an event, but nothing that is found.
  have hD : Draft.Alike Eq false (D.seen false) ((Draft.start f).openScope .program none)
      { D with graph := .fresh f.span } := by
    refine Draft.alike_eq_iff.2 ⟨rfl, by simp, ?_⟩
    simp [Draft.seen, Draft.start, Draft.openScope, Draft.emit, Event.isFinding]
  have hroot : (Context.root 0).Alike false (.root scope) := .root (by simp)
  have hdepth : 2 * f.height ≤ o.maxDepth + 1 + 2 ∧ 2 * f.height ≤ d + 2 := by omega
  obtain ⟨-, hafter⟩ := agrees_functionTo (o.maxDepth + 1) d (.inr hdepth) hroot _ _ _ hD
  have hmem :
      e ∈ (functionTo d f (.root scope) { D with graph := .fresh f.span }).2.seen false := by
    rw [(Draft.alike_eq_iff.1 hafter).2.2]
    exact List.mem_append_right _ he
  exact Array.mem_toList_iff.1 (List.mem_filter.1 hmem).1

variable (hf : 2 * f.height ≤ o.maxDepth + 2) (hd : 2 * f.height ≤ d + 1)
  (hfun : f.construct = .function)
include hf hd hfun

lemma comesAcross_expressionTo (scope : Nat) :
    (expressionTo (d + 1) f (.root scope)).ComesAcross ((draftFunction o f).seen false) := by
  have hfresh := comesAcross_functionTo hf hd scope
  rw [expressionTo, Walker.visitExpression, expressionForm_eq_function_iff.2 hfun]
  dsimp only [Walker.visitFunction]
  split_ifs
  · exact .after fun _ => hfresh
  · exact hfresh

lemma comesAcross_statementTo (ends : List OpenEnd) (scope : Nat) :
    (statementTo (d + 1) f ends (.root scope)).ComesAcross ((draftFunction o f).seen false) := by
  have hvisit := comesAcross_expressionTo hf hd hfun scope
  rw [expressionTo] at hvisit
  rw [statementTo, Walker.buildStatement, hfun]
  exact .after fun _ => .before hvisit fun _ _ _ he => he

end Function

namespace Walker

variable {w : Walker} {ctx : Context} (hs : ∀ m ends, (w.statement m ends ctx).KeepsEvents)
  (he : ∀ m, (w.expression m ctx).KeepsEvents)
include he

lemma keepsEvents_buildDead (m : Node) : (w.buildDead m ctx).KeepsEvents :=
  .bind (fun _ _ he => he) fun _ => he m

include hs

lemma keepsEvents_buildAll (ms : List Node) (ends : List OpenEnd) :
    (w.buildAll ms ends ctx).KeepsEvents := by
  induction ms generalizing ends with
  | nil => exact fun _ _ he => he
  | cons m ms ih =>
    refine .bind (hs m ends) fun out => ?_
    split_ifs
    · exact .bind (.forM ms fun m _ => keepsEvents_buildDead he m) fun _ _ _ he => he
    · exact ih out

/-- A function that stands among statements is built or, if control does not get there, visited. -/
lemma comesAcross_buildAll {events : List Event} {f : Node}
    (hf : ∀ ends, (w.statement f ends ctx).ComesAcross events)
    (hdead : (w.expression f ctx).ComesAcross events) {ms : List Node} (hmem : f ∈ ms)
    (ends : List OpenEnd) : (w.buildAll ms ends ctx).ComesAcross events := by
  induction ms generalizing ends with
  | nil => cases hmem
  | cons m ms ih =>
    rcases List.mem_cons.1 hmem with rfl | hmem
    · refine .before (hf ends) fun out => ?_
      split_ifs
      · exact .bind (.forM ms fun m _ => keepsEvents_buildDead he m) fun _ _ _ he => he
      · exact keepsEvents_buildAll hs he ms out
    · refine .after fun out => ?_
      split_ifs
      · exact .before (.forM hmem (.after fun _ => hdead) fun m _ => keepsEvents_buildDead he m)
          fun _ _ _ he => he
      · exact ih hmem out

end Walker

/-- The walk through a program comes across what the walk through a function in it does. -/
lemma mem_trace_draftProgram {o : Options} {root f : Node} (hroot : root.construct = .block)
    (hchild : f ∈ root.children) (hfun : f.construct = .function)
    (hdepth : 2 * root.height ≤ o.maxDepth + 2) {e : Event}
    (he : e ∈ (draftFunction o f).seen false) : e ∈ (draftProgram o root).trace := by
  have hheight := Node.height_lt_of_mem_children hchild
  have hpos := f.height_pos
  obtain ⟨d, hd⟩ : ∃ d, o.maxDepth = d + 1 := ⟨o.maxDepth - 1, by omega⟩
  have hmem : f ∈ root.children.filter (·.construct != .ignored) := by
    simp [hchild, hfun]
  have hstatement (ends : List OpenEnd) (scope : Nat) :
      (statementTo (o.maxDepth + 1) root ends (.root scope)).ComesAcross
        ((draftFunction o f).seen false) := by
    rw [statementTo, Walker.buildStatement, hroot]
    refine Walker.comesAcross_buildAll
      (fun m ends => (agrees_statementTo _ _ (.inl rfl) ends (.refl _)).keepsEvents)
      (fun m => (agrees_expressionTo _ _ (.inl rfl) (.refl _)).keepsEvents)
      (fun ends => ?_) ?_ hmem ends
    · rw [hd]
      exact comesAcross_statementTo (by omega) (by omega) hfun ends scope
    · rw [hd]
      exact comesAcross_expressionTo (by omega) (by omega) hfun scope
  have hprogram : (buildProgram (walker (o.maxDepth + 1)) root).ComesAcross
      ((draftFunction o f).seen false) := by
    refine .after fun scope => .after fun D => .before (hstatement _ scope) fun ends => ?_
    refine .bind (Agrees.linkToExits ends).keepsEvents fun _ D e he => ?_
    exact Array.mem_push_of_mem _ he
  exact hprogram _ e he

/-! ### What is found -/

lemma Event.isFinding_of_places {e : Event} {k : Finding} {s : Span} (h : s ∈ e.places k) :
    e.isFinding = true := by
  cases e with
  | endless | nullish | finished => rfl
  | opened | declared | read | written => simp [Event.places] at h

/-- Whatever is found in a function by itself is found in the program that it stands in, provided
that the depth is enough for the program: two levels for each of its own but the first. -/
theorem analyze_covers_function {o : Options} {root f : Node} (hroot : root.construct = .block)
    (hchild : f ∈ root.children) (hfun : f.construct = .function)
    (hdepth : 2 * root.height ≤ o.maxDepth + 2) :
    ∃ r r', analyze o root = .ok r ∧ analyzeFunction o f = .ok r' ∧
      (∀ s ∈ r'.unreachableCode, s ∈ r.unreachableCode) ∧
      (∀ s ∈ r'.infiniteLoops, s ∈ r.infiniteLoops) ∧
      (∀ s ∈ r'.missingReturns, s ∈ r.missingReturns) ∧
      (∀ s ∈ r'.nullDereferences, s ∈ r.nullDereferences) := by
  obtain ⟨r, hr, hshows⟩ := (wellFormed_draftProgram o root).report_shows o
  obtain ⟨r', hr', hshows'⟩ := (wellFormed_draftFunction o f).report_shows o
  have hplaces (k : Finding) : ∀ s ∈ r'.places k, s ∈ r.places k := by
    intro s hs
    rw [hshows'.places] at hs
    rw [hshows.places]
    split_ifs at hs ⊢
    · obtain ⟨e, hmem, hs⟩ := Draft.mem_places_found.1 hs
      refine Draft.mem_places_found.2 ⟨e, ?_, hs⟩
      apply mem_trace_draftProgram hroot hchild hfun hdepth
      exact List.mem_filter.2 ⟨Array.mem_toList_iff.2 hmem, Event.isFinding_of_places hs⟩
    · simp at hs
  exact ⟨r, r', hr, hr', hplaces .deadCode, hplaces .endlessLoop, hplaces .missingReturn,
    hplaces .nullDereference⟩

/-- A function behind a return, to which control does not get. By itself it has something to find of
each sort. -/
theorem analyze_covers_function_behind_return :
    let body : Tree := ⟨"statement_block", "", .zero,
      [.leaf "throw_statement" "throw x;", .leaf "expression_statement" "y;"], ∅⟩
    let loop : Tree := ⟨"while_statement", "", .zero, [.leaf "true" "true", body],
      .ofList [("condition", 0), ("body", 1)]⟩
    let use : Tree := ⟨"member_expression", "null.z", .zero, [.leaf "null" "null"],
      .ofList [("object", 0)]⟩
    let block : Tree := ⟨"statement_block", "", .zero, [loop, use], ∅⟩
    let function : Tree := ⟨"function_declaration", "", .zero,
      [.leaf "type_annotation" ": number", block], .ofList [("body", 1), ("return_type", 0)]⟩
    let f : Node := ⟨2, function⟩
    let root := Node.root ⟨"program", "", .zero, [.leaf "return_statement" "return;", function], ∅⟩
    (root.construct = .block ∧ f ∈ root.children ∧ f.construct = .function ∧
      2 * root.height ≤ 258) ∧
    (analyzeFunction {} f).toOption.map (fun r => (r.unreachableCode.size, r.infiniteLoops.size,
      r.missingReturns.size, r.nullDereferences.size)) = some (1, 1, 1, 1) ∧
    ∃ r r', analyze {} root = .ok r ∧ analyzeFunction {} f = .ok r' ∧
      (∀ s ∈ r'.unreachableCode, s ∈ r.unreachableCode) ∧
      (∀ s ∈ r'.infiniteLoops, s ∈ r.infiniteLoops) ∧
      (∀ s ∈ r'.missingReturns, s ∈ r.missingReturns) ∧
      (∀ s ∈ r'.nullDereferences, s ∈ r.nullDereferences) := by
  intro body loop use block function f root
  have hchild : f ∈ root.children := List.mem_cons_of_mem _ List.mem_cons_self
  refine ⟨⟨by decide, hchild, by decide, by decide⟩, by decide +kernel, ?_⟩
  exact analyze_covers_function (by decide) hchild (by decide) (by decide)

end Arbor.Flow
