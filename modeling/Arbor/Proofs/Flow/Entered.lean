import Arbor.Proofs.Flow.Constructs
import Arbor.Proofs.Flow.Finally

/-!
# Points without predecessors

A statement is never built without open ends in front of it: what would be is noted as dead. So
there is a way into every point of a statement, except for the head of a loop that decides after
each round, which is entered from the body of the loop if at all. What has no way in is dead: it
follows a statement that left no open ends, in the same list.
-/

namespace Arbor.Flow

open Relation Flow.Graph

/-! ### All graphs of an analysis -/

/-- What holds of the graph of every skeleton that comes from a node holds of the graphs in reports
and of those of all functions inside. -/
theorem forall_graphs {P : Node → Site → Graph → Prop}
    (h : ∀ n sk, sk.Every (Skeleton.Sourced n) →
      P n (.start sk n.span) (sk.graphFrom (.fresh n.span)).marked) (o : Options) (n : Node) :
    (∃ r, analyze o n = .ok r ∧ P n (.start (skeleton (o.maxDepth + 1) n) n.span) r.graph) ∧
    (∃ r, analyzeFunction o n = .ok r ∧
      P n (.start (.ofBody (skeleton o.maxDepth) n) n.span) r.graph) ∧
    ∀ (f : Node) (g : Graph), .finished (some f) g ∈ (draftProgram o n).trace ∨
        .finished (some f) g ∈ (draftFunction o n).trace →
      ∃ d, P f (.start (.ofBody (skeleton d) f) f.span) g.marked := by
  refine ⟨?_, ?_, ?_⟩
  · obtain ⟨r, hr, hgraph, -⟩ := (wellFormed_draftProgram o n).report_eq o
    refine ⟨r, hr, ?_⟩
    rw [hgraph, draftProgram_graph]
    exact h n _ (sourced_skeleton _ n.self_mem_preorder)
  · obtain ⟨r, hr, hgraph, -⟩ := (wellFormed_draftFunction o n).report_eq o
    refine ⟨r, hr, ?_⟩
    rw [hgraph, draftFunction_graph]
    exact h n _ (sourced_ofBody o.maxDepth n)
  · have hcomplete {enough : Prop} {f : Node} {g : Graph} (hg : Complete enough (some f) g) :
        ∃ d, P f (.start (.ofBody (skeleton d) f) f.span) g.marked := by
      obtain ⟨m, d, hm, rfl, -⟩ := hg
      obtain rfl := Option.some.inj hm
      exact ⟨d - 1, h f _ (sourced_ofBody (d - 1) f)⟩
    rintro f g (hmem | hmem)
    · exact hcomplete ((finished_draftProgram o n hmem).resolve_right (by simp)).complete
    · exact hcomplete (complete_draftFunction o n hmem)

/-- A marked point of the graph of a skeleton was added at a site, unless it is the entry or the
exit. -/
lemma Skeleton.exists_adds_marked {sk : Skeleton} {sp : Span} {i : Nat} {p : Point}
    (hp : (sk.graphFrom (.fresh sp)).marked.points[i]? = some p) (hentry : p.kind ≠ .entry)
    (hexit : p.kind ≠ .exit) :
    ∃ s x, (Site.start sk sp).Meets s ∧ s.Adds i p.kind x ∧ p.origin = some x := by
  rw [marked_point?] at hp
  obtain ⟨q, hq, rfl⟩ := Option.map_eq_some_iff.1 hp
  rcases sk.point_cases sp hq with ⟨-, hkind⟩ | ⟨s, k, x, hmeets, hadds, q', hq', rfl, -, horigin⟩
  · exact absurd hkind (not_or.2 ⟨hentry, hexit⟩)
  · obtain rfl := Option.some.inj (hq.symm.trans hq')
    exact ⟨s, x, hmeets, hadds, horigin⟩

/-- The predecessors that are noted at a marked point are those of the graph. -/
lemma Graph.WellFormed.mem_marked_predecessors {g : Graph} (h : g.WellFormed) {i u : Nat}
    {p : Point} (hp : g.marked.points[i]? = some p) : u ∈ p.predecessors ↔ g.Arc u i := by
  rw [← marked_arc, ← h.marked.predecessors, mem_predecessors_iff, hp]
  simp

/-! ### The way in -/

variable {G : Graph} {s : Site} {n x : Node} {fs : List Frame} {ends : List OpenEnd} {g : Graph}
  {i u : Nat}

namespace Site.Settled

/-- Open ends lead to the new point behind them, whatever is built from it. -/
lemma arc_pointAfter (h : s.Settled G) {k : PointKind} {S : List Nat} {t : Targets}
    (hg : Grown S t (s.graph.pointAfter k n s.ends) s.build.2)
    (hu : u ∈ OpenEnd.points s.ends) : G.Arc u s.graph.points.size := by
  obtain ⟨hbegun, hsealed⟩ := h
  have harc := (hbegun.faithful.pointAfter_arc hbegun.ends_lt k n).2 (.inr ⟨hu, rfl⟩)
  exact hsealed.arcs _ _ (hg.arc harc)

lemma arc_leave {k : Jump} (h : Site.Settled G ⟨.leave k n, fs, ends, g⟩)
    (hu : u ∈ OpenEnd.points ends) : G.Arc u g.points.size := by
  obtain ⟨hbegun, hsealed⟩ := h
  have harc := (hbegun.faithful.pointAfter_arc hbegun.ends_lt k.kind n).2 (.inr ⟨hu, rfl⟩)
  exact hsealed.arcs _ _ ((hbegun.leave_arc k n).2 (.inl harc))

lemma arc_branch {a b : Skeleton} (h : Site.Settled G ⟨.branch n a b, fs, ends, g⟩)
    (hu : u ∈ OpenEnd.points ends) : G.Arc u g.points.size := by
  have hyes := a.threaded (Frame.targets fs) [.labelled g.points.size .whenTrue]
    (g.pointAfter .branch n ends)
  have hno := b.threaded (Frame.targets fs) [.labelled g.points.size .whenFalse]
    (a.build (Frame.targets fs) [.labelled g.points.size .whenTrue] (g.pointAfter .branch n ends)).2
  exact h.arc_pointAfter (hyes.again hno).grown hu

/-- The head of a loop is entered, unless the loop decides after each round. -/
lemma arc_head {sk : Skeleton} (h : Site.Settled G ⟨sk, fs, ends, g⟩) (hsk : sk.IsLoop n)
    (hne : ∀ a, sk ≠ .doWhile n a) (hu : u ∈ OpenEnd.points ends) : G.Arc u g.points.size := by
  obtain ⟨hbegun, hsealed⟩ := h
  have hhead := (hbegun.loopHead_arc n).2 (.inr ⟨hu, rfl⟩)
  cases hsk with
  | bare => exact hsealed.arcs _ _ ((hbegun.bareLoop n).closeLoop_arc.2 (.inl hhead))
  | before a =>
    obtain ⟨-, hbody⟩ := hbegun.loopBody n a
    obtain ⟨S, hgrown⟩ := hbody.body
    exact hsealed.arcs _ _ (hbody.closeLoop_arc.2 (.inl (hgrown.arc hhead)))
  | after a => exact absurd rfl (hne a)

lemma arc_switch {cs : Cases} (h : Site.Settled G ⟨.switch n cs, fs, ends, g⟩)
    (hu : u ∈ OpenEnd.points ends) : G.Arc u g.points.size := by
  obtain ⟨hbegun, hsealed⟩ := h
  simp only [Site.build, Skeleton.build, pointAfter_size] at hsealed
  have hbranch := (SwitchBody.of_build hbegun n cs).sealed_branch hsealed
  exact (hbegun.arc_pointAfter_iff hbranch).2 hu

end Site.Settled

/-! ### Dead code -/

/-- At the site a statement leaves no open ends, and the point is added for a node behind it. -/
def Site.Cuts (s : Site) (i : Nat) (x : Node) : Prop :=
  ∃ a dead b j, s.skeleton = .andThen a dead b ∧ dead[j]? = some x ∧
    (a.build (Frame.targets s.frames) s.ends s.graph).1 = [] ∧
    i = (a.build (Frame.targets s.frames) s.ends s.graph).2.points.size + j

/-- No edge leads behind a statement that leaves no open ends. -/
lemma Site.Cuts.not_arc (h : s.Cuts i x) (hs : s.Settled G) : ¬ G.Arc u i := by
  obtain ⟨skeleton, fs, ends, g⟩ := s
  obtain ⟨a, dead, b, j, rfl, hx, hnone, rfl⟩ := h
  obtain ⟨hbegun, hsealed⟩ := hs
  have hadds : Site.Adds ⟨.andThen a dead b, fs, ends, g⟩
      ((a.build (Frame.targets fs) ends g).2.points.size + j) .statement x :=
    .dead rfl (by simp [hnone]) hx
  have hwf := (a.continues hbegun.ready).built.keeps WellFormed.step hbegun.wellFormed
  intro ha
  have harc := hsealed.into _ _ hadds.isNew ha
  simp only [Site.build, Skeleton.build, hnone, List.isEmpty_nil, if_true, addDead_arc] at harc
  obtain ⟨e, he, -, htarget⟩ := harc
  have hlt : e.target < (a.build (Frame.targets fs) ends g).2.points.size := (hwf.range e he).2
  omega

/-- Every point is entered from the open ends in front of it, except for merges, heads of loops that
decide after each round, and dead code. -/
lemma Site.Adds.entered {k : PointKind} (hadds : s.Adds i k x) (hs : s.Settled G) :
    (∀ u ∈ OpenEnd.points s.ends, G.Arc u i) ∨ k = .merge ∨
      k = .loop ∧ (∃ a, s.skeleton = .doWhile x a) ∨ k = .statement ∧ s.Cuts i x := by
  cases hadds with
  | plain => exact .inl fun u hu => hs.arc_pointAfter (.refl [] ⟨none, none⟩ _) hu
  | leave => exact .inl fun u hu => hs.arc_leave hu
  | branch => exact .inl fun u hu => hs.arc_branch hu
  | switch => exact .inl fun u hu => hs.arc_switch hu
  | @head _ sk hsk =>
    by_cases hdo : ∃ a, sk = .doWhile x a
    · exact .inr (.inr (.inl ⟨rfl, hdo⟩))
    · exact .inl fun u hu => hs.arc_head hsk (not_exists.1 hdo) hu
  | dead hr hnone hx =>
    subst hr
    exact .inr (.inr (.inr ⟨rfl, _, _, _, _, rfl, hx, List.isEmpty_iff.1 hnone, rfl⟩))
  | joined | exit | merge => exact .inr (.inl rfl)

/-- The point `i` is that of the dead statement `x`. In a list of statements of `root`, it follows a
statement `y` that leaves no open ends where building comes to it, whatever scopes and events there
are by then. The dead statements get their points in the order of the list. -/
inductive Dead (root : Node) (start : Site) (i : Nat) (x : Node) : Prop where
  | intro {n y : Node} {before after : List Node} {d j : Nat} {fs : List Frame}
    {ends : List OpenEnd} {g : Graph} (inside : n ∈ root.preorder)
    (list : before ++ y :: after ∈ statementLists n)
    (meets : start.Meets ⟨.sequence (skeleton d) (y :: after), fs, ends, g⟩)
    (follows : after[j]? = some x)
    (stops : ∀ ctx D, ctx.targets = Frame.targets fs → D.graph = g →
      ((walker d).statement y ends ctx D).1 = [] ∧
      i = ((walker d).statement y ends ctx D).2.graph.points.size + j)

variable {root : Node} {start : Site}

lemma Site.Cuts.dead (h : s.Cuts i x) (hmeets : start.Meets s) (hs : s.skeleton.Sourced root) :
    Dead root start i x := by
  obtain ⟨skeleton, fs, ends, g⟩ := s
  obtain ⟨a, dead, b, j, rfl, hx, hnone, rfl⟩ := h
  obtain ⟨n, hn, d, before, y, hlist, rfl, rfl⟩ := hs
  refine .intro hn hlist hmeets hx fun ctx D hctx hD => ?_
  subst hD
  have hfollows := follows_statementTo d y ends ctx
  rw [hctx] at hfollows
  exact ⟨(hfollows.fst D).trans hnone, congrArg (·.points.size + j) (hfollows.graph D).symm⟩

lemma Dead.exists_cuts (h : Dead root start i x) : ∃ s, start.Meets s ∧ s.Cuts i x := by
  obtain @⟨n, y, before, after, d, j, fs, ends, g, -, -, hmeets, hx, hstops⟩ := h
  -- The targets of the frames are those of some context.
  let ctx : Context := ⟨0, (Frame.targets fs).continueTo, (Frame.targets fs).breakTo, none⟩
  obtain ⟨hnone, rfl⟩ := hstops ctx ⟨g, 0, #[]⟩ rfl rfl
  have hfollows : ((walker d).statement y ends ctx).Follows
      ((skeleton d y).build (Frame.targets fs) ends) := follows_statementTo d y ends ctx
  refine ⟨_, hmeets, _, after, _, j, rfl, hx, ?_, ?_⟩
  · rw [← hnone, hfollows.fst]
  · rw [hfollows.graph]

/-! ### Analyses -/

/-- Points of this kind are always entered. -/
def PointKind.isEntered : PointKind → Bool
  | .branch | .returnJump | .throwJump | .breakJump | .continueJump => true
  | .entry | .exit | .statement | .loop | .merge => false

/-- In the graph `G`, which is built from the site `start` on for a part of `root`, only dead code
has no predecessors, and heads of loops that decide after each round. -/
structure OnlyDeadDisconnected (root : Node) (start : Site) (G : Graph) : Prop where
  built : G = (start.skeleton.graphFrom start.graph).marked
  entered : ∀ {i : Nat} {p : Point}, G.points[i]? = some p → p.kind.isEntered = true →
    p.predecessors ≠ []
  loop : ∀ {i : Nat} {p : Point}, G.points[i]? = some p → p.kind = .loop →
    ∃ x, p.origin = some x ∧ (x.construct ≠ .doWhile → p.predecessors ≠ [])
  statement : ∀ {i : Nat} {p : Point}, G.points[i]? = some p → p.kind = .statement →
    ∃ x, p.origin = some x ∧ (p.predecessors = [] ↔ Dead root start i x)

namespace Skeleton

variable {sk : Skeleton} {sp : Span} {p : Point}

/-- Every point but the entry and the exit is entered, or it is a merge, the head of a loop that
decides after each round, or dead. -/
lemma entered_cases (h : sk.Every (Sourced root))
    (hp : (sk.graphFrom (.fresh sp)).marked.points[i]? = some p) (hentry : p.kind ≠ .entry)
    (hexit : p.kind ≠ .exit) :
    ∃ x, p.origin = some x ∧ (p.predecessors ≠ [] ∨ p.kind = .merge ∨
      p.kind = .loop ∧ x.construct = .doWhile ∨
      p.kind = .statement ∧ Dead root (.start sk sp) i x) := by
  obtain ⟨s, x, hmeets, hadds, horigin⟩ := exists_adds_marked hp hentry hexit
  have hsettled := Site.Meets.settled hmeets (Site.start_settled sk sp)
  have hsourced : s.skeleton.Sourced root := (Site.Meets.every hmeets h).self
  refine ⟨x, horigin, ?_⟩
  rcases hadds.entered hsettled with hin | hmerge | ⟨hloop, a, ha⟩ | ⟨hstatement, hcuts⟩
  · -- There are open ends in front of every site.
    obtain ⟨e, he⟩ := List.exists_mem_of_ne_nil _ hsettled.begun.nonempty
    have hG : (sk.graphFrom (.fresh sp)).WellFormed := .built (sk.built_graphFrom sp)
    have harc := hin e.point (List.mem_map_of_mem he)
    exact .inl (List.ne_nil_of_mem ((hG.mem_marked_predecessors hp).2 harc))
  · exact .inr (.inl hmerge)
  · rw [ha] at hsourced
    exact .inr (.inr (.inl ⟨hloop, hsourced⟩))
  · exact .inr (.inr (.inr ⟨hstatement, hcuts.dead hmeets hsourced⟩))

/-- Nothing leads to dead code. -/
lemma predecessors_of_dead (hp : (sk.graphFrom (.fresh sp)).marked.points[i]? = some p)
    (h : Dead root (.start sk sp) i x) : p.predecessors = [] := by
  have hG : (sk.graphFrom (.fresh sp)).WellFormed := .built (sk.built_graphFrom sp)
  obtain ⟨s, hmeets, hcuts⟩ := h.exists_cuts
  rw [List.eq_nil_iff_forall_not_mem]
  intro u hu
  exact hcuts.not_arc (Site.Meets.settled hmeets (Site.start_settled sk sp))
    ((hG.mem_marked_predecessors hp).1 hu)

theorem onlyDeadDisconnected (sp : Span) (h : sk.Every (Sourced root)) :
    OnlyDeadDisconnected root (.start sk sp) (sk.graphFrom (.fresh sp)).marked := by
  refine ⟨rfl, fun {i p} hp hk => ?_, fun {i p} hp hk => ?_, fun {i p} hp hk => ?_⟩
  · have hne (k : PointKind) (hk' : k.isEntered = false) : p.kind ≠ k := by
      rintro rfl
      rw [hk'] at hk
      cases hk
    obtain ⟨x, -, hin | hmerge | ⟨hloop, -⟩ | ⟨hstatement, -⟩⟩ :=
      entered_cases h hp (hne .entry rfl) (hne .exit rfl)
    · exact hin
    · exact absurd hmerge (hne .merge rfl)
    · exact absurd hloop (hne .loop rfl)
    · exact absurd hstatement (hne .statement rfl)
  · obtain ⟨x, horigin, hcases⟩ := entered_cases h hp (by simp [hk]) (by simp [hk])
    simp only [hk, reduceCtorEq, true_and, false_and, or_false, false_or] at hcases
    exact ⟨x, horigin, hcases.resolve_right⟩
  · obtain ⟨x, horigin, hcases⟩ := entered_cases h hp (by simp [hk]) (by simp [hk])
    simp only [hk, reduceCtorEq, true_and, false_and, false_or] at hcases
    exact ⟨x, horigin, fun hnil => hcases.resolve_left fun hne => hne hnil,
      predecessors_of_dead hp⟩

end Skeleton

/-- Whatever is analyzed, nothing but dead code starts out disconnected, in the graphs of reports
and in those of all functions inside. -/
theorem analyses_onlyDeadDisconnected (o : Options) (n : Node) :
    (∃ r, analyze o n = .ok r ∧
      OnlyDeadDisconnected n (.start (skeleton (o.maxDepth + 1) n) n.span) r.graph) ∧
    (∃ r, analyzeFunction o n = .ok r ∧
      OnlyDeadDisconnected n (.start (.ofBody (skeleton o.maxDepth) n) n.span) r.graph) ∧
    ∀ (f : Node) (g : Graph), .finished (some f) g ∈ (draftProgram o n).trace ∨
        .finished (some f) g ∈ (draftFunction o n).trace →
      ∃ d, OnlyDeadDisconnected f (.start (.ofBody (skeleton d) f) f.span) g.marked :=
  forall_graphs (fun n _ h => Skeleton.onlyDeadDisconnected n.span h) o n

/-- A call behind a return has no predecessors, and is dead. -/
theorem analyses_onlyDeadDisconnected_behind_return :
    let call : Tree := .leaf "expression_statement" "f();"
    let root := Node.root
      ⟨"program", "", .zero, [.leaf "return_statement" "return;", call], ∅⟩
    ∃ r p, analyze {} root = .ok r ∧ r.graph.points[3]? = some p ∧ p.kind = .statement ∧
      p.origin = some ⟨2, call⟩ ∧ p.predecessors = [] ∧
      Dead root (.start (skeleton 257 root) root.span) 3 ⟨2, call⟩ := by
  intro call root
  let first : Node := ⟨1, .leaf "return_statement" "return;"⟩
  let x : Node := ⟨2, call⟩
  obtain ⟨⟨r, hr, hdead⟩, -⟩ := analyses_onlyDeadDisconnected {} root
  have hpoint : r.graph.StandsFor 3 .statement x := by
    have hadds : (Site.start (skeleton 257 root) root.span).Adds
        (((skeleton 256 first).build ⟨none, none⟩ [.plain 0] (.fresh root.span)).2.points.size + 0)
        .statement x := .dead rfl rfl rfl
    rw [show skeleton 256 first = .leave .returns first from rfl, Skeleton.build, addEdges_size,
      pointAfter_size] at hadds
    rw [hdead.built]
    exact (hadds.graphFrom .refl).marked
  have hnone : r.graph.predecessors 3 = [] := by
    rw [hdead.built, marked_predecessors]
    decide +kernel
  obtain ⟨p, hp, hkind, -, horigin⟩ := hpoint
  obtain ⟨y, hy, hiff⟩ := hdead.statement hp hkind
  obtain rfl := Option.some.inj (hy.symm.trans horigin)
  have hnil : p.predecessors = [] := by
    simpa [Graph.predecessors, Graph.point?, hp] using hnone
  exact ⟨r, p, hr, hp, hkind, horigin, hnil, hiff.1 hnil⟩

end Arbor.Flow
