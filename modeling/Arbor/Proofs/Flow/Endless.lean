import Arbor.Proofs.Flow.Constructs
import Arbor.Proofs.Flow.Finally
import Arbor.Proofs.Flow.Noted
import Arbor.Proofs.Walks

/-!
# Loops that seem to have no end

A loop is taken to have no end if its condition always holds and neither a break nor a return stands
below its body. The graph agrees: control gets behind such a loop from its head only, and no return
stands for a node of its body. The exception is a body that is itself a jump, since the search for
jumps starts below it.
-/

namespace Arbor.Flow

open Relation Flow.Graph

/-! ### Jumps below the body -/

lemma eq_of_not_containsLoopExit {body x : Node} (h : containsLoopExit body = false)
    (hx : x ∈ body.preorder) (hjump : x.construct = .breakJump ∨ x.construct = .returnJump) :
    x = body := by
  rcases Node.mem_preorder_iff_inside.1 hx with rfl | hinside
  · rfl
  · rw [containsLoopExit, List.any_eq_false] at h
    have hnone := h x (Node.mem_descendants.2 hinside)
    simp only [Bool.or_eq_true, beq_iff_eq] at hnone
    exact absurd hjump hnone

/-- In the body of a loop that seems to have no end, only the body itself may be a break or a
return. -/
lemma IsEndless.eq_body {loop body x : Node} (h : IsEndless loop)
    (hbody : loop.field? "body" = some body) (hx : x ∈ body.preorder)
    (hjump : x.construct = .breakJump ∨ x.construct = .returnJump) : x = body := by
  have hinfinite := h.infinite
  rw [isInfiniteLoop, hbody, Bool.and_eq_true] at hinfinite
  exact eq_of_not_containsLoopExit (by simpa using hinfinite.2) hx hjump

lemma IsEndless.statementParts_eq {loop : Node} (h : IsEndless loop) :
    statementParts loop = (loop.field? "body").toList := by
  rcases h.construct with hc | hc
  · rw [statementParts, hc]
  · rw [statementParts, hc]

/-- What stands inside a loop or a switch stands in one of its parts. -/
lemma Around.mem_part {base x l : Node} {loops : List Node} (h : Around base (l :: loops) x) :
    ∃ part ∈ statementParts l, x ∈ part.preorder := by
  generalize hloops : l :: loops = around at h
  induction h with
  | base => cases hloops
  | @part n m around h hm ih =>
    unfold passing at hloops
    split_ifs at hloops
    · obtain ⟨rfl, -⟩ := List.cons.inj hloops
      exact ⟨m, hm, m.self_mem_preorder⟩
    · obtain ⟨part, hpart, hn⟩ := ih hloops
      exact ⟨part, hpart, Node.mem_preorder_trans (inside_of_mem_statementParts hm).mem_preorder hn⟩

/-! ### The way behind a loop -/

variable {G g g₁ : Graph} {t : Targets} {ends : List OpenEnd} {r : List OpenEnd × Graph}

/-- Out of the body of a loop, only breaks lead behind the loop. -/
lemma LoopBody.break_of_arc (h : LoopBody G t ends g g₁ r) {u : Nat}
    (ha : r.2.Arc u (g.points.size + 1)) :
    r.2.kind? u = some .breakJump ∧ g₁.IsNew r.2 u := by
  obtain ⟨S, hbody⟩ := h.body
  have hsize := h.size
  have hnone (v : Nat) : ¬ g₁.Arc v (g.points.size + 1) := by
    intro ha
    rcases h.arcs _ _ ha with ha | heq
    · have := h.begun.target_lt ha
      omega
    · omega
  obtain ⟨k, hk, hmem, hnew⟩ := hbody.jump_of_arc (by omega) hnone ha
  cases k with
  | returns =>
    have := h.begun.aims.exits _ (h.grown.exits ▸ hmem)
    omega
  | throws => simp [Targets.of] at hmem
  | breaks => exact ⟨hk, hnew⟩
  | continues => simp [Targets.of] at hmem

lemma Site.Adds.isLoop {s : Site} {i : Nat} {k : PointKind} {x : Node} (h : s.Adds i k x)
    (hk : k = .loop) : s.skeleton.IsLoop x ∧ i = s.graph.points.size := by
  cases h with
  | head hloop => exact ⟨hloop, rfl⟩
  | leave j => cases j <;> cases hk
  | plain | dead | branch | joined | exit | switch | merge => cases hk

/-! ### Skeletons of loops and jumps -/

lemma IsEndless.skeleton_eq {loop body : Node} (h : IsEndless loop)
    (hbody : loop.field? "body" = some body) (d : Nat) :
    skeleton (d + 1) loop = .loop loop (skeleton d body) := by
  rcases h.construct with hc | hc
  · rw [skeleton, Skeleton.ofNode, hc]
    simp only [Skeleton.loopOf, hbody]
  · rw [skeleton, Skeleton.ofNode, hc]
    simp only [Skeleton.loopOf, hbody]

lemma skeleton_jump {k : Jump} {x : Node} (h : x.construct = k.construct) (d : Nat) :
    skeleton (d + 1) x = .leave k x := by
  rw [skeleton, Skeleton.ofNode, h]
  cases k <;> rfl

lemma IsEndless.skeleton_cases {loop : Node} (h : IsEndless loop) {sk : Skeleton} (hfits : sk.Fits)
    (hloop : sk.IsLoop loop) :
    sk = .bareLoop loop ∨
      ∃ d body, loop.field? "body" = some body ∧ sk = .loop loop (skeleton d body) := by
  cases hloop with
  | bare => exact .inl rfl
  | before a =>
    obtain ⟨-, d, body, hbody, rfl⟩ := hfits
    exact .inr ⟨d, body, hbody, rfl⟩
  | after a =>
    obtain ⟨hc, -⟩ := hfits
    rcases h.construct with hc' | hc'
    · rw [hc] at hc'
      cases hc'
    · rw [hc] at hc'
      cases hc'

/-- The loop with the head `h` is built with depth enough for its body, which is of the
construct. -/
def BodyIs (start : Site) (h : Nat) (loop : Node) (c : Construct) : Prop :=
  ∃ body, loop.field? "body" = some body ∧ body.construct = c ∧
    ∃ d fs ends g, start.Meets ⟨skeleton (d + 2) loop, fs, ends, g⟩ ∧ g.points.size = h

/-- A graph and the loops that seem to have no end. Behind such a loop control gets from its head
only, unless the body of the loop is a break. No return stands for a node of its body, unless the
body is a return. -/
structure EndlessLoops (start : Site) (G : Graph) : Prop where
  exit : ∀ h loop, G.StandsFor h .loop loop → IsEndless loop →
    G.StandsFor (h + 1) .merge loop ∧
      ∀ u, u ∈ G.predecessors (h + 1) ↔ u = h ∨ u = h + 2 ∧ BodyIs start h loop .breakJump
  returns : ∀ h loop body p x, G.StandsFor h .loop loop → IsEndless loop →
    loop.field? "body" = some body → G.StandsFor p .returnJump x → x ∈ body.preorder → x = body
  jump : ∀ h loop (k : Jump), IsEndless loop → BodyIs start h loop k.construct →
    G.StandsFor h .loop loop ∧
      ∃ body, loop.field? "body" = some body ∧ G.StandsFor (h + 2) k.kind body

/-- A loop whose body is a jump. -/
lemma BodyIs.exists_site {start : Site} {h : Nat} {loop : Node} {k : Jump}
    (hbody : BodyIs start h loop k.construct) (hloop : IsEndless loop) :
    ∃ body fs ends g, loop.field? "body" = some body ∧
      start.Meets ⟨.loop loop (.leave k body), fs, ends, g⟩ ∧ g.points.size = h := by
  obtain ⟨body, hfield, hc, d, fs, ends, g, hmeets, hsize⟩ := hbody
  rw [hloop.skeleton_eq hfield, skeleton_jump hc] at hmeets
  exact ⟨body, fs, ends, g, hfield, hmeets, hsize⟩

/-- A loop whose body is a break, which leads behind the loop. -/
lemma Site.Settled.arc_of_break {loop body : Node} {fs : List Frame}
    (hs : Site.Settled G ⟨.loop loop (.leave .breaks body), fs, ends, g⟩) :
    G.Arc (g.points.size + 2) (g.points.size + 1) := by
  obtain ⟨hbegun, hsealed⟩ := hs
  rw [Site.build, Skeleton.build] at hsealed
  dsimp only at hbegun hsealed
  obtain ⟨hin, hbody⟩ := hbegun.loopBody loop (.leave .breaks body)
  refine (hbody.arc_exit_iff hsealed).2 (.inl ?_)
  rw [Skeleton.build, hin.leave_arc]
  exact .inr (by simp [Targets.of])

/-- A break whose point is new in the body of a loop that seems to have no end, if the break is the
whole body. -/
lemma eq_of_isNew_break {body : Node} (hc : body.construct = .breakJump) {d u : Nat}
    (hnew : g.IsNew ((skeleton d body).build t ends g).2 u) :
    u = g.points.size ∧ ∃ d', d = d' + 1 := by
  cases d with
  | zero => exact absurd hnew.2 (Nat.not_lt.2 hnew.1)
  | succ d =>
    rw [skeleton_jump (k := .breaks) hc] at hnew
    obtain ⟨hge, hlt⟩ := hnew
    simp only [Skeleton.build, addEdges_size, pointAfter_size] at hlt
    exact ⟨by omega, d, rfl⟩

section Start

variable {sk : Skeleton} {sp : Span} {P : List Node → Node → Prop} (hs : sk.Placed P [])
  (hP : ∀ l loops x, P (l :: loops) x → ∃ part ∈ statementParts l, x ∈ part.preorder)
  (hfits : sk.Every Skeleton.Fits)

lemma exists_loopSite {h : Nat} {loop : Node}
    (hpoint : (sk.graphFrom (.fresh sp)).StandsFor h .loop loop) :
    ∃ s, (Site.start sk sp).Meets s ∧ s.skeleton.IsLoop loop ∧ s.graph.points.size = h := by
  obtain ⟨s, hmeets, hadds⟩ := exists_adds_of_standsFor hpoint
  obtain ⟨hloop, hsize⟩ := hadds.isLoop rfl
  exact ⟨s, hmeets, hloop, hsize.symm⟩

include hs hfits

/-- The points of jumps stand for jumps. -/
lemma construct_of_standsFor {k : Jump} {p : Nat} {x : Node}
    (hpoint : (sk.graphFrom (.fresh sp)).StandsFor p k.kind x) : x.construct = k.construct := by
  obtain ⟨y, frames, hsite, -⟩ := Skeleton.exists_jumpSite hs hpoint.kind?
  obtain ⟨-, rfl⟩ := hpoint.unique hsite.point
  obtain ⟨ends, g, hmeets, -⟩ := hsite.met
  exact (Site.Meets.every hmeets hfits).self

include hP

/-- A break that leads behind a loop that seems to have no end is the body of the loop. -/
lemma eq_body_of_break {h u : Nat} {loop : Node} (hloop : IsEndless loop)
    (hexit : (sk.graphFrom (.fresh sp)).StandsFor (h + 1) .merge loop)
    (hkind : (sk.graphFrom (.fresh sp)).kind? u = some .breakJump)
    (ha : (sk.graphFrom (.fresh sp)).Arc u (h + 1)) :
    ∃ body, loop.field? "body" = some body ∧ body.construct = .breakJump := by
  have hgraph : (sk.graphFrom (.fresh sp)).WellFormed := .built (sk.built_graphFrom sp)
  obtain ⟨x, frames, hsite, hleads⟩ := (Skeleton.jumpsNearest hs).breaks u hkind
  have htarget := (hleads.successors (h + 1)).1 ((hgraph.successors u (h + 1)).2 ha)
  obtain ⟨f, hf, hexit'⟩ := Option.map_eq_some_iff.1 (Option.mem_toList.1 htarget)
  obtain ⟨rest, rfl⟩ := List.head?_eq_some_iff.1 hf
  -- The innermost frame is that of the loop, as both have the same point behind them.
  have hin := (hsite.frames f List.mem_cons_self).1.exit
  rw [hexit'] at hin
  obtain ⟨-, rfl⟩ := hexit.unique hin
  obtain ⟨body, hmem, hx⟩ := hP _ _ _ hsite.lexical
  rw [hloop.statementParts_eq, Option.mem_toList] at hmem
  have hc : x.construct = .breakJump := construct_of_standsFor hs hfits (k := .breaks) hsite.point
  obtain rfl := hloop.eq_body hmem hx (.inl hc)
  exact ⟨x, hmem, hc⟩

/-- What leads behind a loop that seems to have no end is its head or a break that is its body. -/
lemma eq_of_arc_exit {u : Nat} {loop : Node} {s : Site} (hmeets : (Site.start sk sp).Meets s)
    (hskeleton : s.skeleton.IsLoop loop) (hloop : IsEndless loop)
    (ha : (sk.graphFrom (.fresh sp)).Arc u (s.graph.points.size + 1)) :
    u = s.graph.points.size ∨ u = s.graph.points.size + 2 ∧
      BodyIs (.start sk sp) s.graph.points.size loop .breakJump := by
  have hexit := (Site.Adds.exit hskeleton s.frames s.ends s.graph).graphFrom hmeets
  obtain ⟨hbegun, hsealed⟩ := Site.Meets.settled hmeets (Site.start_settled sk sp)
  have hfit := (Site.Meets.every hmeets hfits).self
  obtain ⟨skeleton, fs, ends, g⟩ := s
  rcases hloop.skeleton_cases hfit hskeleton with rfl | ⟨d, body, hbody, rfl⟩
  · have hbare := hbegun.bareLoop loop
    rcases (hbare.arc_exit_iff hsealed).1 ha with harc | heq
    · obtain ⟨-, hnew⟩ := hbare.break_of_arc harc
      exact absurd hnew.2 (Nat.not_lt.2 hnew.1)
    · exact .inl heq
  · obtain ⟨-, hbuilt⟩ := hbegun.loopBody loop (Flow.skeleton d body)
    rcases (hbuilt.arc_exit_iff hsealed).1 ha with harc | heq
    · obtain ⟨hkind, hnew⟩ := hbuilt.break_of_arc harc
      have hpart := ReflTransGen.tail hmeets (.loop loop (Flow.skeleton d body) fs ends g)
      have hwithin := Site.Meets.within hpart (Site.start_ready sk sp)
      have hkind' := (hwithin.after.trans (sk.kept_graphFrom sp)).kind? hkind
      obtain ⟨body', hbody', hc⟩ := eq_body_of_break hs hP hfits hloop hexit hkind' ha
      obtain rfl : body = body' := Option.some.inj (hbody.symm.trans hbody')
      obtain ⟨rfl, d, rfl⟩ := eq_of_isNew_break hc hnew
      refine .inr ⟨hbuilt.size, body, hbody, hc, d, fs, ends, g, ?_, rfl⟩
      rwa [hloop.skeleton_eq hbody]
    · exact .inl heq

omit hs hP in
lemma arc_head_exit_of_endless {loop : Node} {s : Site} (hmeets : (Site.start sk sp).Meets s)
    (hskeleton : s.skeleton.IsLoop loop) (hloop : IsEndless loop) :
    (sk.graphFrom (.fresh sp)).Arc s.graph.points.size (s.graph.points.size + 1) := by
  obtain ⟨hbegun, hsealed⟩ := Site.Meets.settled hmeets (Site.start_settled sk sp)
  have hfit := (Site.Meets.every hmeets hfits).self
  obtain ⟨skeleton, fs, ends, g⟩ := s
  rcases hloop.skeleton_cases hfit hskeleton with rfl | ⟨d, body, -, rfl⟩
  · exact (hbegun.bareLoop loop).arc_head_exit hsealed
  · exact (hbegun.loopBody loop _).2.arc_head_exit hsealed

/-- The graph of a skeleton that fits agrees with what is said about its loops. -/
theorem Skeleton.endlessLoops : EndlessLoops (.start sk sp) (sk.graphFrom (.fresh sp)) := by
  have hgraph : (sk.graphFrom (.fresh sp)).WellFormed := .built (sk.built_graphFrom sp)
  refine ⟨fun h loop hpoint hloop => ?_, fun h loop body p x _ hloop hbody hreturn hx => ?_,
    fun h loop k hloop hbody => ?_⟩
  · obtain ⟨s, hmeets, hskeleton, rfl⟩ := exists_loopSite hpoint
    refine ⟨(Site.Adds.exit hskeleton s.frames s.ends s.graph).graphFrom hmeets, fun u => ?_⟩
    rw [hgraph.predecessors]
    refine ⟨eq_of_arc_exit hs hP hfits hmeets hskeleton hloop, ?_⟩
    rintro (rfl | ⟨rfl, hbody⟩)
    · exact arc_head_exit_of_endless hfits hmeets hskeleton hloop
    · obtain ⟨body, fs, ends, g, -, hmeets', hsize⟩ := hbody.exists_site (k := .breaks) hloop
      rw [← hsize]
      exact (Site.Meets.settled hmeets' (Site.start_settled sk sp)).arc_of_break
  · have hc : x.construct = .returnJump :=
      construct_of_standsFor hs hfits (k := .returns) hreturn
    exact hloop.eq_body hbody hx (.inr hc)
  · obtain ⟨body, fs, ends, g, hfield, hmeets, rfl⟩ := hbody.exists_site hloop
    have hpart := ReflTransGen.tail hmeets (.loop loop (.leave k body) fs ends g)
    refine ⟨(Site.Adds.head (.before _) fs ends g).graphFrom hmeets, body, hfield, ?_⟩
    have hjump := (Site.Adds.leave k body _ _ _).graphFrom hpart
    simpa using hjump

end Start

/-! ### Analyses -/

lemma Skeleton.endlessLoops_leave (k : Jump) (n : Node) (sp : Span) :
    EndlessLoops (.start (.leave k n) sp) ((Skeleton.leave k n).graphFrom (.fresh sp)) := by
  have hnone {s : Site} {loop : Node} (hmeets : (Site.start (.leave k n) sp).Meets s) :
      ¬ s.skeleton.IsLoop loop := by
    rw [Site.Meets.eq_of_leave hmeets]
    intro hloop
    cases hloop
  have hpoint {i : Nat} {loop : Node}
      (h : ((Skeleton.leave k n).graphFrom (.fresh sp)).StandsFor i .loop loop) : False := by
    obtain ⟨s, hmeets, hloop, -⟩ := exists_loopSite h
    exact hnone hmeets hloop
  refine ⟨fun _ _ h => (hpoint h).elim, fun _ _ _ _ _ h => (hpoint h).elim,
    fun i loop k' hloop hbody => ?_⟩
  obtain ⟨body, fs, ends, g, -, hmeets, -⟩ := hbody.exists_site hloop
  exact absurd (.before _) (hnone hmeets)

theorem endlessLoops_program (d : Nat) (n : Node) :
    EndlessLoops (.start (skeleton d n) n.span) (programGraph d n) :=
  Skeleton.endlessLoops (around_skeleton d n) (fun _ _ _ h => h.mem_part) (fits_skeleton d n)

theorem endlessLoops_function (d : Nat) (n : Node) :
    EndlessLoops (.start (.ofBody (skeleton d) n) n.span) (functionGraph (d + 1) n) := by
  have hplaced := around_ofBody d n
  have hpart (l : Node) (loops : List Node) (x : Node) (h : AroundBody n (l :: loops) x) :
      ∃ part ∈ statementParts l, x ∈ part.preorder := by
    obtain ⟨body, -, h⟩ := h
    exact h.mem_part
  rcases fits_ofBody d n with hfits | ⟨body, hleave⟩
  · exact Skeleton.endlessLoops hplaced hpart hfits
  · rw [functionGraph, Nat.add_sub_cancel, hleave]
    exact Skeleton.endlessLoops_leave .returns body n.span

lemma EndlessLoops.marked {start : Site} (h : EndlessLoops start G) :
    EndlessLoops start G.marked := by
  obtain ⟨hexit, hreturns, hjump⟩ := h
  constructor
  · simpa only [marked_standsFor_iff, marked_predecessors] using hexit
  · simpa only [marked_standsFor_iff] using hreturns
  · simpa only [marked_standsFor_iff] using hjump

/-- The report lists the loops of its graph that seem to have no end, if this is asked for. -/
def Report.ListsEndless (r : Report) (o : Options) : Prop :=
  o.infiniteLoops = true → ∀ i loop, r.graph.StandsFor i .loop loop → IsEndless loop →
    loop.span ∈ r.infiniteLoops

lemma Draft.Noted.listsEndless {D : Draft} (h : D.Noted) {r : Report} {o : Options}
    (hshows : r.Shows o D) : r.ListsEndless o := by
  intro ho i loop hpoint hloop
  rw [hshows.graph, marked_standsFor_iff] at hpoint
  exact hshows.mem_infiniteLoops h ho hpoint hloop

/-- Every analysis lists the loops that seem to have no end, and its graph agrees with that up to
loops whose body is a single jump. -/
theorem analyses_endlessLoops (o : Options) (n : Node) :
    (∃ r, analyze o n = .ok r ∧ r.ListsEndless o ∧
      EndlessLoops (.start (skeleton (o.maxDepth + 1) n) n.span) r.graph) ∧
    (∃ r, analyzeFunction o n = .ok r ∧ r.ListsEndless o ∧
      EndlessLoops (.start (.ofBody (skeleton o.maxDepth) n) n.span) r.graph) := by
  constructor
  · obtain ⟨r, hr, hshows⟩ := (wellFormed_draftProgram o n).report_shows o
    refine ⟨r, hr, (noted_draftProgram o n).listsEndless hshows, ?_⟩
    rw [hshows.graph, draftProgram_graph]
    exact (endlessLoops_program _ n).marked
  · obtain ⟨r, hr, hshows⟩ := (wellFormed_draftFunction o n).report_shows o
    refine ⟨r, hr, (noted_draftFunction o n).listsEndless hshows, ?_⟩
    rw [hshows.graph, draftFunction_graph]
    exact (endlessLoops_function o.maxDepth n).marked

/-- A loop that seems to have no end, as nothing stands below its body. The body is a break, by
which control gets behind the loop. -/
theorem while_true_break_left :
    let jump : Tree := .leaf "break_statement" "break;"
    let loop : Tree := ⟨"while_statement", "", .zero, [.leaf "true" "true", jump],
      .ofList [("condition", 0), ("body", 1)]⟩
    let root := Node.root ⟨"program", "", .zero, [loop], ∅⟩
    IsEndless ⟨1, loop⟩ ∧ ∃ r, analyze {} root = .ok r ∧ loop.span ∈ r.infiniteLoops ∧
      r.graph.StandsFor 2 .loop ⟨1, loop⟩ ∧ r.graph.StandsFor 3 .merge ⟨1, loop⟩ ∧
      r.graph.StandsFor 4 .breakJump ⟨3, jump⟩ ∧ 4 ∈ r.graph.predecessors 3 := by
  intro jump loop root
  have hendless : IsEndless ⟨1, loop⟩ := ⟨.inr (by decide), by decide +kernel⟩
  have hfield : (⟨1, loop⟩ : Node).field? "body" = some ⟨3, jump⟩ := rfl
  have hbody : BodyIs (.start (skeleton 257 root) root.span) 2 ⟨1, loop⟩ .breakJump := by
    refine ⟨⟨3, jump⟩, hfield, by decide, 254, [], [.plain 0], .fresh root.span, ?_, rfl⟩
    exact .single (.first _ _ _ _ _ _)
  obtain ⟨r, hr, hshows⟩ := (wellFormed_draftProgram {} root).report_shows {}
  have hloops : EndlessLoops (.start (skeleton 257 root) root.span) r.graph := by
    rw [hshows.graph, draftProgram_graph]
    exact (endlessLoops_program 257 root).marked
  obtain ⟨hhead, body, hbody', hjump⟩ := hloops.jump 2 _ .breaks hendless hbody
  obtain rfl := Option.some.inj (hfield.symm.trans hbody')
  obtain ⟨hexit, hpred⟩ := hloops.exit 2 _ hhead hendless
  refine ⟨hendless, r, hr, ?_, hhead, hexit, hjump, (hpred 4).2 (.inr ⟨rfl, hbody⟩)⟩
  exact (noted_draftProgram {} root).listsEndless hshows rfl 2 _ hhead hendless

end Arbor.Flow
