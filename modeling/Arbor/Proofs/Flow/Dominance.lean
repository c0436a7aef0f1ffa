import Arbor.Proofs.Flow.Finally
import Arbor.Proofs.Flow.Orderly

/-!
# Constructs are reached before their parts

Control gets to what is built for a part of a statement from the open ends in front of the
statement, and mostly by way of the point of the statement itself. So where that point is not
reached, nothing inside the statement is. The exception is a loop that decides after each round:
control gets to its body first, and to its head only if a round comes to its end.
-/

namespace Arbor.Flow

open Relation Flow.Graph

variable {G : Graph} {s : Site} {n : Node} {fs : List Frame} {ends : List OpenEnd} {g : Graph}

/-! ### From the open ends to the point of a statement -/

lemma live_false_iff : Live false G ends ↔ ∃ e ∈ ends, G.Reachable e.point := by
  simp [Live, Lives]

namespace Site.Settled

/-- Control gets to what is built at a site from the open ends in front of it. -/
lemma live_ends (h : s.Settled G) {j : Nat} (hnew : s.graph.IsNew s.build.2 j)
    (hj : G.Reachable j) : Live false G s.ends :=
  live_of_lives (s.skeleton.threaded _ _ _).grown h.isSealed h.begun.entry
    (fun _ _ => h.begun.target_lt) h.begun.nonempty hnew (.inr hj)

lemma reachable_branch {a b : Skeleton} (h : Site.Settled G ⟨.branch n a b, fs, ends, g⟩)
    (hl : Live false G ends) : G.Reachable g.points.size := by
  obtain ⟨hbegun, hsealed⟩ := h
  have hyes := a.threaded (Frame.targets fs) [.labelled g.points.size .whenTrue]
    (g.pointAfter .branch n ends)
  have hno := b.threaded (Frame.targets fs) [.labelled g.points.size .whenFalse]
    (a.build (Frame.targets fs) [.labelled g.points.size .whenTrue] (g.pointAfter .branch n ends)).2
  have hparts := (hyes.again hno).grown
  have hpoint := hbegun.sealed_left (grown_pointAfter .branch n ends (Frame.targets fs) g) hparts
    hsealed
  exact ((hbegun.lives_pointAfter hpoint).2 hl).resolve_left Bool.false_ne_true

lemma reachable_loop {a : Skeleton} (h : Site.Settled G ⟨.loop n a, fs, ends, g⟩)
    (hl : Live false G ends) : G.Reachable g.points.size := by
  obtain ⟨hbegun, hsealed⟩ := h
  obtain ⟨-, hbody⟩ := hbegun.loopBody n a
  obtain ⟨S, hgrown⟩ := hbody.body
  obtain ⟨u, hu, hlives⟩ := live_iff_points.1 hl
  have harc := hgrown.arc ((hbegun.loopHead_arc n).2 (.inr ⟨hu, rfl⟩))
  have hhead := hlives.arc (hsealed.arcs _ _ (hbody.closeLoop_arc.2 (.inl harc)))
  exact hhead.resolve_left Bool.false_ne_true

lemma reachable_switch {cs : Cases} (h : Site.Settled G ⟨.switch n cs, fs, ends, g⟩)
    (hl : Live false G ends) : G.Reachable g.points.size := by
  obtain ⟨hbegun, hsealed⟩ := h
  simp only [Site.build, Skeleton.build, pointAfter_size] at hsealed
  have hbranch := (SwitchBody.of_build hbegun n cs).lives_branch (b := false) hsealed
  exact (hbranch.2 hl).resolve_left Bool.false_ne_true

/-- The head of a loop that decides after each round is reached if the loop is and one of its rounds
comes to its end. -/
lemma reachable_doWhile_iff {a : Skeleton} (h : Site.Settled G ⟨.doWhile n a, fs, ends, g⟩) :
    G.Reachable g.points.size ↔ Live false G ends ∧
      (.normal ∈ a.outcomes false ∨ .jump .continues ∈ a.outcomes false) := by
  obtain ⟨hbegun, hsealed⟩ := h
  obtain ⟨hin, hbody⟩ := hbegun.doWhileBody n a
  have hgrown := ((Skeleton.doWhile n a).threaded (Frame.targets fs) ends g).grown
  have hhead := hbody.lives_head hsealed hgrown rfl
    (fun u v hv ha => Nat.not_lt.2 hv (hbegun.target_lt ha))
    (a.hasOutcomes false hin (hbody.sealed hsealed)) rfl
  rw [← and_or_left, or_comm (a := .jump .continues ∈ a.outcomes false)] at hhead
  simpa [Lives] using hhead

end Site.Settled

/-! ### What is built inside a statement -/

/-- Where something inside the node of a point is reached, the point is, unless it is the head of a
loop that decides after each round. Such a loop is entered, anyhow. -/
lemma Site.Adds.reachable_of_inside {i j : Nat} {k : PointKind} {x : Node} (hadds : s.Adds i k x)
    (hk : k.isScaffolding = false) (hs : s.Settled G) (horder : s.skeleton.Orderly)
    (hnew : s.graph.IsNew s.build.2 j) (hj : G.Reachable j)
    (hin : ∀ s₀ k' y, s.Meets s₀ → s₀.Adds j k' y → y.Inside x) :
    G.Reachable i ∨ k = .loop ∧ i = s.graph.points.size ∧ Live false G s.ends ∧
      ∃ a, s.skeleton = .doWhile x a := by
  have hlive := hs.live_ends hnew hj
  obtain ⟨s', hpart, hnew'⟩ : ∃ s', s.Part s' ∧ s'.graph.IsNew s'.build.2 j := by
    rcases s.new_cases hnew with ⟨k', y, hown⟩ | hpart
    · exact absurd (hin s k' y .refl hown) (hadds.not_inside_own hown horder)
    · exact hpart
  cases hadds with
  | plain | leave => cases hpart
  | dead hr hnone hx =>
    cases hpart with
    | first =>
      obtain ⟨s₀, k', y, hmeets, hadds₀⟩ := Site.exists_adds _ hnew'
      have hinside := hin s₀ k' y (.head (.first _ _ _ _ _ _) hmeets) hadds₀
      have hy := Site.Meets.nodes_subset hmeets hadds₀.mem_nodes
      exact absurd hinside (horder.1 y hy x (List.mem_of_getElem? hx)).not_inside
    | rest hr' hopen =>
      subst hr hr'
      rw [hopen] at hnone
      cases hnone
  | branch => exact .inl (hs.reachable_branch hlive)
  | head hsk =>
    cases hsk with
    | bare => cases hpart
    | before a => exact .inl (hs.reachable_loop hlive)
    | after a => exact .inr ⟨rfl, rfl, hlive, a, rfl⟩
  | switch => exact .inl (hs.reachable_switch hlive)
  | joined | exit | merge => cases hk

/-- The loop `x`, which decides after each round, is built with the head `h` from the open ends on,
and with depth `d` left for its body. -/
def DoWhileAt (start : Site) (h : Nat) (x : Node) (d : Nat) (ends : List OpenEnd) : Prop :=
  x.construct = .doWhile ∧
    ∃ fs g, start.Meets ⟨skeleton (d + 1) x, fs, ends, g⟩ ∧ g.points.size = h

/-- In the graph `G`, which is built from the site `start` on, a point is reached if anything inside
its node is. The only exception is the head of a loop that decides after each round. Where the loop
is entered, the head is reached exactly if a round of the loop comes to its end. -/
structure ReachedAbove (start : Site) (G : Graph) : Prop where
  inside : ∀ {i j k k' x y}, G.StandsFor i k x → k.isScaffolding = false → G.StandsFor j k' y →
    y.Inside x → G.Reached j →
    G.Reached i ∨
      k = .loop ∧ ∃ d ends, DoWhileAt start i x d ends ∧ ∃ e ∈ ends, G.Reached e.point
  doWhile : ∀ {h x d ends}, DoWhileAt start h x d ends →
    G.StandsFor h .loop x ∧
      (G.Reached h ↔ (∃ e ∈ ends, G.Reached e.point) ∧
        (.normal ∈ Outcomes.part (outcomesTo d false) (x.field? "body") ∨
          .jump .continues ∈ Outcomes.part (outcomesTo d false) (x.field? "body")))

section Start

variable {sk : Skeleton} {sp : Span}

/-- The skeleton of a loop that decides after each round. -/
lemma skeleton_doWhile {x : Node} (hx : x.construct = .doWhile) (d : Nat) :
    skeleton (d + 1) x = .doWhile x (.part (skeleton d) (x.field? "body")) := by
  rw [skeleton, Skeleton.ofNode, hx]

lemma outcomes_body (d : Nat) (x : Node) :
    (Skeleton.part (skeleton d) (x.field? "body")).outcomes false =
      Outcomes.part (outcomesTo d false) (x.field? "body") := by
  rw [Skeleton.outcomes_part]
  simp only [outcomes_skeleton]

/-- The same in the graph of an orderly skeleton. -/
lemma Skeleton.reachable_of_inside (horder : sk.Every Orderly) {i j : Nat} {k k' : PointKind}
    {x y : Node} (hi : (sk.graphFrom (.fresh sp)).StandsFor i k x) (hk : k.isScaffolding = false)
    (hj : (sk.graphFrom (.fresh sp)).StandsFor j k' y) (hinside : y.Inside x)
    (hreach : (sk.graphFrom (.fresh sp)).Reachable j) :
    (sk.graphFrom (.fresh sp)).Reachable i ∨
      k = .loop ∧ ∃ s a, (Site.start sk sp).Meets s ∧ s.skeleton = .doWhile x a ∧
        i = s.graph.points.size ∧ Live false (sk.graphFrom (.fresh sp)) s.ends := by
  obtain ⟨s, hmeets, hadds⟩ := exists_adds_of_standsFor hi
  obtain ⟨s', hmeets', hadds'⟩ := exists_adds_of_standsFor hj
  have hstart := (Site.Meets.within hmeets' (Site.start_ready sk sp)).isNew hadds'.isNew
  have hin (s₀ : Site) (k₀ : PointKind) (y₀ : Node) (hmeets₀ : (Site.start sk sp).Meets s₀)
      (hadds₀ : s₀.Adds j k₀ y₀) : y₀.Inside x := by
    obtain ⟨-, rfl⟩ := (hadds₀.graphFrom hmeets₀).unique hj
    exact hinside
  have hnew := Site.Meets.isNew_of_inside hmeets hadds horder hstart hin
  have hs := Site.Meets.settled hmeets (Site.start_settled sk sp)
  rcases hadds.reachable_of_inside hk hs (Site.Meets.every hmeets horder).self hnew hreach
    fun s₀ k₀ y₀ hmeets₀ => hin s₀ k₀ y₀ (hmeets.trans hmeets₀) with h | ⟨hloop, hi, hlive, a, ha⟩
  · exact .inl h
  · exact .inr ⟨hloop, s, a, hmeets, ha, hi, hlive⟩

/-- What is reached in the graph of an orderly skeleton. -/
theorem Skeleton.reachedAbove (horder : sk.Every Orderly)
    (hfits : ∀ s x a, (Site.start sk sp).Meets s → s.skeleton = .doWhile x a →
      (Skeleton.doWhile x a).Fits) :
    ReachedAbove (.start sk sp) (sk.graphFrom (.fresh sp)).marked := by
  have hG : (sk.graphFrom (.fresh sp)).WellFormed := .built (sk.built_graphFrom sp)
  refine ⟨fun hi hk hj hinside hreached => ?_, ?_⟩
  · rw [marked_standsFor_iff] at hi hj
    simp only [hG.marked_reached_iff, ← live_false_iff] at hreached ⊢
    refine (reachable_of_inside horder hi hk hj hinside hreached).imp_right ?_
    rintro ⟨hloop, s, a, hmeets, ha, rfl, hlive⟩
    obtain ⟨hx, d, rfl⟩ := hfits s _ a hmeets ha
    refine ⟨hloop, d, s.ends, ⟨hx, s.frames, s.graph, ?_, rfl⟩, hlive⟩
    rwa [skeleton_doWhile hx, ← ha]
  · rintro h x d ends ⟨hx, fs, g, hmeets, rfl⟩
    rw [skeleton_doWhile hx] at hmeets
    have hs := Site.Meets.settled hmeets (Site.start_settled sk sp)
    refine ⟨((Site.Adds.head (.after _) _ _ _).graphFrom hmeets).marked, ?_⟩
    simp only [hG.marked_reached_iff, ← live_false_iff, ← outcomes_body]
    exact hs.reachable_doWhile_iff

end Start

/-! ### Analyses -/

theorem reachedAbove_program (d : Nat) {n : Node} (hn : n.FieldsDistinct) :
    ReachedAbove (.start (skeleton d n) n.span) (programGraph d n).marked := by
  refine Skeleton.reachedAbove (orderly_skeleton d hn) fun s x a hmeets ha => ?_
  have hfits := (Site.Meets.every hmeets (fits_skeleton d n)).self
  rw [ha] at hfits
  exact hfits

theorem reachedAbove_function (d : Nat) {n : Node} (hn : n.FieldsDistinct) :
    ReachedAbove (.start (.ofBody (skeleton d) n) n.span) (functionGraph (d + 1) n).marked := by
  refine Skeleton.reachedAbove (orderly_ofBody d hn) fun s x a hmeets ha => ?_
  rcases fits_ofBody d n with hfits | ⟨body, hleave⟩
  · have hfits := (Site.Meets.every hmeets hfits).self
    rw [ha] at hfits
    exact hfits
  · rw [hleave] at hmeets
    rw [Site.Meets.eq_of_leave hmeets] at ha
    cases ha

/-- The report lists the code of its graph that is not reached, if this is asked for. -/
def Report.ListsUnreached (r : Report) (o : Options) : Prop :=
  o.unreachable = true → ∀ i k x, r.graph.StandsFor i k x → k.isScaffolding = false →
    ¬ r.graph.Reached i → x.span ∈ r.unreachableCode

lemma Draft.WellFormed.listsUnreached {D : Draft} (h : D.WellFormed) {f : Option Node}
    (hlast : .finished f D.graph ∈ D.trace) {r : Report} {o : Options} (hshows : r.Shows o D) :
    r.ListsUnreached o := by
  intro ho i k x hpoint hk hreached
  rw [hshows.graph, marked_standsFor_iff] at hpoint
  rw [hshows.graph, h.graph.marked_reached_iff] at hreached
  rw [hshows.unreachableCode, ho, if_pos rfl, h.mem_unreachableCode_iff]
  obtain ⟨p, hp, rfl, hspan, -⟩ := hpoint
  exact ⟨f, D.graph, hlast, i, p, hp, hk, hspan, hreached⟩

/-- Whatever is analyzed, code that is reported as unreachable has nothing inside that is reached,
unless it is a loop that decides after each round. -/
theorem analyses_reachedAbove (o : Options) {n : Node} (hn : n.FieldsDistinct) :
    (∃ r, analyze o n = .ok r ∧ r.ListsUnreached o ∧
      ReachedAbove (.start (skeleton (o.maxDepth + 1) n) n.span) r.graph) ∧
    (∃ r, analyzeFunction o n = .ok r ∧ r.ListsUnreached o ∧
      ReachedAbove (.start (.ofBody (skeleton o.maxDepth) n) n.span) r.graph) := by
  constructor
  · have hwf := wellFormed_draftProgram o n
    obtain ⟨r, hr, hshows⟩ := hwf.report_shows o
    have hlast := Array.mem_of_back? (draftProgram_trace_back? o n)
    refine ⟨r, hr, hwf.listsUnreached hlast hshows, ?_⟩
    rw [hshows.graph, draftProgram_graph]
    exact reachedAbove_program _ hn
  · have hwf := wellFormed_draftFunction o n
    obtain ⟨r, hr, hshows⟩ := hwf.report_shows o
    have hlast := Array.mem_of_back? (draftFunction_trace_back? o n)
    refine ⟨r, hr, hwf.listsUnreached hlast hshows, ?_⟩
    rw [hshows.graph, draftFunction_graph]
    exact reachedAbove_function o.maxDepth hn

/-- A condition with a loop inside, and in the loop a call behind a return. -/
theorem analyses_reachedAbove_loop_in_branch :
    let call : Tree := .leaf "expression_statement" "f();"
    let body : Tree := ⟨"statement_block", "", .zero, [.leaf "return_statement" "return;", call], ∅⟩
    let loop : Tree := ⟨"while_statement", "", .zero, [.leaf "identifier" "c", body],
      .ofList [("condition", 0), ("body", 1)]⟩
    let branch : Tree := ⟨"if_statement", "", .zero, [.leaf "identifier" "b", loop, call],
      .ofList [("condition", 0), ("consequence", 1), ("alternative", 2)]⟩
    let root := Node.root ⟨"program", "", .zero, [branch, call], ∅⟩
    root.FieldsDistinct ∧
    (∃ r, analyze {} root = .ok r ∧ r.ListsUnreached {} ∧
      ReachedAbove (.start (skeleton 257 root) root.span) r.graph) ∧
    (∃ r, analyzeFunction {} root = .ok r ∧ r.ListsUnreached {} ∧
      ReachedAbove (.start (.ofBody (skeleton 256) root) root.span) r.graph) := by
  intro call body loop branch root
  have hroot : root.FieldsDistinct := by decide +kernel
  exact ⟨hroot, analyses_reachedAbove {} hroot⟩

/-- A loop that returns in its first round. Its head is reported as unreachable, and yet the return
inside is reached. -/
theorem doWhile_return_reached :
    let jump : Tree := .leaf "return_statement" "return;"
    let loop := doWhileOf jump
    let root := Node.root ⟨"program", "", .zero, [loop], ∅⟩
    root.FieldsDistinct ∧ ∃ r, analyze {} root = .ok r ∧
      r.graph.StandsFor 2 .loop ⟨1, loop⟩ ∧ ¬ r.graph.Reached 2 ∧ loop.span ∈ r.unreachableCode ∧
      r.graph.StandsFor 4 .returnJump ⟨3, jump⟩ ∧ r.graph.Reached 4 ∧
      Node.Inside ⟨3, jump⟩ ⟨1, loop⟩ := by
  intro jump loop root
  have hloop : (Site.start (skeleton 257 root) root.span).Meets
      ⟨skeleton 256 ⟨1, loop⟩, [], [.plain 0], .fresh root.span⟩ := .single (.first _ _ _ _ _ _)
  have hjump : (Site.start (skeleton 257 root) root.span).Meets
      ⟨.leave .returns ⟨3, jump⟩, [.loop ⟨1, loop⟩ 2], [.plain 0, ⟨2, some .whenTrue, true⟩],
        (Graph.fresh root.span).loopPoints ⟨1, loop⟩⟩ :=
    .tail (.tail hloop (.doWhile _ _ _ _ _)) (.first _ _ _ _ _ _)
  have hwf := wellFormed_draftProgram {} root
  obtain ⟨r, hr, hshows⟩ := hwf.report_shows {}
  have hgraph : r.graph = (programGraph 257 root).marked := by
    rw [hshows.graph, draftProgram_graph]
  have hroot : root.FieldsDistinct := by decide +kernel
  have habove : ReachedAbove (.start (skeleton 257 root) root.span) r.graph :=
    hgraph ▸ reachedAbove_program 257 hroot
  obtain ⟨hhead, hiff⟩ := habove.doWhile ⟨by decide, [], .fresh root.span, hloop, rfl⟩
  -- The head is reached from the end of the body only, and the body has none.
  have hnot : ¬ r.graph.Reached 2 := by
    intro hreached
    exact absurd (hiff.1 hreached).2 (by decide)
  have hlisted := hwf.listsUnreached (Array.mem_of_back? (draftProgram_trace_back? {} root)) hshows
  have hreturn : r.graph.StandsFor 4 .returnJump ⟨3, jump⟩ :=
    hgraph ▸ ((Site.Adds.leave _ _ _ _ _).graphFrom hjump).marked
  have hflag : (analyze {} root).toOption.map (·.graph.points[4]?.map (·.reachable)) =
      some (some true) := by decide +kernel
  have hreached : r.graph.Reached 4 := by
    rw [analyze, hr] at hflag
    exact Option.map_eq_some_iff.1 (Option.some.inj hflag)
  refine ⟨hroot, r, hr, hhead, hnot, hlisted rfl 2 _ _ hhead rfl hnot, hreturn, hreached, ?_⟩
  exact ⟨⟨2, blockOf jump⟩, List.mem_cons_self, List.mem_cons_of_mem _ List.mem_cons_self⟩

end Arbor.Flow
