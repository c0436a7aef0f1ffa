import Arbor.Proofs.Flow.Constructs
import Arbor.Proofs.Flow.Finally

/-!
# How switches are wired

Control enters a case from the branch of the switch and from what the case before leaves open, and
from nowhere else. What the last case leaves open flows on behind the switch, and so does the branch
if no case is for all other values. If there is neither, and no break leads behind the switch, then
the switch leaves no open ends.
-/

namespace Arbor.Flow

open Relation Flow.Graph

/-! ### Building a switch up to one of its cases -/

namespace Walker

open Build

/-- Builds a switch with some of its cases, up to the point where it is closed, and gives what the
last of these cases leaves open. -/
def buildUpTo (w : Walker) (n : Node) (ends : List OpenEnd) (ctx : Context) (cases : List Node) :
    Build (List OpenEnd) := do
  let branch ← Build.pointAfter .branch n ends
  w.visitField n "value" ctx
  let merge ← Build.point .merge n
  let scope ← Build.openScope .switch (some ctx.scope)
  w.buildCases branch cases [] (ctx.inSwitch scope merge)

variable {w : Walker} {sk : Node → Skeleton}

lemma follows_buildUpTo
    (hs : ∀ n ends ctx, (w.statement n ends ctx).Follows ((sk n).build ctx.targets ends))
    (he : ∀ n ctx, (w.expression n ctx).KeepsGraph) (n : Node) (ends : List OpenEnd)
    (ctx : Context) (cases : List Node) :
    (w.buildUpTo n ends ctx cases).Follows fun g =>
      (Cases.ofNodes sk cases).build g.points.size (ctx.targets.inSwitch (g.points.size + 1)) []
        (g.switchPoints n ends) := by
  have hcases (branch merge scope : Nat) :
      (w.buildCases branch cases [] (ctx.inSwitch scope merge)).Follows
        ((Cases.ofNodes sk cases).build branch (ctx.targets.inSwitch merge) []) :=
    follows_buildCases hs he branch _ [] _
  have h := Follows.bind (follows_pointAfter .branch n ends) fun branch =>
    (keepsGraph_visitField he n "value" ctx).bind_follows fun _ =>
      Follows.bind (follows_point .merge n) fun merge =>
        (KeepsGraph.openScope .switch (some ctx.scope)).bind_follows fun scope =>
          hcases branch merge scope
  intro D
  simp only [← pointAfter_size .branch n ends]
  exact h D

end Walker

/-! ### Sites in a switch -/

variable {G : Graph} {fs : List Frame} {ends : List OpenEnd} {g : Graph} {n x : Node}

lemma skeleton_switch (h : n.construct = .switch) (d : Nat) :
    skeleton (d + 1) n = .switch n (.ofNodes (skeleton d) (Walker.switchCases n)) := by
  rw [skeleton, Skeleton.ofNode, h]

/-- The first statement of the case is the plain statement `x`. -/
structure CaseBegins (c x : Node) : Prop where
  first : ((caseStatements c).filter (·.construct != .ignored)).head? = some x
  plain : x.construct.isPlain = true

/-- A case is built from the branch and from what is open behind the cases before it. -/
lemma Cases.part_ofNodes (sk : Node → Skeleton) (branch : Nat) (fs : List Frame)
    (before : List Node) (c : Node) (after : List Node) (ends : List OpenEnd) (g : Graph) :
    (Cases.ofNodes sk (before ++ c :: after)).Part branch fs ends g
      ⟨.statements sk (caseStatements c), fs,
        ((ofNodes sk before).build branch (Frame.targets fs) ends g).1 ++
          [.labelled branch (Walker.caseLabel c)],
        ((ofNodes sk before).build branch (Frame.targets fs) ends g).2⟩ := by
  induction before generalizing ends g with
  | nil => exact .here _ _ _ ends g
  | cons b before ih => exact .later rfl (ih _ _)

/-- The first statement of a case is built from the branch and from what is open behind the cases
before it. -/
lemma CaseBegins.meets {c : Node} (h : CaseBegins c x) (d : Nat) (before after : List Node)
    {r : List OpenEnd × Graph}
    (hr : r = (Cases.ofNodes (skeleton (d + 1)) before).build g.points.size
      ((Frame.targets fs).inSwitch (g.points.size + 1)) [] (g.switchPoints n ends)) :
    Site.Meets ⟨.switch n (.ofNodes (skeleton (d + 1)) (before ++ c :: after)), fs, ends, g⟩
      ⟨.plain x, .switch n (g.points.size + 1) :: fs,
        r.1 ++ [.labelled g.points.size (Walker.caseLabel c)], r.2⟩ := by
  obtain ⟨dead, rest, heq⟩ := Skeleton.statements_plain h.first h.plain d
  have hpart := Cases.part_ofNodes (skeleton (d + 1)) g.points.size
    (.switch n (g.points.size + 1) :: fs) before c after [] (g.switchPoints n ends)
  rw [heq] at hpart
  subst hr
  refine .tail (.single (.case rfl ?_)) (.first (.plain x) rest dead _ _ _)
  rw [pointAfter_size]
  exact hpart

/-- Nothing leads to the first statement of a case but the branch and what is open behind the cases
before it. -/
lemma CaseBegins.mem_predecessors {sk : Skeleton} {sp : Span} {d : Nat} {c : Node}
    {before after : List Node} {r : List OpenEnd × Graph} (h : CaseBegins c x)
    (hmeets : (Site.start sk sp).Meets
      ⟨.switch n (.ofNodes (skeleton (d + 1)) (before ++ c :: after)), fs, ends, g⟩)
    (hr : r = (Cases.ofNodes (skeleton (d + 1)) before).build g.points.size
      ((Frame.targets fs).inSwitch (g.points.size + 1)) [] (g.switchPoints n ends)) :
    (sk.graphFrom (.fresh sp)).StandsFor r.2.points.size .statement x ∧
      ∀ u, u ∈ (sk.graphFrom (.fresh sp)).predecessors r.2.points.size ↔
        u = g.points.size ∨ u ∈ OpenEnd.points r.1 := by
  have hG : (sk.graphFrom (.fresh sp)).WellFormed := .built (sk.built_graphFrom sp)
  have hplain := hmeets.trans (h.meets d before after hr)
  obtain ⟨hbegun, hsealed⟩ := Site.Meets.settled hplain (Site.start_settled sk sp)
  refine ⟨(Site.Adds.plain x _ _ _).graphFrom hplain, fun u => ?_⟩
  rw [hG.predecessors, hbegun.arc_pointAfter_iff hsealed]
  simp [or_comm, OpenEnd.labelled]

/-- Out of the cases of a switch, only breaks lead behind the switch. -/
lemma SwitchBody.break_of_arc {t : Targets} {r : List OpenEnd × Graph} {u : Nat}
    (h : SwitchBody G t ends g n r) (ha : r.2.Arc u (g.points.size + 1)) :
    r.2.kind? u = some .breakJump := by
  obtain ⟨S, hbody⟩ := h.body
  obtain ⟨k, hk, hmem, -⟩ := hbody.jump_of_arc (by simp) (fun _ => h.not_arc_merge) ha
  have hexits : (g.switchPoints n ends).exits = g.exits := (grown_switchPoints n ends t g).exits
  rw [hexits] at hmem
  cases k with
  | returns =>
    have := h.begun.aims.exits _ hmem
    omega
  | throws => simp [Targets.of] at hmem
  | breaks => exact hk
  | continues =>
    have := (h.begun.aims.continues (g.points.size + 1) (by simpa [Targets.of] using hmem)).1
    omega

/-- Nothing comes out of a switch if there is a case for all other values, the last case leaves
nothing open and no break leads behind the switch. -/
lemma SwitchBody.endAt_merge_eq_nil_iff {t : Targets} {r : List OpenEnd × Graph} {d : Bool}
    (h : SwitchBody G t ends g n r)
    (hs : Sealed G g (r.2.closeSwitch g.points.size (g.points.size + 1) d r.1))
    (hwf : (r.2.closeSwitch g.points.size (g.points.size + 1) d r.1).WellFormed)
    (hkind : ∀ u, r.2.kind? u = some .breakJump → G.kind? u = some .breakJump) :
    (r.2.closeSwitch g.points.size (g.points.size + 1) d r.1).endAt (g.points.size + 1) = [] ↔
      d = true ∧ r.1 = [] ∧
        ∀ p, G.kind? p = some .breakJump → ¬ G.Arc p (g.points.size + 1) := by
  simp only [endAt_eq_nil_iff, h.mem_predecessors_merge hs hwf]
  constructor
  · intro hnone
    refine ⟨?_, ?_, fun p _ => hnone p⟩
    · by_contra hd
      exact hnone _ ((h.arc_merge_iff hs).2 (.inr (.inr ⟨by simpa using hd, rfl⟩)))
    · rw [List.eq_nil_iff_forall_not_mem]
      intro e he
      exact hnone _ ((h.arc_merge_iff hs).2 (.inr (.inl (List.mem_map_of_mem he))))
  · rintro ⟨rfl, hnil, hbreak⟩ u ha
    rcases (h.arc_merge_iff hs).1 ha with hcase | hopen | ⟨hd, -⟩
    · exact hbreak u (hkind u (h.break_of_arc hcase)) ha
    · simp [hnil] at hopen
    · cases hd

/-! ### Wiring -/

/-- The switch has a case for all other values. -/
def HasDefault (n : Node) : Prop := ∃ c ∈ Walker.switchCases n, c.construct = .switchDefault

lemma hasDefault_iff (sk : Node → Skeleton) :
    (Cases.ofNodes sk (Walker.switchCases n)).hasDefault = true ↔ HasDefault n := by
  simp [Cases.hasDefault_ofNodes, HasDefault]

/-- The wiring of a switch in the finished graph `G`. The switch was built from the open ends `ends`
in the context `ctx` and the draft `D`, with `d` levels of depth left for its parts. -/
structure SwitchWired (d : Nat) (n : Node) (ends : List OpenEnd) (ctx : Context) (D : Draft)
    (G : Graph) : Prop where
  branch : G.StandsFor D.graph.points.size .branch n
  merge : G.StandsFor (D.graph.points.size + 1) .merge n
  /-- Nothing is open in front of the first case. -/
  start : ((walker d).buildUpTo n ends ctx [] D).1 = []
  /-- A case is entered from the branch and from what the case before it leaves open. -/
  entered : ∀ before c after x r, 0 < d → Walker.switchCases n = before ++ c :: after →
    CaseBegins c x → r = (walker d).buildUpTo n ends ctx before D →
    G.StandsFor r.2.graph.points.size .statement x ∧
      ∀ u, u ∈ G.predecessors r.2.graph.points.size ↔
        u = D.graph.points.size ∨ u ∈ OpenEnd.points r.1
  /-- Behind its last case the switch is closed. -/
  closed : ∀ r, r = (walker d).buildUpTo n ends ctx (Walker.switchCases n) D →
    ((walker d).buildSwitch n ends ctx D).2.graph =
      r.2.graph.closeSwitch D.graph.points.size (D.graph.points.size + 1)
        ((Walker.switchCases n).any (·.construct == .switchDefault)) r.1
  /-- What the last case leaves open leads behind the switch. -/
  flowsOut : ∀ r, r = (walker d).buildUpTo n ends ctx (Walker.switchCases n) D →
    ∀ u ∈ OpenEnd.points r.1, u ∈ G.predecessors (D.graph.points.size + 1)
  passed : ¬ HasDefault n → G.Arc D.graph.points.size (D.graph.points.size + 1)
  /-- Nothing comes out of the switch exactly if there is no way to its merge. -/
  ends_eq_nil_iff : ∀ r, r = (walker d).buildUpTo n ends ctx (Walker.switchCases n) D →
    (((walker d).buildSwitch n ends ctx D).1 = [] ↔ HasDefault n ∧ r.1 = [] ∧
      ∀ p, G.kind? p = some .breakJump → D.graph.points.size + 1 ∉ G.successors p)

lemma SwitchWired.marked {d : Nat} {ctx : Context} {D : Draft} (h : SwitchWired d n ends ctx D G) :
    SwitchWired d n ends ctx D G.marked := by
  obtain ⟨hbranch, hmerge, hstart, hentered, hclosed, hout, hpassed, hnil⟩ := h
  refine ⟨hbranch.marked, hmerge.marked, hstart, ?_, hclosed, ?_, hpassed, ?_⟩
  · simpa only [marked_standsFor_iff, marked_predecessors] using hentered
  · simpa only [marked_predecessors] using hout
  · simpa only [marked_kind?, marked_successors] using hnil

/-- Wherever building comes to a switch, the switch is wired. -/
theorem Site.Meets.switchWired {sk : Skeleton} {sp : Span} {d : Nat} {ctx : Context} {D : Draft}
    (hmeets : (Site.start sk sp).Meets ⟨Flow.skeleton (d + 1) n, fs, ends, g⟩)
    (hn : n.construct = .switch) (hctx : ctx.targets = Frame.targets fs) (hD : D.graph = g) :
    SwitchWired d n ends ctx D (sk.graphFrom (.fresh sp)) := by
  have hG : (sk.graphFrom (.fresh sp)).WellFormed := .built (sk.built_graphFrom sp)
  subst hD
  rw [skeleton_switch hn] at hmeets
  obtain ⟨hbegun, hsealed⟩ := Site.Meets.settled hmeets (Site.start_settled sk sp)
  have hbody := SwitchBody.of_build hbegun n (.ofNodes (Flow.skeleton d) (Walker.switchCases n))
  have hwf := ((Skeleton.switch n (.ofNodes (Flow.skeleton d) (Walker.switchCases n))).continues
    hbegun.ready).built.keeps WellFormed.step hbegun.wellFormed
  have hkept := (Site.Meets.within hmeets (Site.start_ready sk sp)).after.trans
    (sk.kept_graphFrom sp)
  -- What the builder does to the graph is what building the skeletons does.
  have hfollows := Walker.follows_buildUpTo (w := walker d) (follows_statementTo d)
    (keepsGraph_expressionTo d) n ends ctx
  have hswitch := Walker.follows_buildSwitch (w := walker d) (follows_statementTo d)
    (keepsGraph_expressionTo d) n ends ctx
  simp only [Site.build, Skeleton.build, pointAfter_size] at hsealed hwf hkept
  have hbranch := (Site.Adds.switch n _ fs ends _).graphFrom hmeets
  have hmerge := (Site.Adds.merge n _ fs ends _).graphFrom hmeets
  refine ⟨hbranch, hmerge, rfl, ?_, ?_, ?_, ?_, ?_⟩
  · rintro before c after x r hd hcases hbegins rfl
    obtain ⟨d, rfl⟩ := Nat.exists_eq_add_one.2 hd
    rw [hcases] at hmeets
    rw [(hfollows before).fst, (hfollows before).graph, hctx]
    exact hbegins.mem_predecessors hmeets rfl
  · rintro r rfl
    rw [hswitch.graph, (hfollows _).fst, (hfollows _).graph]
    simp only [Skeleton.build, pointAfter_size, Cases.hasDefault_ofNodes]
  · rintro r rfl u hu
    rw [(hfollows _).fst, hctx] at hu
    rw [hG.predecessors]
    exact (hbody.arc_merge_iff hsealed).2 (.inr (.inl hu))
  · intro hdefault
    rw [← hasDefault_iff (Flow.skeleton d), Bool.not_eq_true] at hdefault
    exact (hbody.arc_merge_iff hsealed).2 (.inr (.inr ⟨hdefault, rfl⟩))
  · rintro r rfl
    rw [hswitch.fst, (hfollows _).fst, ← hasDefault_iff (Flow.skeleton d), hctx]
    simp only [hG.successors, Skeleton.build, pointAfter_size]
    refine hbody.endAt_merge_eq_nil_iff hsealed hwf fun u hu => hkept.kind? ?_
    simpa [closeSwitch] using hu

/-! ### Analyses -/

/-- In the graph `G`, which is built from the site `start` on, all switches are wired. Each branch
of a switch was added where building came to the switch, and if there were `enough` levels of depth,
there were some left for the statements of its cases. -/
structure SwitchesWired (enough : Prop) (start : Site) (G : Graph) : Prop where
  built : G = (start.skeleton.graphFrom start.graph).marked
  sited : ∀ b n, G.StandsFor b .branch n → n.construct = .switch →
    ∃ d fs ends g, start.Meets ⟨skeleton (d + 1) n, fs, ends, g⟩ ∧ g.points.size = b ∧
      (enough → ∀ c ∈ Walker.switchCases n, ∀ x ∈ caseStatements c, 0 < d)
  wired : ∀ d n fs ends g ctx D, start.Meets ⟨skeleton (d + 1) n, fs, ends, g⟩ →
    n.construct = .switch → ctx.targets = Frame.targets fs → D.graph = g →
    SwitchWired d n ends ctx D G

section

variable {enough : Prop}

/-- A branch is added for a conditional or a switch. -/
lemma Site.Adds.stems_branch {s : Site} {b : Nat} {k : PointKind} (h : s.Adds b k n)
    (hk : k = .branch) (hstems : s.skeleton.Stems enough) (hn : n.construct = .switch) :
    ∃ d, s.skeleton = Flow.skeleton (d + 1) n ∧ s.graph.points.size = b ∧
      (enough → n.height ≤ d + 1) := by
  cases h with
  | branch =>
    have hn' : n.construct = .conditional := hstems
    rw [hn'] at hn
    cases hn
  | switch =>
    obtain ⟨-, d, rfl, hd⟩ := hstems
    exact ⟨d, (skeleton_switch hn d).symm, rfl, hd⟩
  | leave j => cases j <;> cases hk
  | plain | dead | joined | head | exit | merge => cases hk

theorem Skeleton.switchesWired {sk : Skeleton} (sp : Span)
    (h : sk.Every (Stems enough) ∨ ∃ body, sk = .leave .returns body) :
    SwitchesWired enough (.start sk sp) (sk.graphFrom (.fresh sp)).marked := by
  refine ⟨rfl, fun b n hb hn => ?_, fun d n fs ends g ctx D hmeets hn hctx hD => ?_⟩
  · rw [marked_standsFor_iff] at hb
    obtain ⟨s, hmeets, hadds⟩ := exists_adds_of_standsFor hb
    rcases h with h | ⟨body, rfl⟩
    · obtain ⟨d, hskeleton, hsize, hd⟩ :=
        hadds.stems_branch rfl (Site.Meets.every hmeets h).self hn
      refine ⟨d, s.frames, s.ends, s.graph, hskeleton ▸ hmeets, hsize, fun he c hc x hx => ?_⟩
      have hpart : x ∈ statementParts n := by
        simp only [statementParts, hn]
        exact List.mem_flatMap.2 ⟨c, hc, hx⟩
      have hlt := Node.height_lt_of_inside (inside_of_mem_statementParts hpart)
      have hpos := x.height_pos
      have := hd he
      omega
    · rw [hmeets.eq_of_leave] at hadds
      cases hadds
  · exact (Site.Meets.switchWired hmeets hn hctx hD).marked

lemma switchesWired_programGraph {d : Nat} {n : Node} (h : enough → n.height ≤ d) :
    SwitchesWired enough (.start (skeleton d n) n.span) (programGraph d n).marked :=
  Skeleton.switchesWired _ (.inl (stems_skeleton h))

lemma switchesWired_functionGraph {d : Nat} {n : Node} (h : enough → n.height ≤ d) :
    SwitchesWired enough (.start (.ofBody (skeleton (d - 1)) n) n.span)
      (functionGraph d n).marked :=
  Skeleton.switchesWired _ (stems_ofBody fun he => Nat.le_trans (h he) (by omega))

end

/-- Whatever is analyzed, all switches are wired, in the graphs of reports and in those of all
functions inside. -/
theorem analyses_switchesWired (o : Options) (n : Node) :
    (∃ r, analyze o n = .ok r ∧ SwitchesWired (n.height ≤ o.maxDepth + 1)
      (.start (skeleton (o.maxDepth + 1) n) n.span) r.graph) ∧
    (∃ r, analyzeFunction o n = .ok r ∧ SwitchesWired (n.height ≤ o.maxDepth + 1)
      (.start (.ofBody (skeleton o.maxDepth) n) n.span) r.graph) ∧
    ∀ (f : Node) (g : Graph), .finished (some f) g ∈ (draftProgram o n).trace ∨
        .finished (some f) g ∈ (draftFunction o n).trace →
      ∃ d, SwitchesWired (2 * n.height ≤ o.maxDepth + 1)
        (.start (.ofBody (skeleton d) f) f.span) g.marked := by
  refine ⟨?_, ?_, ?_⟩
  · obtain ⟨r, hr, hgraph, -⟩ := (wellFormed_draftProgram o n).report_eq o
    refine ⟨r, hr, ?_⟩
    rw [hgraph, draftProgram_graph]
    exact switchesWired_programGraph id
  · obtain ⟨r, hr, hgraph, -⟩ := (wellFormed_draftFunction o n).report_eq o
    refine ⟨r, hr, ?_⟩
    rw [hgraph, draftFunction_graph]
    exact switchesWired_functionGraph id
  · have hcomplete {enough : Prop} {f : Node} {g : Graph} (h : Complete enough (some f) g)
        (he : 2 * n.height ≤ o.maxDepth + 1 → enough) :
        ∃ d, SwitchesWired (2 * n.height ≤ o.maxDepth + 1)
          (.start (.ofBody (skeleton d) f) f.span) g.marked := by
      obtain ⟨m, d, hm, rfl, hd⟩ := h
      obtain rfl := Option.some.inj hm
      exact ⟨d - 1, switchesWired_functionGraph fun h => hd (he h)⟩
    rintro f g (hmem | hmem)
    · exact hcomplete ((finished_draftProgram o n hmem).resolve_right (by simp)).complete id
    · exact hcomplete (complete_draftFunction o n hmem) (Nat.le_trans · (Nat.le_succ _))

/-- A switch with two cases of which the first falls through. Its second case is entered from the
branch and from the statement of the first. -/
theorem analyses_switchesWired_fallThrough :
    let one : Tree := ⟨"switch_case", "", .zero,
      [.leaf "number" "1", .leaf "expression_statement" "f();"], .ofList [("value", 0)]⟩
    let call : Tree := .leaf "expression_statement" "g();"
    let other : Tree := ⟨"switch_default", "", .zero, [call], ∅⟩
    let body : Tree := ⟨"switch_body", "", .zero, [one, other], ∅⟩
    let statement : Tree := ⟨"switch_statement", "", .zero, [.leaf "identifier" "x", body],
      .ofList [("value", 0), ("body", 1)]⟩
    let root := Node.root ⟨"program", "", .zero, [statement], ∅⟩
    ∃ r, analyze {} root = .ok r ∧ r.graph.StandsFor 2 .branch ⟨1, statement⟩ ∧
      r.graph.StandsFor 5 .statement ⟨8, call⟩ ∧
      ∀ u, u ∈ r.graph.predecessors 5 ↔ u = 2 ∨ u = 4 := by
  intro one call other body statement root
  let n : Node := ⟨1, statement⟩
  let D : Draft := ⟨.fresh root.span, 0, #[]⟩
  obtain ⟨⟨r, hr, hwired⟩, -⟩ := analyses_switchesWired {} root
  have hmeets : (Site.start (skeleton 257 root) root.span).Meets
      ⟨skeleton 256 n, [], [.plain 0], .fresh root.span⟩ := by
    rw [show skeleton 257 root = .andThen (skeleton 256 n) [] .pass from rfl]
    exact .single (.first _ _ _ _ _ _)
  have hswitch := hwired.wired 255 n [] [.plain 0] _ (.root 0) D hmeets rfl rfl rfl
  have hbranch : r.graph.StandsFor 2 .branch n := hswitch.branch
  have hcase := hswitch.entered [⟨4, one⟩] ⟨7, other⟩ [] ⟨8, call⟩ _ (by decide) rfl
    ⟨rfl, rfl⟩ rfl
  have hends : ((walker 255).buildUpTo n [.plain 0] (.root 0) [⟨4, one⟩] D).1 = [.plain 4] := by
    decide +kernel
  have hsize : ((walker 255).buildUpTo n [.plain 0] (.root 0) [⟨4, one⟩] D).2.graph.points.size =
      5 := by decide +kernel
  rw [hends, hsize] at hcase
  refine ⟨r, hr, hbranch, hcase.1, fun u => ?_⟩
  rw [hcase.2 u]
  simp [D, OpenEnd.plain, Graph.fresh]

end Arbor.Flow
