import Arbor.Proofs.Flow.FallOff
import Arbor.Proofs.Flow.Findings
import Arbor.Proofs.Flow.Jumps

/-!
# The last part of a try statement

The last part of a try statement is entered from the open ends behind the parts that it follows. If
there are none, it is entered from where the try statement begins. Behind a loop that decides after
each round there is an open end even if control never gets there. So it may be that control gets to
a try statement and not to its last part: if it leaves the parts in front by jumps only, and yet
there are open ends. This is the only exception.
-/

namespace Arbor

/-- Whether a statement of the construct does nothing to control flow. -/
def Construct.isPlain : Construct → Bool
  | declaration | function | classDef | statement => true
  | _ => false

namespace Flow

open Relation Flow.Graph

/-! ### Sites on the way to a finished graph -/

/-- What is built at the site is part of the finished graph `G`, and nothing else leads into it. -/
structure Site.Settled (G : Graph) (s : Site) : Prop where
  begun : Begun G (Frame.targets s.frames) s.ends s.graph
  isSealed : Sealed G s.graph s.build.2

variable {G : Graph}

/-- What stands behind a branch begins at the branch. -/
lemma Begun.branch {t : Targets} {ends : List OpenEnd} {g : Graph} (h : Begun G t ends g)
    (n : Node) : Begun G t [.labelled g.points.size .whenTrue] (g.pointAfter .branch n ends) :=
  h.pointAfter (by decide) rfl n rfl rfl

lemma Cases.Part.settled {branch : Nat} {fs : List Frame} {cs : Cases} {ends : List OpenEnd}
    {g : Graph} {s : Site} (h : cs.Part branch fs ends g s)
    (hbegun : Begun G (Frame.targets fs) (.plain branch :: ends) g)
    (hs : Sealed G g (cs.build branch (Frame.targets fs) ends g).2) : s.Settled G := by
  induction h with
  | here label body rest ends g =>
    rw [Cases.build] at hs
    have hg := (body.threaded (Frame.targets fs) (ends ++ [.labelled branch label]) g).grown
    exact ⟨hbegun.case label, hbegun.sealed_left hg (rest.threaded _ _ _ _).grown hs⟩
  | @later label body rest ends g s r hr h ih =>
    subst hr
    rw [Cases.build] at hs
    have hg := (body.threaded (Frame.targets fs) (ends ++ [.labelled branch label]) g).grown
    exact ih (hbegun.afterCase label body) (hs.right hg.size_le)

namespace Site

/-- What is built in a part of a site that is settled is settled. -/
lemma Part.settled {s s' : Site} (h : s.Part s') (hs : s.Settled G) : s'.Settled G := by
  obtain ⟨hbegun, hs⟩ := hs
  cases h with
  | first a b dead fs ends g =>
    have hg := (a.threaded (Frame.targets fs) ends g).grown
    refine ⟨hbegun, ?_⟩
    simp only [build, Skeleton.build] at hs
    -- What comes behind the first part starts at its open ends or is dead.
    split_ifs at hs
    · exact hbegun.sealed_left hg ((Grown.refl [] _ _).addDead dead) hs
    · exact hbegun.sealed_left hg (b.threaded _ _ _).grown hs
  | @rest a b dead fs ends g r hr hopen =>
    subst hr
    have hg := (a.threaded (Frame.targets fs) ends g).grown
    refine ⟨hbegun.next a (by simpa using hopen), ?_⟩
    simp only [build, Skeleton.build, hopen, Bool.false_eq_true, if_false] at hs
    exact hs.right hg.size_le
  | yes n a b fs ends g =>
    have hg := grown_pointAfter .branch n ends (Frame.targets fs) g
    have hyes := (a.threaded (Frame.targets fs) [.labelled g.points.size .whenTrue]
      (g.pointAfter .branch n ends)).grown
    simp only [build, Skeleton.build] at hs
    -- The branch is the only way into this side, and the other side does not enter it.
    exact ⟨hbegun.branch n,
      (hbegun.branch n).sealed_left hyes (b.threaded _ _ _).grown (hs.right hg.size_le)⟩
  | @no n a b fs ends g r hr =>
    subst hr
    have hg := grown_pointAfter .branch n ends (Frame.targets fs) g
    have hyes := (a.threaded (Frame.targets fs) [.labelled g.points.size .whenTrue]
      (g.pointAfter .branch n ends)).grown
    simp only [build, Skeleton.build] at hs
    exact ⟨(hbegun.branch n).again a .whenFalse, (hs.right hg.size_le).right hyes.size_le⟩
  | tried a b fs ends g =>
    have hg := (a.threaded (Frame.targets fs) ends g).grown
    simp only [build, Skeleton.build] at hs
    exact ⟨hbegun, hbegun.sealed_left hg (b.threaded _ _ _).grown hs⟩
  | @handler a b fs ends g r hr =>
    subst hr
    have hg := (a.threaded (Frame.targets fs) ends g).grown
    simp only [build, Skeleton.build] at hs
    exact ⟨hbegun.again a .onCatch, hs.right hg.size_le⟩
  | joined n a fs ends g =>
    have hg := (a.threaded (Frame.targets fs) ends g).grown
    simp only [build, Skeleton.build] at hs
    exact ⟨hbegun, hbegun.sealed_left hg ((Threaded.pass _ (Frame.targets fs) _).join n).grown hs⟩
  | loop n a fs ends g =>
    -- The edges that close the loop lead to its head, not into its body.
    obtain ⟨hin, hbody⟩ := hbegun.loopBody n a
    simp only [build, Skeleton.build] at hs
    exact ⟨hin, hbody.sealed hs⟩
  | doWhile n a fs ends g =>
    obtain ⟨hin, hbody⟩ := hbegun.doWhileBody n a
    simp only [build, Skeleton.build] at hs
    exact ⟨hin, hbody.sealed hs⟩
  | @case n cs fs ends g g' s hg h =>
    subst hg
    simp only [build, Skeleton.build] at hs
    rw [pointAfter_size] at hs h
    have hbody := SwitchBody.of_build hbegun n cs
    exact h.settled (hbegun.switch n) (hbody.sealed_cases hs)
  | guarded a b fs ends g =>
    have hg := (a.threaded (Frame.targets fs) ends g).grown
    refine ⟨hbegun, ?_⟩
    simp only [build, Skeleton.build] at hs
    split_ifs at hs <;> exact hbegun.sealed_left hg (b.threaded _ _ _).grown hs
  | @last a b fs ends g r hr =>
    subst hr
    have hg := (a.threaded (Frame.targets fs) ends g).grown
    simp only [build, Skeleton.build] at hs
    -- The last part starts where the rest ends, or in front of it if it has no end.
    by_cases hnone : (a.build (Frame.targets fs) ends g).1.isEmpty
    · rw [if_pos hnone] at hs ⊢
      exact ⟨hbegun.again a .onFinally, hs.right hg.size_le⟩
    · rw [if_neg hnone] at hs ⊢
      exact ⟨(hbegun.next a (by simpa using hnone)).relabel .onFinally, hs.right hg.size_le⟩

theorem Meets.settled {s s' : Site} (h : s.Meets s') (hs : s.Settled G) : s'.Settled G := by
  induction h with
  | refl => exact hs
  | tail _ hpart ih => exact hpart.settled ih

lemma start_settled (s : Skeleton) (sp : Span) :
    (start s sp).Settled (s.graphFrom (.fresh sp)) :=
  ⟨.fresh (.built (s.built_graphFrom sp)) sp, s.sealed_graphFrom sp⟩

end Site

/-! ### Entering the last part -/

/-- The last part is entered if the statement is, unless there are open ends in front of it none of
which control gets to. -/
lemma Site.Settled.live_last {a b : Skeleton} {fs : List Frame} {ends : List OpenEnd} {g : Graph}
    (h : Site.Settled G ⟨.finally a b, fs, ends, g⟩) {r : List OpenEnd × Graph}
    (hr : r = a.build (Frame.targets fs) ends g) :
    Live false G ((if r.1.isEmpty then ends else r.1).map (·.relabel .onFinally)) ↔
      Live false G ends ∧ (.normal ∈ a.outcomes true → .normal ∈ a.outcomes false) := by
  subst hr
  have hguarded := (Site.Part.guarded a b fs ends g).settled h
  have hhoped := (a.hasOutcomes true hguarded.begun hguarded.isSealed).hoped hguarded.begun
  have hnormal := (a.hasOutcomes false hguarded.begun hguarded.isSealed).normal
  rw [live_relabel]
  by_cases hnone : (a.build (Frame.targets fs) ends g).1 = []
  · have hnot : .normal ∉ a.outcomes true := fun hn => hhoped.2 hn hnone
    rw [if_pos (List.isEmpty_iff.2 hnone)]
    exact (and_iff_left fun hn => absurd hn hnot).symm
  · rw [if_neg (by simpa using hnone), hnormal]
    exact and_congr_right fun _ => (imp_iff_right (hhoped.1 hnone)).symm

/-! ### Try statements -/

/-- The first statement of the block is the plain statement `x`. -/
structure BeginsWith (block x : Node) : Prop where
  construct : block.construct = .block
  first : (block.children.filter (·.construct != .ignored)).head? = some x
  plain : x.construct.isPlain = true

/-- At the site a try statement is built whose last part begins with the plain statement `x`. There
are levels of depth enough to get to `x`. -/
structure TrySite (s : Site) (d : Nat) (n x : Node) : Prop where
  skeleton : s.skeleton = skeleton (d + 3) n
  construct : n.construct = .tryCatch
  last : ∃ last, n.field? "finalizer" = some last ∧ BeginsWith ((last.field? "body").getD last) x

/-- The point that is added next once the parts of a try statement are built that its last part
follows. -/
def Site.lastPoint (s : Site) (d : Nat) (n : Node) : Nat :=
  ((Skeleton.guarded (Flow.skeleton (d + 2)) n).build (Frame.targets s.frames) s.ends
    s.graph).2.points.size

/-- If the parts of a try statement that its last part follows leave open ends, control gets to one
of them. -/
def EndsReached (d : Nat) (n : Node) : Prop :=
  .normal ∈ Outcomes.guarded (outcomesTo (d + 2) true) n →
    .normal ∈ Outcomes.guarded (outcomesTo (d + 2) false) n

lemma skeleton_plain {x : Node} (h : x.construct.isPlain = true) (d : Nat) :
    skeleton (d + 1) x = .plain x := by
  rw [skeleton, Skeleton.ofNode]
  cases hc : x.construct <;> simp_all [Construct.isPlain]

/-- Statements of which the first is plain. -/
lemma Skeleton.statements_plain {ns : List Node} {x : Node}
    (hfirst : (ns.filter (·.construct != .ignored)).head? = some x)
    (hplain : x.construct.isPlain = true) (d : Nat) :
    ∃ dead rest, Skeleton.statements (skeleton (d + 1)) ns = .andThen (.plain x) dead rest := by
  obtain ⟨dead, hdead⟩ := List.head?_eq_some_iff.1 hfirst
  refine ⟨dead, .sequence (skeleton (d + 1)) dead, ?_⟩
  rw [statements, hdead, sequence, skeleton_plain hplain]

lemma BeginsWith.skeleton_eq {block x : Node} (h : BeginsWith block x) (d : Nat) :
    ∃ dead rest, skeleton (d + 2) block = .andThen (.plain x) dead rest := by
  rw [skeleton, Skeleton.ofNode, h.construct]
  exact Skeleton.statements_plain h.first h.plain d

lemma TrySite.skeleton_eq {s : Site} {d : Nat} {n x : Node} (h : TrySite s d n x) :
    ∃ dead rest, s.skeleton =
      .finally (.guarded (Flow.skeleton (d + 2)) n) (.andThen (.plain x) dead rest) := by
  obtain ⟨last, hlast, hbegins⟩ := h.last
  obtain ⟨dead, rest, heq⟩ := hbegins.skeleton_eq d
  refine ⟨dead, rest, ?_⟩
  rw [h.skeleton, Flow.skeleton, Skeleton.ofNode, h.construct]
  simp only [Skeleton.tryOf, hlast, heq]

/-- Building at the site comes to the plain statement, whose point is entered as the last part
is. -/
lemma TrySite.exists_plain {s : Site} {d : Nat} {n x : Node} (h : TrySite s d n x)
    (hs : s.Settled G) :
    ∃ ends g, s.Meets ⟨.plain x, s.frames, ends, g⟩ ∧ g.points.size = s.lastPoint d n ∧
      (Live false G ends ↔ Live false G s.ends ∧ EndsReached d n) := by
  obtain ⟨dead, rest, heq⟩ := h.skeleton_eq
  obtain ⟨sk, fs, ends, g⟩ := s
  obtain rfl : sk = _ := heq
  refine ⟨_, _, .tail (.single (.last rfl)) (.first _ _ _ _ _ _), rfl, ?_⟩
  rw [hs.live_last rfl, Skeleton.outcomes_guarded, Skeleton.outcomes_guarded]
  simp only [outcomes_skeleton]
  rfl

/-! ### Loops that decide after each round -/

/-- No loop that decides after each round stands in the statement. -/
def NoDoWhile (n : Node) : Prop := ∀ loops m, Around n loops m → m.construct ≠ .doWhile

lemma NoDoWhile.part {n m : Node} (h : NoDoWhile n) (hm : m ∈ statementParts n) :
    NoDoWhile m := by
  have hextend {loops : List Node} {k : Node} (hk : Around m loops k) :
      ∃ loops', Around n loops' k := by
    induction hk with
    | base => exact ⟨_, .part .base hm⟩
    | part _ hpart ih =>
      obtain ⟨loops', hk⟩ := ih
      exact ⟨_, .part hk hpart⟩
  intro loops k hk
  obtain ⟨loops', hk⟩ := hextend hk
  exact h loops' k hk

/-- The two views differ at loops that decide after each round only. -/
lemma outcomesTo_hopeful (d : Nat) {n : Node} (h : NoDoWhile n) :
    outcomesTo d true n = outcomesTo d false n := by
  induction d generalizing n with
  | zero => rfl
  | succ d ih =>
    refine Outcomes.ofNodeBy_congr (fun m hm => ih (h.part hm)) (fun hn => ?_) fun _ => rfl
    exact absurd hn (h [] n .base)

/-- Without loops that decide after each round, all last parts count as the rules say. -/
theorem NoDoWhile.lastPartsCount {n : Node} (h : NoDoWhile n) (d : Nat) : LastPartsCount d n := by
  induction d generalizing n with
  | zero => trivial
  | succ d ih =>
    refine ⟨fun hn finalizer _ hends => .inl ?_, fun m hm => ih (h.part hm)⟩
    rwa [Outcomes.guarded_congr (fun m hm => outcomesTo_hopeful d (h.part hm)) hn] at hends

lemma NoDoWhile.endsReached {n : Node} (h : NoDoWhile n) (hn : n.construct = .tryCatch) (d : Nat) :
    EndsReached d n := by
  rw [EndsReached, Outcomes.guarded_congr (fun m hm => outcomesTo_hopeful (d + 2) (h.part hm)) hn]
  exact id

/-! ### Reached points -/

namespace Graph

variable {g : Graph} {i : Nat}

/-- The point is marked as reachable. -/
def Reached (g : Graph) (i : Nat) : Prop := ∃ p, g.points[i]? = some p ∧ p.reachable = true

lemma WellFormed.lt_size_of_reachable (h : g.WellFormed) (hi : g.Reachable i) :
    i < g.points.size := by
  rcases ReflTransGen.cases_tail hi with rfl | ⟨u, -, e, he, -, rfl⟩
  · rw [h.entry]
    exact lt_size_of_kind? ((h.kind_entry 0).2 rfl)
  · exact (h.range e he).2

lemma WellFormed.marked_reached_iff (h : g.WellFormed) : g.marked.Reached i ↔ g.Reachable i := by
  constructor
  · rintro ⟨p, hp, hreached⟩
    exact (h.marked_reachable_iff hp).1 hreached
  · intro hi
    obtain ⟨p, hp⟩ : ∃ p, g.marked.points[i]? = some p :=
      ⟨_, Array.getElem?_eq_getElem (by simpa using h.lt_size_of_reachable hi)⟩
    exact ⟨p, hp, (h.marked_reachable_iff hp).2 hi⟩

lemma WellFormed.marked_reached_entry (h : g.WellFormed) : g.marked.Reached 0 :=
  h.marked_reached_iff.2 (h.entry ▸ ReflTransGen.refl)

end Graph

/-! ### Analyses -/

/-- In the graph `G`, which is built from the site `start` on, the last part of a try statement is
reached exactly if the try statement is and control gets to the open ends in front of the last part,
should there be any. In particular it is reached with the try statement if no loop that decides
after each round stands in there. -/
structure FinallyEntered (start : Site) (G : Graph) : Prop where
  built : G = (start.skeleton.graphFrom start.graph).marked
  point : ∀ {s d n x}, start.Meets s → TrySite s d n x →
    G.StandsFor (s.lastPoint d n) .statement x
  reached : ∀ {s d n x}, start.Meets s → TrySite s d n x →
    (G.Reached (s.lastPoint d n) ↔ (∃ e ∈ s.ends, G.Reached e.point) ∧ EndsReached d n)
  follows : ∀ {s d n x}, start.Meets s → TrySite s d n x → NoDoWhile n →
    (∃ e ∈ s.ends, G.Reached e.point) → G.Reached (s.lastPoint d n)

lemma FinallyEntered.not_reached {start s : Site} {d : Nat} {n x : Node}
    (h : FinallyEntered start G) (hmeets : start.Meets s) (hs : TrySite s d n x)
    (hends : ¬EndsReached d n) : ¬G.Reached (s.lastPoint d n) :=
  fun hreached => hends ((h.reached hmeets hs).1 hreached).2

theorem Skeleton.finallyEntered (sk : Skeleton) (sp : Span) :
    FinallyEntered (.start sk sp) (sk.graphFrom (.fresh sp)).marked := by
  have hG : (sk.graphFrom (.fresh sp)).WellFormed := .built (sk.built_graphFrom sp)
  have hreached {s : Site} {d : Nat} {n x : Node} (hmeets : (Site.start sk sp).Meets s)
      (h : TrySite s d n x) :
      (sk.graphFrom (.fresh sp)).marked.Reached (s.lastPoint d n) ↔
        (∃ e ∈ s.ends, (sk.graphFrom (.fresh sp)).marked.Reached e.point) ∧ EndsReached d n := by
    have hs := Site.Meets.settled hmeets (Site.start_settled sk sp)
    obtain ⟨ends, g, hplain, hsize, hlive⟩ := h.exists_plain hs
    have hsite := Site.Meets.settled hplain hs
    have hpoint := hsite.begun.lives_pointAfter (b := false) hsite.isSealed
    simp only [hG.marked_reached_iff, ← hsize]
    simpa [Live, Lives] using hpoint.trans hlive
  refine ⟨rfl, fun hmeets h => ?_, hreached, fun hmeets h hfree hends => ?_⟩
  · have hs := Site.Meets.settled hmeets (Site.start_settled sk sp)
    obtain ⟨ends, g, hplain, hsize, -⟩ := h.exists_plain hs
    have hwithin := Site.Meets.within (hmeets.trans hplain) (Site.start_ready sk sp)
    rw [← hsize]
    refine ((hwithin.after.trans (sk.kept_graphFrom sp)).standsFor ?_).marked
    exact standsFor_pointAfter g .statement _ ends
  · exact (hreached hmeets h).2 ⟨hends, hfree.endsReached h.construct _⟩

lemma finallyEntered_programGraph (d : Nat) (n : Node) :
    FinallyEntered (.start (skeleton d n) n.span) (programGraph d n).marked :=
  Skeleton.finallyEntered _ _

lemma finallyEntered_functionGraph (d : Nat) (n : Node) :
    FinallyEntered (.start (.ofBody (skeleton (d - 1)) n) n.span) (functionGraph d n).marked :=
  Skeleton.finallyEntered _ _

/-- Whatever is analyzed, the last part of a try statement is reached exactly if the try statement
is, except where there are open ends in front of the last part none of which is reached. This holds
of the graphs in reports and of those of all functions inside. -/
theorem analyses_finallyEntered (o : Options) (n : Node) :
    (∃ r, analyze o n = .ok r ∧
      FinallyEntered (.start (skeleton (o.maxDepth + 1) n) n.span) r.graph) ∧
    (∃ r, analyzeFunction o n = .ok r ∧
      FinallyEntered (.start (.ofBody (skeleton o.maxDepth) n) n.span) r.graph) ∧
    ∀ (f : Node) (g : Graph), .finished (some f) g ∈ (draftProgram o n).trace ∨
        .finished (some f) g ∈ (draftFunction o n).trace →
      ∃ d, FinallyEntered (.start (.ofBody (skeleton d) f) f.span) g.marked := by
  refine ⟨?_, ?_, ?_⟩
  · obtain ⟨r, hr, hgraph, -⟩ := (wellFormed_draftProgram o n).report_eq o
    refine ⟨r, hr, ?_⟩
    rw [hgraph, draftProgram_graph]
    exact finallyEntered_programGraph _ n
  · obtain ⟨r, hr, hgraph, -⟩ := (wellFormed_draftFunction o n).report_eq o
    refine ⟨r, hr, ?_⟩
    rw [hgraph, draftFunction_graph]
    exact finallyEntered_functionGraph (o.maxDepth + 1) n
  · have hcomplete {enough : Prop} {f : Node} {g : Graph} (h : Complete enough (some f) g) :
        ∃ d, FinallyEntered (.start (.ofBody (skeleton d) f) f.span) g.marked := by
      obtain ⟨m, d, hm, rfl, -⟩ := h
      obtain rfl := Option.some.inj hm
      exact ⟨d - 1, finallyEntered_functionGraph d f⟩
    rintro f g (hmem | hmem)
    · exact hcomplete ((finished_draftProgram o n hmem).resolve_right (by simp)).complete
    · exact hcomplete (complete_draftFunction o n hmem)

/-- A loop that returns in its first round, and a last part behind it. Control gets to the try
statement but not to its last part, which is entered from the open end behind the loop. -/
theorem finally_unreached_behind_doWhile :
    let call : Tree := .leaf "expression_statement" "f();"
    let statement := tryOf (doWhileOf (.leaf "return_statement" "return;")) call
    let root := Node.root ⟨"program", "", .zero, [statement], ∅⟩
    let x : Node := ⟨9, call⟩
    ∃ r s d n, analyze {} root = .ok r ∧
      (Site.start (skeleton 257 root) root.span).Meets s ∧ TrySite s d n x ∧
      (∃ e ∈ s.ends, r.graph.Reached e.point) ∧
      r.graph.StandsFor (s.lastPoint d n) .statement x ∧ ¬r.graph.Reached (s.lastPoint d n) := by
  intro call statement root x
  let n : Node := ⟨1, statement⟩
  have hroot : skeleton 257 root = .andThen (skeleton 256 n) [] .pass := rfl
  have hsite : TrySite ⟨skeleton 256 n, [], [.plain 0], .fresh root.span⟩ 253 n x :=
    ⟨rfl, by decide, ⟨7, finallyOf call⟩, rfl, by decide, rfl, by decide⟩
  have hends : ¬EndsReached 253 n := by
    unfold EndsReached
    decide
  have hmeets : (Site.start (skeleton 257 root) root.span).Meets
      ⟨skeleton 256 n, [], [.plain 0], .fresh root.span⟩ := by
    rw [hroot]
    exact .single (.first _ _ _ _ _ _)
  obtain ⟨r, hr, hgraph, -⟩ := (wellFormed_draftProgram {} root).report_eq {}
  have hG := (wellFormed_draftProgram {} root).graph
  have hentered : FinallyEntered (.start (skeleton 257 root) root.span) r.graph := by
    rw [hgraph, draftProgram_graph]
    exact finallyEntered_programGraph 257 root
  have hentry : r.graph.Reached 0 := hgraph ▸ hG.marked_reached_entry
  exact ⟨r, _, 253, n, hr, hmeets, hsite, ⟨.plain 0, by simp, hentry⟩,
    hentered.point hmeets hsite, hentered.not_reached hmeets hsite hends⟩

end Flow

end Arbor
