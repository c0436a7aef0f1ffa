import Arbor.Proofs.Flow.Lexical
import Arbor.Proofs.Flow.Report

/-!
# Where jumps lead

A `break` leads behind the nearest loop or switch around it and a `continue` to the head of the
nearest loop, each by a single edge, or nowhere if there is none. A return leads to the end of the
function and a throw leads nowhere.
-/

namespace Arbor.Flow

open Flow.Graph

namespace Graph

variable {g : Graph} {p : Nat}

lemma IsSink.addEdges {es : List Edge} (h : g.IsSink p) (hes : ∀ e ∈ es, e.source ≠ p) :
    (g.addEdges es).IsSink p := by
  induction es generalizing g with
  | nil => exact h
  | cons e es ih => exact ih (h.addEdge (hes e (by simp))) fun e' he' => hes e' (by simp [he'])

lemma outgoing_eq_nil (h : g.IsSink p) : g.outgoing p = [] := by
  rw [outgoing, List.filter_eq_nil_iff]
  intro e he hs
  exact h e.target ⟨e, Array.mem_toList_iff.1 he, by simpa using hs, rfl⟩

lemma mem_successors_iff_outgoing (h : g.WellFormed) {v : Nat} :
    v ∈ g.successors p ↔ ∃ e ∈ g.outgoing p, e.target = v := by
  rw [h.successors]
  simp only [Arc, outgoing, List.mem_filter, Array.mem_toList_iff, beq_iff_eq, and_assoc]

/-- A jump from a point from which nothing leads on yet. -/
lemma outgoing_jump (hg : g.WellFormed) (hp : g.IsSink p) (hlt : p < g.points.size) (k : Jump)
    {targets : List Nat} (hone : targets.length ≤ 1) (ht : ∀ x ∈ targets, x < g.points.size) :
    (g.addEdges (k.edges p targets)).outgoing p = k.edges p targets := by
  match targets with
  | [] => exact outgoing_eq_nil hp
  | [x] =>
    have hold := outgoing_eq_nil hp
    simp only [Jump.edges, List.map_cons, List.map_nil, addEdges_cons, addEdges_nil]
    obtain ⟨-, hthere⟩ | ⟨heq, -⟩ := addEdge_cases g ⟨p, x, k.label, k.back⟩
    · have hx := hthere hlt (ht x (by simp))
      exact absurd ((hg.successors p x).1 hx) (hp x)
    · rw [outgoing] at hold ⊢
      simp [heq, insertEdge, hold]
  | _ :: _ :: _ => simp at hone

end Graph

/-! ### The edges of a jump -/

lemma Jump.kind_injective : Function.Injective Jump.kind := by
  intro j k
  cases j <;> cases k <;> decide

/-- The targets of jumps are points of the graph. -/
lemma Ready.target_lt {g : Graph} {t : Targets} {ends : List OpenEnd} (h : Ready g t ends)
    (k : Jump) {x : Nat} (hx : x ∈ t.of g.exits k) : x < g.points.size := by
  cases k with
  | returns =>
    obtain ⟨_, hkind, -⟩ := (h.exits x hx).kind
    exact lt_size_of_kind? hkind
  | throws => simp [Targets.of] at hx
  | breaks =>
    obtain ⟨_, hkind, -⟩ := (h.breaks x (Option.mem_toList.1 hx)).kind
    exact lt_size_of_kind? hkind
  | continues => exact lt_size_of_kind? (h.continues x (Option.mem_toList.1 hx))

/-- A jump takes the edges to its targets and no others. -/
lemma Site.outgoing_leave {k : Jump} {x : Node} {fs : List Frame} {ends : List OpenEnd} {g : Graph}
    (hready : Site.Ready ⟨.leave k x, fs, ends, g⟩) (hg : g.WellFormed) :
    (Site.build ⟨.leave k x, fs, ends, g⟩).2.outgoing g.points.size =
      k.edges g.points.size ((Frame.targets fs).of g.exits k) := by
  have hready : Flow.Ready g (Frame.targets fs) ends := hready
  have hbuilt : Built g (g.pointAfter k.kind x ends) :=
    .pointAfter hready.range hready.flows k.kind_ne_entry k.kind_ne_exit x
  have hsink : (g.pointAfter k.kind x ends).IsSink g.points.size := by
    refine IsSink.addEdges (fun v hv => ?_) fun e he => ?_
    · have := hready.range _ v hv
      omega
    · obtain ⟨o, ho, rfl⟩ := List.mem_map.1 he
      exact Nat.ne_of_lt (hready.flows o ho).lt_size
  have hone : ((Frame.targets fs).of g.exits k).length ≤ 1 := by
    cases k with
    | returns => simp [Targets.of, hg.exits]
    | throws => simp [Targets.of]
    | breaks => exact Option.length_toList_le
    | continues => exact Option.length_toList_le
  rw [build, Skeleton.build]
  refine outgoing_jump (hbuilt.keeps WellFormed.step hg) hsink (by simp) k hone fun y hy => ?_
  have := hready.target_lt k hy
  rw [pointAfter_size]
  omega

/-! ### Nearest loops and switches -/

/-- The point `p` of the graph `G` is that of the jump `x`, which was built inside the frames. They
stand for the loops and switches around `x`. -/
structure JumpSite (start : Site) (around : List Node → Node → Prop) (G : Graph) (p : Nat)
    (k : Jump) (x : Node) (frames : List Frame) : Prop where
  met : ∃ ends g, start.Meets ⟨.leave k x, frames, ends, g⟩ ∧ g.points.size = p
  point : G.StandsFor p k.kind x
  lexical : around (frames.map (·.node)) x
  frames : ∀ f ∈ frames, f.In G ∧ f.head.isSome = f.node.construct.isLoop

/-- The point leads to the targets by edges of the form given, and nowhere else. -/
structure Graph.LeadsOnly (g : Graph) (p : Nat) (targets : List Nat) (label : Option Label)
    (back : Bool) : Prop where
  edges : g.outgoing p = targets.map fun t => ⟨p, t, label, back⟩
  successors : ∀ v, v ∈ g.successors p ↔ v ∈ targets

/-- The jumps of a graph lead to the nearest targets. -/
structure JumpsNearest (start : Site) (around : List Node → Node → Prop) (G : Graph) : Prop where
  breaks : ∀ p, G.kind? p = some .breakJump → ∃ x frames,
    JumpSite start around G p .breaks x frames ∧
      G.LeadsOnly p (frames.head?.map (·.exit)).toList (some .onBreak) false
  continues : ∀ p, G.kind? p = some .continueJump → ∃ x frames,
    JumpSite start around G p .continues x frames ∧
      G.LeadsOnly p ((frames.find? (·.node.construct.isLoop)).bind (·.head)).toList
        (some .onContinue) true
  returns : ∀ p, G.kind? p = some .returnJump → G.LeadsOnly p G.exits none false
  throws : ∀ p, G.kind? p = some .throwJump → G.LeadsOnly p [] none false

/-- The frames that have a head are the loops. -/
lemma Frame.findSome?_head {frames : List Frame}
    (h : ∀ f ∈ frames, f.head.isSome = f.node.construct.isLoop) :
    frames.findSome? (·.head) = (frames.find? (·.node.construct.isLoop)).bind (·.head) := by
  induction frames with
  | nil => rfl
  | cons f fs ih =>
    have hf := h f (by simp)
    have ih := ih fun f' hf' => h f' (by simp [hf'])
    cases hhead : f.head with
    | none => simp_all
    | some x => simp_all

/-- Control flows on from all points but those of jumps. -/
lemma Site.Adds.flowsOn_or_leave {s : Site} {i : Nat} {k : PointKind} {x : Node}
    (h : s.Adds i k x) :
    k.flowsOn = true ∨
      ∃ j : Jump, k = j.kind ∧ s.skeleton = .leave j x ∧ i = s.graph.points.size := by
  cases h with
  | leave j => exact .inr ⟨j, rfl, rfl, rfl⟩
  | _ => exact .inl rfl

namespace Skeleton

variable {s : Skeleton} {sp : Span} {P : List Node → Node → Prop} {p : Nat}

/-- A jump was built inside some frames, and leads where they say. -/
theorem exists_jumpSite (hs : s.Placed P []) {k : Jump}
    (hp : (s.graphFrom (.fresh sp)).kind? p = some k.kind) :
    ∃ x frames, JumpSite (.start s sp) P (s.graphFrom (.fresh sp)) p k x frames ∧
      (s.graphFrom (.fresh sp)).outgoing p =
        k.edges p ((Frame.targets frames).of (s.graphFrom (.fresh sp)).exits k) := by
  obtain ⟨q, hq, hkind⟩ := kind?_eq_some_iff.1 hp
  rcases s.point_cases sp hq with ⟨-, hends⟩ | ⟨s', k', x, hmeets, hadds, hstands⟩
  · rw [hkind] at hends
    exact absurd hends (not_or.2 ⟨k.kind_ne_entry, k.kind_ne_exit⟩)
  -- Of the points that a skeleton adds for itself, only that of a jump has the kind of one.
  have hsame : k' = k.kind := Option.some.inj (hstands.kind?.symm.trans hp)
  rcases hadds.flowsOn_or_leave with hflows | ⟨j, hj, hleave, hsize⟩
  · rw [hsame, k.not_flowsOn] at hflows
    cases hflows
  obtain rfl : j = k := Jump.kind_injective (hj.symm.trans hsame)
  obtain ⟨_, frames, ends, g⟩ := s'
  obtain rfl : _ = Skeleton.leave j x := hleave
  obtain rfl : p = g.points.size := hsize
  have hstart := Site.start_ready s sp
  have hwithin := Site.Meets.within hmeets hstart
  have hplaced := Site.Meets.placed hmeets (Site.start_placed hs sp)
  have hfinal := hwithin.after.trans (s.kept_graphFrom sp)
  refine ⟨x, frames, ⟨⟨ends, g, hmeets, rfl⟩, hj ▸ hstands, hplaced.skeleton, ?_⟩, ?_⟩
  · intro f hf
    have hin := Site.Meets.framed hmeets hstart (Site.start_framed s sp) f hf
    exact ⟨(hin.kept (Ready.kept_build hwithin.ready _)).kept hfinal, hplaced.frames f hf⟩
  · have hgraph : g.WellFormed := .built hwithin.built
    have hjump : (Site.build ⟨.leave j x, frames, ends, g⟩).2.IsJump g.points.size :=
      ⟨j, ((standsFor_pointAfter g j.kind x ends).addEdges _).kind?⟩
    have hexits : (s.graphFrom (.fresh sp)).exits = g.exits :=
      hfinal.exits.trans (Skeleton.threaded _ _ _ _).grown.exits
    rw [hfinal.outgoing hjump, Site.outgoing_leave hwithin.ready hgraph, hexits]

/-- The jumps of the graph of a skeleton lead to the nearest targets. -/
theorem jumpsNearest (hs : s.Placed P []) :
    JumpsNearest (.start s sp) P (s.graphFrom (.fresh sp)) := by
  have hgraph : (s.graphFrom (.fresh sp)).WellFormed := .built (s.built_graphFrom sp)
  have hleads {p : Nat} {k : Jump} {targets : List Nat}
      (h : (s.graphFrom (.fresh sp)).outgoing p = k.edges p targets) :
      (s.graphFrom (.fresh sp)).LeadsOnly p targets k.label k.back := by
    refine ⟨h, fun v => ?_⟩
    rw [mem_successors_iff_outgoing hgraph, h]
    simp [Jump.edges]
  refine ⟨fun p hp => ?_, fun p hp => ?_, fun p hp => ?_, fun p hp => ?_⟩
  · obtain ⟨x, frames, hsite, hout⟩ := exists_jumpSite hs (k := .breaks) hp
    exact ⟨x, frames, hsite, hleads hout⟩
  · obtain ⟨x, frames, hsite, hout⟩ := exists_jumpSite hs (k := .continues) hp
    refine ⟨x, frames, hsite, ?_⟩
    rw [← Frame.findSome?_head fun f hf => (hsite.frames f hf).2]
    exact hleads hout
  · obtain ⟨x, frames, -, hout⟩ := exists_jumpSite hs (k := .returns) hp
    exact hleads hout
  · obtain ⟨x, frames, -, hout⟩ := exists_jumpSite hs (k := .throws) hp
    exact hleads hout

end Skeleton

/-! ### Analyses -/

section Marked

variable {start : Site} {P : List Node → Node → Prop} {G : Graph} {p : Nat}

lemma Graph.StandsFor.marked {k : PointKind} {x : Node} (h : G.StandsFor p k x) :
    G.marked.StandsFor p k x := by
  obtain ⟨q, hq, hrest⟩ := h
  refine ⟨{ q with reachable := (G.reach G.entry).contains p }, ?_, hrest⟩
  rw [marked_point?, hq, Option.map_some]

lemma Graph.marked_standsFor_iff {k : PointKind} {x : Node} :
    G.marked.StandsFor p k x ↔ G.StandsFor p k x := by
  refine ⟨fun h => ?_, .marked⟩
  obtain ⟨q', hq', hrest⟩ := h
  rw [marked_point?] at hq'
  obtain ⟨q, hq, rfl⟩ := Option.map_eq_some_iff.1 hq'
  exact ⟨q, hq, hrest⟩

lemma Graph.LeadsOnly.marked {targets : List Nat} {label : Option Label} {back : Bool}
    (h : G.LeadsOnly p targets label back) : G.marked.LeadsOnly p targets label back := by
  refine ⟨h.edges, fun v => ?_⟩
  rw [marked_successors]
  exact h.successors v

lemma JumpSite.marked {k : Jump} {x : Node} {frames : List Frame}
    (h : JumpSite start P G p k x frames) : JumpSite start P G.marked p k x frames := by
  refine ⟨h.met, h.point.marked, h.lexical, fun f hf => ?_⟩
  obtain ⟨hin, hloop⟩ := h.frames f hf
  exact ⟨⟨hin.exit.marked, fun x hx => (hin.head x hx).marked⟩, hloop⟩

lemma JumpsNearest.marked (h : JumpsNearest start P G) : JumpsNearest start P G.marked := by
  refine ⟨fun p hp => ?_, fun p hp => ?_, fun p hp => ?_, fun p hp => ?_⟩ <;>
    rw [marked_kind?] at hp
  · obtain ⟨x, frames, hsite, hleads⟩ := h.breaks p hp
    exact ⟨x, frames, hsite.marked, hleads.marked⟩
  · obtain ⟨x, frames, hsite, hleads⟩ := h.continues p hp
    exact ⟨x, frames, hsite.marked, hleads.marked⟩
  · exact (h.returns p hp).marked
  · exact (h.throws p hp).marked

end Marked

/-- Whichever way it is analyzed, a jump leads to the nearest target. -/
theorem analyses_jumpsNearest (o : Options) (n : Node) :
    (∃ r, analyze o n = .ok r ∧
      JumpsNearest (.start (skeleton (o.maxDepth + 1) n) n.span) (Around n) r.graph) ∧
    (∃ r, analyzeFunction o n = .ok r ∧
      JumpsNearest (.start (.ofBody (skeleton o.maxDepth) n) n.span) (AroundBody n) r.graph) := by
  constructor
  · obtain ⟨r, hr, hgraph, -⟩ := (wellFormed_draftProgram o n).report_eq o
    refine ⟨r, hr, ?_⟩
    rw [hgraph, draftProgram_graph]
    exact (Skeleton.jumpsNearest (around_skeleton _ n)).marked
  · obtain ⟨r, hr, hgraph, -⟩ := (wellFormed_draftFunction o n).report_eq o
    refine ⟨r, hr, ?_⟩
    rw [hgraph, draftFunction_graph]
    exact (Skeleton.jumpsNearest (around_ofBody _ n)).marked

end Arbor.Flow
