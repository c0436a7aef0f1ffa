import Arbor.Proofs.Flow.Liveness

/-!
# Outcomes of what is built

What is built for a skeleton does what the outcomes of the skeleton say. If control gets to the open
ends in front of it, then it gets to those behind it exactly if the skeleton has the normal outcome,
and it leaves for the target of a jump exactly if the skeleton has the jump among its outcomes. The
proof is by induction on skeletons, for both views of outcomes at once: the exact one, and the
hopeful one, which tells where there are open ends.
-/

namespace Arbor.Flow

open Relation Flow.Graph

/-- What was built from the open ends has the outcomes `out`. -/
structure HasOutcomes (hopeful : Bool) (G : Graph) (t : Targets) (ends : List OpenEnd) (g : Graph)
    (r : List OpenEnd × Graph) (out : Outcomes) : Prop where
  normal : Live hopeful G r.1 ↔ Live hopeful G ends ∧ .normal ∈ out
  jumps : ∀ k, ∀ x ∈ t.of g.exits k,
    Leaves hopeful G g r.2 x ↔ Live hopeful G ends ∧ .jump k ∈ out

variable {b : Bool} {G g g₁ g' : Graph} {t t' : Targets} {ends ends' : List OpenEnd}
  {S S' : List Nat} {r r' : List OpenEnd × Graph} {o o' : Outcomes}

namespace HasOutcomes

lemma pass (b : Bool) (G : Graph) (t : Targets) (ends : List OpenEnd) (g : Graph) :
    HasOutcomes b G t ends g (ends, g) {.normal} := by
  refine ⟨by simp, fun k x _ => ?_⟩
  have hnone : ¬ Leaves b G g g x := fun ⟨_, hu, _⟩ => Nat.not_lt.2 hu.1 hu.2
  simp [hnone]

/-- Nothing is built, and control does not come out. -/
lemma nothing (b : Bool) (G : Graph) (t : Targets) (ends : List OpenEnd) (g : Graph) :
    HasOutcomes b G t ends g ([], g) ∅ := by
  refine ⟨by simp, fun k x hx => ?_⟩
  rw [(pass b G t ends g).jumps k x hx]
  simp

/-- In the hopeful view, control comes out if there are open ends. -/
lemma hoped (h : HasOutcomes true G t ends g r o) (hbegun : Begun G t ends g) :
    r.1 ≠ [] ↔ .normal ∈ o := by
  rw [← live_true_iff (G := G), h.normal, live_true_iff]
  exact and_iff_right hbegun.nonempty

/-- Control does not come out if there are no open ends. -/
lemma not_normal (h : HasOutcomes b G t ends g r o) (hnone : r.1 = []) :
    ¬ (Live b G ends ∧ .normal ∈ o) := by
  rw [← h.normal, hnone, live_nil]
  exact id

lemma relabel {l : Label} (h : HasOutcomes b G t (ends.map (·.relabel l)) g r o) :
    HasOutcomes b G t ends g r o := by
  refine ⟨?_, fun k x hx => ?_⟩
  · rw [h.normal, live_relabel]
  · rw [h.jumps k x hx, live_relabel]

/-- A point takes a jump. -/
lemma leave (h : Begun G t ends g) {k : Jump} {n : Node}
    (hs : Sealed G g
      ((g.pointAfter k.kind n ends).addEdges (k.edges g.points.size (t.of g.exits k)))) :
    HasOutcomes b G t ends g
      ([], (g.pointAfter k.kind n ends).addEdges (k.edges g.points.size (t.of g.exits k)))
      {.jump k} := by
  have hs' : Sealed G g (g.pointAfter k.kind n ends) := by
    refine hs.sub (Nat.le_refl _) (by simp) (fun u v ha => (h.leave_arc k n).2 (.inl ha)) ?_
    intro u v hv ha
    rcases (h.leave_arc k n).1 ha with ha | ⟨-, hv'⟩
    · exact ha
    · exact absurd (h.aims.bound k v hv') (Nat.not_lt.2 hv.1)
  refine ⟨by simp, fun k' x hx => ?_⟩
  have hlt := h.aims.bound k' x hx
  rw [← h.lives_pointAfter hs', Finset.mem_singleton, Outcome.jump.injEq]
  constructor
  · rintro ⟨u, hu, ha, hl⟩
    rcases (h.leave_arc k n).1 ha with ha | ⟨rfl, hx'⟩
    · exact absurd ⟨u, ⟨hu.1, by simpa using hu.2⟩, ha, hl⟩ (h.not_leaves_pointAfter hlt)
    · exact ⟨hl, h.aims.eq_of_mem hx hx'⟩
  · rintro ⟨hl, rfl⟩
    exact ⟨g.points.size, ⟨Nat.le_refl _, by simp⟩, (h.leave_arc k' n).2 (.inr ⟨rfl, hx⟩), hl⟩

/-- What follows a new point behind the open ends. -/
lemma after (hbegun : Begun G t ends g) {k : PointKind} {n : Node}
    (hs : Sealed G g (g.pointAfter k n ends)) {e : OpenEnd} (he : e.point = g.points.size)
    (hg : Grown S t (g.pointAfter k n ends) r.2)
    (h : HasOutcomes b G t [e] (g.pointAfter k n ends) r o) : HasOutcomes b G t ends g r o := by
  have hl : Live b G [e] ↔ Live b G ends := by
    rw [live_singleton, he, hbegun.lives_pointAfter hs]
  refine ⟨by rw [h.normal, hl], fun k' x hx => ?_⟩
  have hlt := hbegun.aims.bound k' x hx
  rw [leaves_trans (grown_pointAfter k n ends t g) hg hlt,
    or_iff_right (hbegun.not_leaves_pointAfter hlt), ← hl]
  exact h.jumps k' x (by simpa using hx)

/-- One part and then another. -/
lemma andThen (hbegun : Begun G t ends g) (hg : Grown S t g r.2) (hg' : Grown S' t r.2 r'.2)
    (h : HasOutcomes b G t ends g r o) (h' : HasOutcomes b G t r.1 r.2 r' o') :
    HasOutcomes b G t ends g r' (o.andThen o') := by
  refine ⟨?_, fun k x hx => ?_⟩
  · rw [h'.normal, h.normal, Outcomes.normal_mem_andThen, and_assoc]
  · rw [leaves_trans hg hg' (hbegun.aims.bound k x hx), h.jumps k x hx,
      h'.jumps k x (hg.exits ▸ hx), h.normal, Outcomes.jump_mem_andThen, and_or_left, and_assoc]

/-- One part, and another that is built again from the same open ends. -/
lemma both (hbegun : Begun G t ends g) (hg : Grown S t g r.2) (hg' : Grown S' t r.2 r'.2)
    (hl : Live b G ends' ↔ Live b G ends) (h : HasOutcomes b G t ends g r o)
    (h' : HasOutcomes b G t ends' r.2 r' o') :
    HasOutcomes b G t ends g (r.1 ++ r'.1, r'.2) (o ∪ o') := by
  refine ⟨?_, fun k x hx => ?_⟩
  · rw [live_append, h.normal, h'.normal, hl, Finset.mem_union, and_or_left]
  · rw [leaves_trans hg hg' (hbegun.aims.bound k x hx), h.jumps k x hx,
      h'.jumps k x (hg.exits ▸ hx), hl, Finset.mem_union, and_or_left]

/-- Dead code behind a part that leaves no open ends. -/
lemma cut (hbegun : Begun G t ends g) (hg : Grown S t g r.2) (hnone : r.1 = []) (ns : List Node)
    (h : HasOutcomes b G t ends g r o) (o' : Outcomes) :
    HasOutcomes b G t ends g ([], r.2.addDead ns) (o.andThen o') := by
  have hnormal := h.not_normal hnone
  refine ⟨?_, fun k x hx => ?_⟩
  · rw [live_nil, Outcomes.normal_mem_andThen, ← and_assoc]
    tauto
  · have hdead : ¬ Leaves b G r.2 (r.2.addDead ns) x :=
      not_leaves (hbegun.ready.range.grown hg) fun _ ha => addDead_arc.1 ha
    rw [leaves_trans hg ((Grown.refl [] t r.2).addDead ns) (hbegun.aims.bound k x hx),
      or_iff_left hdead, h.jumps k x hx, Outcomes.jump_mem_andThen]
    tauto

/-- The last part is built again from the open ends in front if there are none behind. -/
lemma lastly_nil (hbegun : Begun G t ends g) (hg : Grown S t g r.2) (hg' : Grown S' t r.2 r'.2)
    (hnone : r.1 = []) (hl : Live b G ends' ↔ Live b G ends) (h : HasOutcomes b G t ends g r o)
    (h' : HasOutcomes b G t ends' r.2 r' o') :
    HasOutcomes b G t ends g ([], r'.2) (o ∪ o'.erase .normal) := by
  refine ⟨?_, fun k x hx => ?_⟩
  · simpa using h.not_normal hnone
  · rw [(both hbegun hg hg' hl h h').jumps k x hx]
    simp

lemma join (h : HasOutcomes b G t ends g r o) (hbegun : Begun G t ends g) (hg : Grown S t g r.2)
    (hr : r.1 ≠ [] → Begun G t r.1 r.2) (n : Node) (hs : Sealed G g (r.2.join n r.1).2) :
    HasOutcomes b G t ends g (r.2.join n r.1) o := by
  obtain ⟨_ | ⟨first, rest⟩, g'⟩ := r
  · exact h
  · have hr := hr (by simp)
    simp only [Graph.join] at hs ⊢
    split_ifs at hs ⊢ with hall
    · refine ⟨?_, h.jumps⟩
      rw [← h.normal, live_singleton]
      refine ⟨fun hl => ⟨first, by simp, hl⟩, ?_⟩
      rintro ⟨e, he, hl⟩
      have hsame : e.point = first.point := by simpa using List.all_eq_true.1 hall e he
      rwa [← hsame]
    · have hs' : Sealed G g' (g'.pointAfter .merge n (first :: rest)) := hs.right hg.size_le
      have hg' := grown_pointAfter .merge n (first :: rest) t g'
      refine ⟨?_, fun k x hx => ?_⟩
      · rw [live_singleton, ← h.normal]
        exact hr.lives_pointAfter hs'
      · have hlt := hbegun.aims.bound k x hx
        rw [leaves_trans hg hg' hlt, h.jumps k x hx, or_iff_left]
        exact hr.not_leaves_pointAfter (Nat.lt_of_lt_of_le hlt hg.size_le)

end HasOutcomes

/-! ### Loops -/

lemma Graph.Faithful.closeLoop_arc (h : g.Faithful) {head u v : Nat}
    (hends : ∀ e ∈ ends, e.point < g.points.size) (hhead : head + 1 < g.points.size) :
    (g.closeLoop head ends).Arc u v ↔
      g.Arc u v ∨ u ∈ OpenEnd.points ends ∧ v = head ∨ u = head ∧ v = head + 1 := by
  have hhead' := Nat.lt_of_succ_lt hhead
  rw [closeLoop, (h.addEdges _).addEdge_arc (by simpa using hhead') (by simpa using hhead),
    h.link_arc (·.backTo head) (fun _ => ⟨rfl, rfl⟩) hends hhead', or_assoc, @eq_comm _ head,
    @eq_comm _ (head + 1)]

/-- The body of a loop has been built from `g₁` on, where the points of the loop are. -/
structure LoopBody (G : Graph) (t : Targets) (ends : List OpenEnd) (g g₁ : Graph)
    (r : List OpenEnd × Graph) : Prop where
  begun : Begun G t ends g
  size : g₁.points.size = g.points.size + 2
  arcs : ∀ u v, g₁.Arc u v → g.Arc u v ∨ v = g.points.size
  grown : Grown (OpenEnd.points ends) t g g₁
  body : ∃ S, Grown S (.inLoop g.points.size) g₁ r.2
  faithful : r.2.Faithful
  flows : ∀ e ∈ r.1, e.point < r.2.points.size

namespace LoopBody

variable {x u v : Nat}

lemma of_build (h : Begun G t ends g) (hg : Grown (OpenEnd.points ends) t g g₁)
    (hsize : g₁.points.size = g.points.size + 2)
    (harcs : ∀ u v, g₁.Arc u v → g.Arc u v ∨ v = g.points.size)
    (hin : Begun G (.inLoop g.points.size) ends' g₁) (body : Skeleton) :
    LoopBody G t ends g g₁ (body.build (.inLoop g.points.size) ends' g₁) := by
  have hbody := body.continues hin.ready
  exact ⟨h, hsize, harcs, hg, ⟨_, (body.threaded _ _ _).grown⟩,
    (hbody.built.keeps WellFormed.step hin.wellFormed).successors,
    fun e he => (hbody.flows e he).lt_size⟩

lemma closeLoop_arc (h : LoopBody G t ends g g₁ r) :
    (r.2.closeLoop g.points.size r.1).Arc u v ↔ r.2.Arc u v ∨
      u ∈ OpenEnd.points r.1 ∧ v = g.points.size ∨ u = g.points.size ∧ v = g.points.size + 1 := by
  obtain ⟨S, hbody⟩ := h.body
  have := hbody.size_le
  have := h.size
  exact h.faithful.closeLoop_arc h.flows (by omega)

/-- Both points of the loop are new. -/
lemma isNew (h : LoopBody G t ends g g₁ r) (hle : g.points.size ≤ v)
    (hlt : v ≤ g.points.size + 1) : g.IsNew (r.2.closeLoop g.points.size r.1) v := by
  obtain ⟨S, hbody⟩ := h.body
  have hsize := hbody.size_le
  rw [h.size, ← closeLoop_size r.1 g.points.size (g := r.2)] at hsize
  exact ⟨hle, by omega⟩

/-- The jumps out of a loop are those of its body that leave the function. -/
lemma jumps (h : LoopBody G t ends g g₁ r)
    (hout : HasOutcomes b G (.inLoop g.points.size) ends' g₁ r o) {k : Jump}
    (hx : x ∈ t.of g.exits k) :
    Leaves b G g (r.2.closeLoop g.points.size r.1) x ↔
      Live b G ends' ∧ .jump k ∈ o ∧ (k = .returns ∨ k = .throws) := by
  obtain ⟨S, hbody⟩ := h.body
  have hrange := h.begun.ready.range
  have hlt := h.begun.aims.bound k x hx
  have hinside : Leaves b G g (r.2.closeLoop g.points.size r.1) x ↔ Leaves b G g₁ r.2 x := by
    refine leaves_inside hrange h.grown hbody hlt (fun u ha => ?_) (closeLoop_size _ _) ?_
    · exact (h.arcs u x ha).resolve_right (Nat.ne_of_lt hlt)
    · intro u
      rw [h.closeLoop_arc]
      refine or_iff_left ?_
      rintro (⟨-, hx⟩ | ⟨-, hx⟩) <;> omega
  have hother (hk : k ≠ .returns) : ¬ Leaves b G g₁ r.2 x := by
    have hlt' := Nat.lt_of_lt_of_le hlt h.grown.size_le
    refine hbody.not_leaves (hrange.grown h.grown) hlt' fun k' hk' => hk ?_
    obtain rfl := Targets.eq_returns_of_inLoop hk' hlt
    exact h.begun.aims.eq_returns hx (h.grown.exits ▸ hk')
  rw [hinside]
  cases k with
  | returns =>
    rw [hout.jumps .returns x (h.grown.exits ▸ hx)]
    simp
  | throws => simp [Targets.of] at hx
  | breaks => exact iff_of_false (hother (by decide)) (by simp)
  | continues => exact iff_of_false (hother (by decide)) (by simp)

section Closed

variable (h : LoopBody G t ends g g₁ r) (hs : Sealed G g (r.2.closeLoop g.points.size r.1))
include h hs

/-- Closing the loop adds no arcs into its body. -/
lemma sealed : Sealed G g₁ r.2 := by
  have hsize := h.size
  refine hs.sub h.grown.size_le (by simp) (fun u v ha => ?_) fun u v hv ha => ?_
  · exact h.closeLoop_arc.2 (.inl ha)
  · have := hv.1
    rcases h.closeLoop_arc.1 ha with ha | ⟨-, hv⟩ | ⟨-, hv⟩
    · exact ha
    · omega
    · omega

lemma arc_head_exit : G.Arc g.points.size (g.points.size + 1) :=
  hs.arcs _ _ (h.closeLoop_arc.2 (.inr (.inr ⟨rfl, rfl⟩)))

/-- Control gets to the head of a loop by arcs from its body and from the ends of its rounds. -/
lemma exists_arc_head :
    (∃ u, G.Arc u g.points.size ∧ Lives b G u) ↔
      (∃ u, r.2.Arc u g.points.size ∧ Lives b G u) ∨ Live b G r.1 := by
  have harc (u : Nat) :
      G.Arc u g.points.size ↔ r.2.Arc u g.points.size ∨ u ∈ OpenEnd.points r.1 := by
    rw [hs.arc_iff (h.isNew (Nat.le_refl _) (by omega)), h.closeLoop_arc]
    simp
  simp only [harc, or_and_right, exists_or, live_iff_points]

/-- Nothing leads behind a loop but its body and its head. -/
lemma arc_exit_iff :
    G.Arc u (g.points.size + 1) ↔ r.2.Arc u (g.points.size + 1) ∨ u = g.points.size := by
  rw [hs.arc_iff (h.isNew (by omega) (Nat.le_refl _)), h.closeLoop_arc]
  simp

/-- Control gets behind a loop by arcs from its body and from its head. -/
lemma exists_arc_exit :
    (∃ u, G.Arc u (g.points.size + 1) ∧ Lives b G u) ↔
      (∃ u, r.2.Arc u (g.points.size + 1) ∧ Lives b G u) ∨ Lives b G g.points.size := by
  simp only [h.arc_exit_iff hs, or_and_right, exists_or, exists_eq_left]

variable (hg : Grown (OpenEnd.points ends) t g (r.2.closeLoop g.points.size r.1)) {e : OpenEnd}
  (he : e.point = g.points.size)
include hg

/-- Control gets to the two points of a loop only from the open ends in front of it. -/
lemma live_of_lives (hle : g.points.size ≤ v) (hlt : v ≤ g.points.size + 1) (hl : Lives b G v) :
    Live b G ends :=
  Flow.live_of_lives hg hs h.begun.entry (fun _ _ => h.begun.target_lt) h.begun.nonempty
    (h.isNew hle hlt) hl

include he

/-- A loop that decides before each round. -/
lemma hasOutcomes_loop (hin : ∀ u ∈ OpenEnd.points ends, g₁.Arc u g.points.size)
    (hout : HasOutcomes b G (.inLoop g.points.size) [e] g₁ r o) :
    HasOutcomes b G t ends g ([.plain (g.points.size + 1)], r.2.closeLoop g.points.size r.1)
      o.loop := by
  obtain ⟨S, hbody⟩ := h.body
  have hhead : Lives b G g.points.size ↔ Live b G ends := by
    refine ⟨h.live_of_lives hs hg (Nat.le_refl _) (by omega), fun hl => ?_⟩
    obtain ⟨u, hu, hl⟩ := live_iff_points.1 hl
    exact hl.arc (hs.arcs _ _ (h.closeLoop_arc.2 (.inl (hbody.arc (hin u hu)))))
  refine ⟨?_, fun k x hx => ?_⟩
  · rw [live_singleton, and_iff_left Outcomes.normal_mem_loop]
    refine ⟨h.live_of_lives hs hg (Nat.le_succ _) (Nat.le_refl _), fun hl => ?_⟩
    exact (hhead.2 hl).arc (h.arc_head_exit hs)
  · rw [h.jumps hout hx, live_singleton, he, hhead, Outcomes.jump_mem_loop]

/-- Control gets to the body of a loop that decides after each round from the open ends in front of
the loop, if at all. -/
lemma live_body : Live b G (ends ++ [e]) ↔ Live b G ends := by
  rw [live_append, live_singleton, he, or_iff_left_iff_imp]
  exact h.live_of_lives hs hg (Nat.le_refl _) (by omega)

variable (hnone : ∀ u v, g.points.size ≤ v → ¬ g₁.Arc u v)
  (hout : HasOutcomes b G (.inLoop g.points.size) (ends ++ [e]) g₁ r o)
include hnone hout

/-- Control gets behind such a loop from its head or by a break. -/
lemma lives_exit : Lives b G (g.points.size + 1) ↔
    Live b G ends ∧ .jump .breaks ∈ o ∨ Lives b G g.points.size := by
  obtain ⟨S, hbody⟩ := h.body
  have hsize := h.size
  have hentry := h.begun.entry
  rw [lives_iff (by omega) fun _ => ⟨_, h.arc_head_exit hs⟩, h.exists_arc_exit hs,
    ← leaves_iff hbody (by omega) fun u => hnone u _ (by omega),
    hout.jumps .breaks _ (by simp [Targets.of]), h.live_body hs hg he]

/-- Control gets to the head of such a loop at the end of a round or by a continue. -/
lemma lives_head (hb : b = false) : Lives b G g.points.size ↔
    Live b G ends ∧ .jump .continues ∈ o ∨ Live b G ends ∧ .normal ∈ o := by
  obtain ⟨S, hbody⟩ := h.body
  have hsize := h.size
  rw [lives_iff (Nat.ne_of_gt h.begun.entry) (by simp [hb]), h.exists_arc_head hs,
    ← leaves_iff hbody (by omega) fun u => hnone u _ (Nat.le_refl _),
    hout.jumps .continues _ (by simp [Targets.of]), hout.normal, h.live_body hs hg he]

/-- A loop that decides after each round. -/
lemma hasOutcomes_doWhile :
    HasOutcomes b G t ends g ([.plain (g.points.size + 1)], r.2.closeLoop g.points.size r.1)
      (o.doWhile b) := by
  refine ⟨?_, fun k x hx => ?_⟩
  · rw [live_singleton, Outcomes.normal_mem_doWhile]
    refine (h.lives_exit hs hg he hnone hout).trans ?_
    -- In the hopeful view control gets to the head of the loop in any case.
    cases b with
    | true =>
      have hl : Live true G ends := live_true_iff.2 h.begun.nonempty
      simp [Lives, hl]
    | false =>
      rw [h.lives_head hs hg he hnone hout rfl, ← and_or_left, ← and_or_left]
      simp only [Bool.false_eq_true, false_or]
      rw [or_comm, or_assoc, or_left_comm]
  · rw [h.jumps hout hx, h.live_body hs hg he, Outcomes.jump_mem_doWhile]

end Closed

end LoopBody

namespace Begun

/-- The body of a loop that decides before each round. -/
lemma loopBody (h : Begun G t ends g) (n : Node) (body : Skeleton) :
    let g₁ := (g.loopPoints n).addEdges (ends.map (·.edgeTo g.points.size))
    Begun G (.inLoop g.points.size) [.labelled g.points.size .whenTrue] g₁ ∧
      LoopBody G t ends g g₁
        (body.build (.inLoop g.points.size) [.labelled g.points.size .whenTrue] g₁) := by
  have hhead := grown_loopHead n ends t g
  obtain ⟨hb, hr⟩ := h.ready.loopHead n
  have hin := h.loop hb hhead (by simp) hr (by simp)
  exact ⟨hin, .of_build h hhead (by simp)
    (fun u v ha => ((h.loopHead_arc n).1 ha).imp_right (·.2)) hin body⟩

/-- A loop without a body. -/
lemma bareLoop (h : Begun G t ends g) (n : Node) :
    LoopBody G t ends g ((g.loopPoints n).addEdges (ends.map (·.edgeTo g.points.size)))
      ([], (g.loopPoints n).addEdges (ends.map (·.edgeTo g.points.size))) :=
  ⟨h, by simp, fun u v ha => ((h.loopHead_arc n).1 ha).imp_right (·.2), grown_loopHead n ends t g,
    ⟨[], .refl _ _ _⟩, ((h.faithful.addPoint _ _ _).addPoint _ _ _).addEdges _, by simp⟩

/-- The body of a loop that decides after each round. -/
lemma doWhileBody (h : Begun G t ends g) (n : Node) (body : Skeleton) :
    Begun G (.inLoop g.points.size) (ends ++ [⟨g.points.size, some .whenTrue, true⟩])
        (g.loopPoints n) ∧
      LoopBody G t ends g (g.loopPoints n) (body.build (.inLoop g.points.size)
        (ends ++ [⟨g.points.size, some .whenTrue, true⟩]) (g.loopPoints n)) := by
  have hpoints := (Grown.refl (OpenEnd.points ends) t g).loopPoints n
  have hr := h.ready.loopPoints n (e := ⟨g.points.size, some .whenTrue, true⟩) rfl
  have hin := h.loop (Built.loopPoints g n) hpoints (by simp) hr (by simp)
  exact ⟨hin, .of_build h hpoints (by simp) (fun u v ha => .inl ha) hin body⟩

end Begun

/-! ### Switches -/

/-- What was built for cases from the branch and from the open ends of the case before has the
outcomes `outs`, those of the cases in their order. -/
structure CasesHaveOutcomes (hopeful : Bool) (G : Graph) (t : Targets) (branch : Nat)
    (ends : List OpenEnd) (g : Graph) (r : List OpenEnd × Graph) (outs : List Outcomes) : Prop where
  normal : Live hopeful G r.1 ↔ outs = [] ∧ Live hopeful G ends ∨
    Lives hopeful G branch ∧ ∃ o ∈ outs.getLast?, .normal ∈ o
  jumps : ∀ k, ∀ x ∈ t.of g.exits k,
    Leaves hopeful G g r.2 x ↔ Lives hopeful G branch ∧ .jump k ∈ Outcomes.union outs

namespace CasesHaveOutcomes

variable {branch : Nat} {outs : List Outcomes}

lemma nil (b : Bool) (G : Graph) (t : Targets) (branch : Nat) (ends : List OpenEnd) (g : Graph) :
    CasesHaveOutcomes b G t branch ends g (ends, g) [] := by
  refine ⟨by simp, fun k x hx => ?_⟩
  rw [(HasOutcomes.pass b G t ends g).jumps k x hx]
  simp

/-- A case and those behind it. -/
lemma cons (haims : Aims g t) (hg : Grown S t g r.2) (hg' : Grown S' t r.2 r'.2)
    (hin : Live b G ends' ↔ Lives b G branch) (h : HasOutcomes b G t ends' g r o)
    (h' : CasesHaveOutcomes b G t branch r.1 r.2 r' outs) :
    CasesHaveOutcomes b G t branch ends g r' (o :: outs) := by
  refine ⟨?_, fun k x hx => ?_⟩
  · rw [h'.normal, h.normal, hin]
    cases outs with
    | nil => simp
    | cons o' outs => simp [List.getLast?_cons_cons]
  · rw [leaves_trans hg hg' (haims.bound k x hx), h.jumps k x hx, h'.jumps k x (hg.exits ▸ hx),
      hin, Outcomes.union_cons, Finset.mem_union, and_or_left]

end CasesHaveOutcomes

namespace Begun

variable {branch : Nat}

/-- A case is built behind the one before it. -/
lemma case (h : Begun G t (.plain branch :: ends) g) (l : Label) :
    Begun G t (ends ++ [.labelled branch l]) g :=
  h.go .refl (.refl [] t g) (h.ready.case l) (by simp)

/-- The cases behind a case are built. -/
lemma afterCase (h : Begun G t (.plain branch :: ends) g) (l : Label) (s : Skeleton) :
    Begun G t (.plain branch :: (s.build t (ends ++ [.labelled branch l]) g).1)
      (s.build t (ends ++ [.labelled branch l]) g).2 := by
  have hcase := (h.case l).ready
  have hs := s.continues hcase
  have ht := s.threaded t (ends ++ [.labelled branch l]) g
  have hr := hcase.keep ht hs.flows (k := [.labelled branch l]) (by simp)
  refine h.go hs.built ht.grown (hr.reuse fun e he => ?_) (by simp)
  rcases List.mem_cons.1 he with rfl | he
  · exact ⟨.labelled branch l, by simp, rfl, rfl⟩
  · exact ⟨e, by simp [he], rfl, rfl⟩

end Begun

lemma Graph.Faithful.closeSwitch_arc (h : g.Faithful) {branch merge u v : Nat} (d : Bool)
    (hends : ∀ e ∈ ends, e.point < g.points.size) (hb : branch < g.points.size)
    (hm : merge < g.points.size) :
    (g.closeSwitch branch merge d ends).Arc u v ↔
      g.Arc u v ∨ (u ∈ OpenEnd.points ends ∨ d = false ∧ u = branch) ∧ v = merge := by
  rw [closeSwitch, (h.addEdges _).addEdges_arc, h.link_arc (·.edgeTo merge) (fun _ => ⟨rfl, rfl⟩)
    hends hm, or_assoc, or_and_right, @eq_comm _ u branch, @eq_comm _ v merge]
  · cases d <;> simp
  · cases d <;> simp [hb, hm]

/-- The points of a switch in front of its cases. -/
abbrev Graph.switchPoints (g : Graph) (n : Node) (ends : List OpenEnd) : Graph :=
  (g.pointAfter .branch n ends).addPoint .merge n.span (some n)

lemma Graph.switchPoints_size (n : Node) (ends : List OpenEnd) :
    (g.switchPoints n ends).points.size = g.points.size + 2 := by
  rw [addPoint_size, pointAfter_size]

lemma Graph.grown_switchPoints (n : Node) (ends : List OpenEnd) (t : Targets) (g : Graph) :
    Grown (OpenEnd.points ends) t g (g.switchPoints n ends) :=
  (grown_pointAfter .branch n ends t g).addPoint _ _ _

/-- The cases of a switch are built once the points of the switch are there. -/
lemma Begun.switch (h : Begun G t ends g) (n : Node) :
    Begun G (t.inSwitch (g.points.size + 1)) [.plain g.points.size] (g.switchPoints n ends) := by
  have hafter := h.pointAfter (k := .branch) (by decide) rfl n (e := .plain g.points.size) rfl rfl
  have hg := grown_switchPoints n ends t g
  have hr := hafter.ready.merge n
  rw [pointAfter_size] at hr
  refine ⟨hr, ?_, h.aims.switch hg (by omega) (by simp), Nat.lt_of_lt_of_le h.entry hg.size_le,
    by simp⟩
  exact hafter.wellFormed.step (.point _ _ (by decide) (by decide))

/-- The cases of a switch have been built. -/
structure SwitchBody (G : Graph) (t : Targets) (ends : List OpenEnd) (g : Graph) (n : Node)
    (r : List OpenEnd × Graph) : Prop where
  begun : Begun G t ends g
  body : ∃ S, Grown S (t.inSwitch (g.points.size + 1)) (g.switchPoints n ends) r.2
  faithful : r.2.Faithful
  flows : ∀ e ∈ r.1, e.point < r.2.points.size

namespace SwitchBody

variable {n : Node} {d : Bool} {u v x : Nat}

lemma of_build (h : Begun G t ends g) (n : Node) (cases : Cases) :
    SwitchBody G t ends g n (cases.build g.points.size (t.inSwitch (g.points.size + 1)) []
      (g.switchPoints n ends)) := by
  have hin := h.switch n
  have hcases := cases.continues hin.ready
  exact ⟨h, ⟨_, (cases.threaded _ _ _ _).grown⟩,
    (hcases.built.keeps WellFormed.step hin.wellFormed).successors,
    fun e he => (hcases.flows e he).lt_size⟩

lemma size_le (h : SwitchBody G t ends g n r) : g.points.size + 2 ≤ r.2.points.size := by
  obtain ⟨S, hbody⟩ := h.body
  exact switchPoints_size n ends ▸ hbody.size_le

lemma closeSwitch_arc (h : SwitchBody G t ends g n r) :
    (r.2.closeSwitch g.points.size (g.points.size + 1) d r.1).Arc u v ↔ r.2.Arc u v ∨
      (u ∈ OpenEnd.points r.1 ∨ d = false ∧ u = g.points.size) ∧ v = g.points.size + 1 := by
  have := h.size_le
  exact h.faithful.closeSwitch_arc d h.flows (by omega) (by omega)

lemma switchPoints_arc (h : SwitchBody G t ends g n r) :
    (g.switchPoints n ends).Arc u v ↔ g.Arc u v ∨ u ∈ OpenEnd.points ends ∧ v = g.points.size :=
  h.begun.faithful.pointAfter_arc h.begun.ends_lt .branch n

/-- Nothing leads behind a switch before its cases are built. -/
lemma not_arc_merge (h : SwitchBody G t ends g n r) :
    ¬ (g.switchPoints n ends).Arc u (g.points.size + 1) := by
  intro ha
  rcases h.switchPoints_arc.1 ha with ha | ⟨-, heq⟩
  · have := h.begun.target_lt ha
    omega
  · omega

section Closed

variable (h : SwitchBody G t ends g n r)
  (hs : Sealed G g (r.2.closeSwitch g.points.size (g.points.size + 1) d r.1))
include h hs

/-- Closing the switch adds no arcs into its cases. -/
lemma sealed_cases : Sealed G (g.switchPoints n ends) r.2 := by
  refine hs.sub (grown_switchPoints n ends t g).size_le (by simp)
    (fun u v ha => h.closeSwitch_arc.2 (.inl ha)) fun u v hv ha => ?_
  have hle := switchPoints_size n ends ▸ hv.1
  rcases h.closeSwitch_arc.1 ha with ha | ⟨-, heq⟩
  · exact ha
  · omega

/-- Nothing leads to the branch but the open ends in front of the switch. -/
lemma sealed_branch : Sealed G g (g.pointAfter .branch n ends) := by
  obtain ⟨S, hbody⟩ := h.body
  have hsize := h.size_le
  refine hs.sub (Nat.le_refl _) (by rw [pointAfter_size, closeSwitch_size]; omega)
    (fun u v ha => h.closeSwitch_arc.2 (.inl (hbody.arc ha))) fun u v hv ha => ?_
  have hle := hv.1
  have hlt : v < g.points.size + 1 := by simpa using hv.2
  rcases h.closeSwitch_arc.1 ha with ha | ⟨-, heq⟩
  · refine hbody.arc_into (by rw [switchPoints_size]; omega) (fun k hk => ?_) ha
    have hk := (Targets.mem_of_inSwitch hk (by omega)).1
    exact Nat.not_lt.2 hle (h.begun.aims.bound k v (by simpa using hk))
  · omega

lemma lives_branch : Lives b G g.points.size ↔ Live b G ends :=
  h.begun.lives_pointAfter (h.sealed_branch hs)

/-- Nothing leads behind a switch but its cases, and its branch if no case is for all other
values. -/
lemma arc_merge_iff : G.Arc u (g.points.size + 1) ↔ r.2.Arc u (g.points.size + 1) ∨
    u ∈ OpenEnd.points r.1 ∨ d = false ∧ u = g.points.size := by
  have hsize := h.size_le
  rw [hs.arc_iff ⟨by omega, by rw [closeSwitch_size]; omega⟩, h.closeSwitch_arc]
  simp

/-- The points from which the merge is reached are known as soon as the switch is closed. -/
lemma mem_predecessors_merge
    (hwf : (r.2.closeSwitch g.points.size (g.points.size + 1) d r.1).WellFormed) :
    u ∈ (r.2.closeSwitch g.points.size (g.points.size + 1) d r.1).predecessors
      (g.points.size + 1) ↔ G.Arc u (g.points.size + 1) := by
  rw [hwf.predecessors, h.closeSwitch_arc, h.arc_merge_iff hs]
  simp

variable {outs : List Outcomes}
  (hout : CasesHaveOutcomes b G (t.inSwitch (g.points.size + 1)) g.points.size []
    (g.switchPoints n ends) r outs)
include hout

/-- Control gets behind a switch from its last case, by a break, or if no case applies. -/
lemma exists_arc_merge :
    (∃ u, G.Arc u (g.points.size + 1) ∧ Lives b G u) ↔
      Live b G ends ∧ .normal ∈ Outcomes.switch d outs := by
  obtain ⟨S, hbody⟩ := h.body
  have hbreak : (∃ u, r.2.Arc u (g.points.size + 1) ∧ Lives b G u) ↔
      Live b G ends ∧ .jump .breaks ∈ Outcomes.union outs := by
    rw [← leaves_iff hbody (by simp) fun _ => h.not_arc_merge,
      hout.jumps .breaks _ (by simp [Targets.of]), h.lives_branch hs]
  have hlast : Live b G r.1 ↔ Live b G ends ∧ ∃ o ∈ outs.getLast?, .normal ∈ o := by
    rw [hout.normal, h.lives_branch hs]
    simp
  have hdefault : (∃ u, (d = false ∧ u = g.points.size) ∧ Lives b G u) ↔
      Live b G ends ∧ d = false := by
    rw [← h.lives_branch hs]
    simp [and_comm]
  simp only [h.arc_merge_iff hs, or_and_right, exists_or]
  rw [hbreak, ← live_iff_points, hlast, hdefault, Outcomes.normal_mem_switch, ← and_or_left,
    ← and_or_left]

/-- The jumps out of a switch are those of its cases but its breaks. -/
lemma jumps {k : Jump} (hx : x ∈ t.of g.exits k) :
    Leaves b G g (r.2.closeSwitch g.points.size (g.points.size + 1) d r.1) x ↔
      Live b G ends ∧ .jump k ∈ Outcomes.switch d outs := by
  obtain ⟨S, hbody⟩ := h.body
  have hrange := h.begun.ready.range
  have hlt := h.begun.aims.bound k x hx
  have hgrown := grown_switchPoints n ends t g
  have hinside : Leaves b G g (r.2.closeSwitch g.points.size (g.points.size + 1) d r.1) x ↔
      Leaves b G (g.switchPoints n ends) r.2 x := by
    refine leaves_inside hrange hgrown hbody hlt (fun u ha => ?_) (closeSwitch_size _ _ _ _) ?_
    · exact (h.switchPoints_arc.1 ha).resolve_right fun hx => Nat.ne_of_lt hlt hx.2
    · intro u
      rw [h.closeSwitch_arc]
      refine or_iff_left fun hx => ?_
      omega
  rw [hinside, Outcomes.jump_mem_switch]
  cases k with
  | returns =>
    rw [hout.jumps .returns x (by simpa [Targets.of] using hx), h.lives_branch hs]
    simp
  | throws => simp [Targets.of] at hx
  | continues =>
    rw [hout.jumps .continues x hx, h.lives_branch hs]
    simp
  | breaks =>
    have hlt' := Nat.lt_of_lt_of_le hlt hgrown.size_le
    refine iff_of_false (hbody.not_leaves (hrange.grown hgrown) hlt' fun k' hk' => ?_) (by simp)
    obtain ⟨hk', hne⟩ := Targets.mem_of_inSwitch hk' (by omega)
    exact hne (h.begun.aims.eq_of_mem (by simpa using hk') hx)

lemma hasOutcomes (hwf : (r.2.closeSwitch g.points.size (g.points.size + 1) d r.1).WellFormed) :
    HasOutcomes b G t ends g
      ((r.2.closeSwitch g.points.size (g.points.size + 1) d r.1).endAt (g.points.size + 1),
        r.2.closeSwitch g.points.size (g.points.size + 1) d r.1) (Outcomes.switch d outs) := by
  refine ⟨?_, fun k x hx => h.jumps hs hout hx⟩
  rw [← h.exists_arc_merge hs hout]
  have hentry := h.begun.entry
  unfold endAt
  split_ifs with hempty
  · rw [List.isEmpty_iff] at hempty
    simp [← h.mem_predecessors_merge hs hwf, hempty]
  · obtain ⟨u, hu⟩ := List.exists_mem_of_ne_nil _ (by simpa using hempty)
    have hin : G.Arc u (g.points.size + 1) := (h.mem_predecessors_merge hs hwf).1 hu
    rw [live_singleton]
    exact lives_iff (Nat.ne_of_gt (Nat.lt_succ_of_lt hentry)) fun _ => ⟨u, hin⟩

end Closed

end SwitchBody

/-! ### Skeletons -/

mutual

/-- What is built for a skeleton has the outcomes of the skeleton. -/
theorem Skeleton.hasOutcomes (s : Skeleton) (b : Bool) {G : Graph} {t : Targets}
    {ends : List OpenEnd} {g : Graph} (h : Begun G t ends g)
    (hs : Sealed G g (s.build t ends g).2) :
    HasOutcomes b G t ends g (s.build t ends g) (s.outcomes b) := by
  match s with
  | .pass =>
    rw [Skeleton.build, Skeleton.outcomes]
    exact .pass b G t ends g
  | .plain n =>
    rw [Skeleton.build] at hs ⊢
    rw [Skeleton.outcomes]
    exact .after h hs rfl (.refl [] t _) (.pass b G t _ _)
  | .leave k n =>
    rw [Skeleton.build] at hs ⊢
    rw [Skeleton.outcomes]
    exact .leave h hs
  | .andThen first dead rest =>
    rw [Skeleton.build] at hs ⊢
    rw [Skeleton.outcomes]
    have hg := (first.threaded t ends g).grown
    split_ifs at hs ⊢ with hempty
    · have hfirst := first.hasOutcomes b h (h.sealed_left hg ((Grown.refl [] t _).addDead dead) hs)
      exact hfirst.cut h hg (List.isEmpty_iff.1 hempty) dead _
    · have hg' := (rest.threaded t (first.build t ends g).1 (first.build t ends g).2).grown
      have hfirst := first.hasOutcomes b h (h.sealed_left hg hg' hs)
      have hrest := rest.hasOutcomes b (h.next first (by simpa using hempty)) (hs.right hg.size_le)
      exact .andThen h hg hg' hfirst hrest
  | .branch n yes no =>
    rw [Skeleton.build] at hs ⊢
    rw [Skeleton.outcomes]
    have hbegun : Begun G t [.labelled g.points.size .whenTrue] (g.pointAfter .branch n ends) :=
      h.pointAfter (by decide) rfl n rfl rfl
    have hg := grown_pointAfter .branch n ends t g
    have hyes := yes.threaded t [.labelled g.points.size .whenTrue] (g.pointAfter .branch n ends)
    have hno := no.threaded t [.labelled g.points.size .whenFalse]
      (yes.build t [.labelled g.points.size .whenTrue] (g.pointAfter .branch n ends)).2
    have hs' := hs.right hg.size_le
    have hout := yes.hasOutcomes b hbegun (hbegun.sealed_left hyes.grown hno.grown hs')
    have hout' := no.hasOutcomes b (hbegun.again yes .whenFalse) (hs'.right hyes.grown.size_le)
    have hboth := (hyes.again hno).grown
    exact .after h (h.sealed_left hg hboth hs) rfl hboth
      (.both hbegun hyes.grown hno.grown (live_relabel _) hout hout')
  | .attempt body handler =>
    rw [Skeleton.build] at hs ⊢
    rw [Skeleton.outcomes]
    have hg := (body.threaded t ends g).grown
    have hg' := (handler.threaded t (ends.map (·.relabel .onCatch)) (body.build t ends g).2).grown
    have hbody := body.hasOutcomes b h (h.sealed_left hg hg' hs)
    have hhandler := handler.hasOutcomes b (h.again body .onCatch) (hs.right hg.size_le)
    exact .both h hg hg' (live_relabel _) hbody hhandler
  | .joined n s =>
    rw [Skeleton.build] at hs ⊢
    rw [Skeleton.outcomes]
    have hg := (s.threaded t ends g).grown
    have hg' := ((Threaded.pass (s.build t ends g).1 t (s.build t ends g).2).join n).grown
    exact (s.hasOutcomes b h (h.sealed_left hg hg' hs)).join h hg (h.next s) n hs
  | .bareLoop n =>
    have hg := ((Skeleton.bareLoop n).threaded t ends g).grown
    rw [Skeleton.build] at hs hg ⊢
    rw [Skeleton.outcomes]
    exact (h.bareLoop n).hasOutcomes_loop hs hg (e := .plain g.points.size) rfl
      (fun u hu => (h.loopHead_arc n).2 (.inr ⟨hu, rfl⟩)) (.nothing b G _ _ _)
  | .loop n body =>
    have hg := ((Skeleton.loop n body).threaded t ends g).grown
    rw [Skeleton.build] at hs hg ⊢
    rw [Skeleton.outcomes]
    obtain ⟨hin, hbody⟩ := h.loopBody n body
    exact hbody.hasOutcomes_loop hs hg rfl (fun u hu => (h.loopHead_arc n).2 (.inr ⟨hu, rfl⟩))
      (body.hasOutcomes b hin (hbody.sealed hs))
  | .doWhile n body =>
    have hg := ((Skeleton.doWhile n body).threaded t ends g).grown
    rw [Skeleton.build] at hs hg ⊢
    rw [Skeleton.outcomes]
    obtain ⟨hin, hbody⟩ := h.doWhileBody n body
    exact hbody.hasOutcomes_doWhile hs hg rfl (fun u v hv ha => Nat.not_lt.2 hv (h.target_lt ha))
      (body.hasOutcomes b hin (hbody.sealed hs))
  | .switch n cases =>
    have hcont := (Skeleton.switch n cases).continues h.ready
    rw [Skeleton.build] at hs hcont ⊢
    rw [Skeleton.outcomes]
    simp only [pointAfter_size] at hs hcont ⊢
    have hbody := SwitchBody.of_build h n cases
    exact hbody.hasOutcomes hs (cases.hasOutcomes b (h.switch n) (by simp) (hbody.sealed_cases hs))
      (hcont.built.keeps WellFormed.step h.wellFormed)
  | .finally s last =>
    rw [Skeleton.build] at hs ⊢
    rw [Skeleton.outcomes, Outcomes.lastly]
    -- Where the last part is entered depends on whether there are open ends, not on control getting
    -- to them: so this case needs the hopeful view of the statement, too.
    have hg := (s.threaded t ends g).grown
    by_cases hnone : (s.build t ends g).1 = []
    · rw [if_pos (List.isEmpty_iff.2 hnone)] at hs ⊢
      have hg' := (last.threaded t (ends.map (·.relabel .onFinally)) (s.build t ends g).2).grown
      have hs' := h.sealed_left hg hg' hs
      have hlast := last.hasOutcomes b (h.again s .onFinally) (hs.right hg.size_le)
      rw [if_neg fun hn => ((s.hasOutcomes true h hs').hoped h).2 hn hnone]
      exact .lastly_nil h hg hg' hnone (live_relabel _) (s.hasOutcomes b h hs') hlast
    · rw [if_neg (by simpa using hnone)] at hs ⊢
      have hg' := (last.threaded t ((s.build t ends g).1.map (·.relabel .onFinally))
        (s.build t ends g).2).grown
      have hs' := h.sealed_left hg hg' hs
      have hlast := last.hasOutcomes b ((h.next s hnone).relabel .onFinally) (hs.right hg.size_le)
      rw [if_pos (((s.hasOutcomes true h hs').hoped h).1 hnone)]
      exact .andThen h hg hg' (s.hasOutcomes b h hs') hlast.relabel

theorem Cases.hasOutcomes (cs : Cases) (b : Bool) {G : Graph} {t : Targets} {ends : List OpenEnd}
    {g : Graph} {branch : Nat} (h : Begun G t (.plain branch :: ends) g)
    (hlive : Live b G ends → Lives b G branch) (hs : Sealed G g (cs.build branch t ends g).2) :
    CasesHaveOutcomes b G t branch ends g (cs.build branch t ends g) (cs.outcomes b) := by
  match cs with
  | .nil =>
    rw [Cases.build, Cases.outcomes]
    exact .nil b G t branch ends g
  | .cons label body rest =>
    rw [Cases.build] at hs ⊢
    rw [Cases.outcomes]
    have hg := (body.threaded t (ends ++ [.labelled branch label]) g).grown
    have hg' := (rest.threaded branch t (body.build t (ends ++ [.labelled branch label]) g).1
      (body.build t (ends ++ [.labelled branch label]) g).2).grown
    have hin : Live b G (ends ++ [.labelled branch label]) ↔ Lives b G branch := by
      rw [live_append, live_singleton]
      exact or_iff_right_of_imp hlive
    have hbody := body.hasOutcomes b (h.case label) (h.sealed_left hg hg' hs)
    have hrest := rest.hasOutcomes b (h.afterCase label body)
      (fun hl => hin.1 (hbody.normal.1 hl).1) (hs.right hg.size_le)
    exact .cons h.aims hg hg' hin hbody hrest

end

end Arbor.Flow
