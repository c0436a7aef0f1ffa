import Arbor.Proofs.Flow.Simulation
import Mathlib.Tactic.Common

/-!
# Open ends are the only way in

Building a statement leaves the points and edges that are there as they are. The edges that it adds
start at the open ends it was given or at points of its own, and those that leave its own points are
jumps. So control enters a statement at its open ends and nowhere else.
-/

namespace Arbor.Flow

/-- The points from which open ends start. -/
abbrev OpenEnd.points (ends : List OpenEnd) : List Nat := ends.map (·.point)

/-- The point `q` is the point `p` with perhaps more neighbours. -/
structure Point.Grew (p q : Point) : Prop where
  id : q.id = p.id
  kind : q.kind = p.kind
  span : q.span = p.span
  origin : q.origin = p.origin
  reachable : q.reachable = p.reachable
  successors : p.successors ⊆ q.successors
  predecessors : p.predecessors ⊆ q.predecessors

namespace Point.Grew

lemma refl (p : Point) : p.Grew p := ⟨rfl, rfl, rfl, rfl, rfl, fun _ h => h, fun _ h => h⟩

lemma trans {p q r : Point} (h : p.Grew q) (h' : q.Grew r) : p.Grew r :=
  ⟨h'.id.trans h.id, h'.kind.trans h.kind, h'.span.trans h.span, h'.origin.trans h.origin,
    h'.reachable.trans h.reachable, fun _ hx => h'.successors (h.successors hx),
    fun _ hx => h'.predecessors (h.predecessors hx)⟩

lemma note (p : Point) (i : Nat) (e : Edge) : p.Grew (p.note i e) := by
  refine ⟨rfl, rfl, rfl, rfl, rfl, fun x hx => ?_, fun x hx => ?_⟩
  · simp only [Point.note]
    split_ifs
    · exact PointSet.mem_insert.2 (.inr hx)
    · exact hx
  · simp only [Point.note]
    split_ifs
    · exact PointSet.mem_insert.2 (.inr hx)
    · exact hx

end Point.Grew

namespace Graph

/-- The edge may be added on the way from `g` to `g'`, from the open ends at `starts`: it starts
there or at a new point, it leads from an old point only to a new one, and to an old point only by a
jump. -/
structure Added (starts : List Nat) (t : Targets) (g g' : Graph) (e : Edge) : Prop where
  source : e.source ∈ starts ∨ g.points.size ≤ e.source
  enters : e.source < g.points.size → g.points.size ≤ e.target
  leaves : e.target < g.points.size → ∃ k : Jump,
    g'.kind? e.source = some k.kind ∧ e.target ∈ t.of g.exits k ∧
      e.label = k.label ∧ e.back = k.back
  bound : e.source < g'.points.size ∧ e.target < g'.points.size

/-- The graph `g'` has what `g` has, and further points and edges that building may add. -/
structure Grown (starts : List Nat) (t : Targets) (g g' : Graph) : Prop where
  entry : g'.entry = g.entry
  exits : g'.exits = g.exits
  points : ∀ (i : Nat) (p : Point), g.points[i]? = some p → ∃ q, g'.points[i]? = some q ∧ p.Grew q
  edges : ∃ added, g'.edges.toList = g.edges.toList ++ added ∧ ∀ e ∈ added, Added starts t g g' e

namespace Grown

variable {g g₁ g₂ : Graph} {S T : List Nat} {t t' : Targets}

lemma refl (S : List Nat) (t : Targets) (g : Graph) : Grown S t g g :=
  ⟨rfl, rfl, fun _ p hp => ⟨p, hp, .refl p⟩, [], by simp, by simp⟩

lemma kind? (h : Grown S t g g₁) {i : Nat} {k : PointKind} (hk : g.kind? i = some k) :
    g₁.kind? i = some k := by
  obtain ⟨p, hp, rfl⟩ := kind?_eq_some_iff.1 hk
  obtain ⟨q, hq, hpq⟩ := h.points i p hp
  exact kind?_eq_some_iff.2 ⟨q, hq, hpq.kind⟩

lemma size_le (h : Grown S t g g₁) : g.points.size ≤ g₁.points.size := by
  by_contra hlt
  obtain ⟨p, hp⟩ : ∃ p, g.points[g₁.points.size]? = some p :=
    ⟨_, Array.getElem?_eq_getElem (by omega)⟩
  obtain ⟨q, hq, -⟩ := h.points _ p hp
  have := (Array.getElem?_eq_some_iff.1 hq).1
  omega

lemma arc (h : Grown S t g g₁) {u v : Nat} (ha : g.Arc u v) : g₁.Arc u v := by
  obtain ⟨e, he, hu⟩ := ha
  obtain ⟨added, heq, -⟩ := h.edges
  refine ⟨e, ?_, hu⟩
  rw [← Array.mem_toList_iff, heq]
  exact List.mem_append_left _ (Array.mem_toList_iff.2 he)

/-- An edge is an old one or one that may be added. -/
lemma mem_edges (h : Grown S t g g₁) {e : Edge} (he : e ∈ g₁.edges) :
    e ∈ g.edges ∨ Added S t g g₁ e := by
  obtain ⟨added, heq, hadded⟩ := h.edges
  rw [← Array.mem_toList_iff, heq, List.mem_append, Array.mem_toList_iff] at he
  exact he.imp_right (hadded e)

/-- Growing in two steps. The second may start where the first did or at a point of the first, and
its jumps may lead where jumps of the whole lead or to a point of the first. -/
lemma trans (h : Grown S t g g₁) (h' : Grown T t' g₁ g₂)
    (hT : ∀ x ∈ T, x ∈ S ∨ g.points.size ≤ x)
    (ht : ∀ k : Jump, ∀ x ∈ t'.of g.exits k, x ∈ t.of g.exits k ∨ g.points.size ≤ x) :
    Grown S t g g₂ := by
  refine ⟨h'.entry.trans h.entry, h'.exits.trans h.exits, fun i p hp => ?_, ?_⟩
  · obtain ⟨q, hq, hpq⟩ := h.points i p hp
    obtain ⟨r, hr, hqr⟩ := h'.points i q hq
    exact ⟨r, hr, hpq.trans hqr⟩
  · obtain ⟨added, heq, hadded⟩ := h.edges
    obtain ⟨added', heq', hadded'⟩ := h'.edges
    refine ⟨added ++ added', by rw [heq', heq, List.append_assoc], fun e he => ?_⟩
    have hsize := h.size_le
    have hsize' := h'.size_le
    -- An edge of the first step is one of the whole. One of the second is judged from `g` anew.
    rcases List.mem_append.1 he with he | he
    · have ha := hadded e he
      refine ⟨ha.source, ha.enters, fun hlt => ?_, ?_⟩
      · obtain ⟨k, hk, hrest⟩ := ha.leaves hlt
        exact ⟨k, h'.kind? hk, hrest⟩
      · exact ⟨Nat.lt_of_lt_of_le ha.bound.1 hsize', Nat.lt_of_lt_of_le ha.bound.2 hsize'⟩
    · have ha := hadded' e he
      refine ⟨?_, fun hlt => ?_, fun hlt => ?_, ha.bound⟩
      · rcases ha.source with hs | hs
        · exact hT _ hs
        · exact .inr (Nat.le_trans hsize hs)
      · exact Nat.le_trans hsize (ha.enters (Nat.lt_of_lt_of_le hlt hsize))
      · obtain ⟨k, hk, hmem, hrest⟩ := ha.leaves (Nat.lt_of_lt_of_le hlt hsize)
        rw [h.exits] at hmem
        -- The target is an old point of `g`, so that the jump leads out of the whole.
        exact ⟨k, hk, (ht k _ hmem).resolve_right (by omega), hrest⟩

lemma addPoint (h : Grown S t g g₁) (k : PointKind) (sp : Span) (o : Option Node) :
    Grown S t g (g₁.addPoint k sp o) := by
  have hstep : Grown [] t g₁ (g₁.addPoint k sp o) := by
    refine ⟨rfl, rfl, fun i p hp => ⟨p, ?_, .refl p⟩, [], by simp, by simp⟩
    have hi := (Array.getElem?_eq_some_iff.1 hp).1
    rw [addPoint_point?, if_neg (Nat.ne_of_lt hi), hp]
  exact h.trans hstep (by simp) fun _ _ hx => .inl hx

lemma addDead (h : Grown S t g g₁) (ns : List Node) : Grown S t g (g₁.addDead ns) := by
  induction ns generalizing g₁ with
  | nil => exact h
  | cons n ns ih => exact ih (h.addPoint _ _ _)

/-- Adding an edge that starts where it may. -/
lemma addEdge (h : Grown S t g g₁) {e : Edge} (hs : e.source ∈ S ∨ g.points.size ≤ e.source)
    (hin : e.source < g.points.size → g.points.size ≤ e.target)
    (hout : e.target < g.points.size → ∃ k : Jump,
      g₁.kind? e.source = some k.kind ∧ e.target ∈ t.of g.exits k ∧
        e.label = k.label ∧ e.back = k.back) :
    Grown S t g (g₁.addEdge e) := by
  obtain ⟨heq, -⟩ | ⟨heq, hlt, hlt', -⟩ := addEdge_cases g₁ e
  · rwa [heq]
  · refine ⟨by simp [h.entry], by simp [h.exits], fun i p hp => ?_, ?_⟩
    · obtain ⟨q, hq, hpq⟩ := h.points i p hp
      refine ⟨q.note i e, ?_, hpq.trans (.note q i e)⟩
      rw [heq, insertEdge_point?, hq, Option.map_some]
    · obtain ⟨added, hadd, hadded⟩ := h.edges
      refine ⟨added ++ [e], by simp [heq, insertEdge, hadd], fun e' he' => ?_⟩
      rcases List.mem_append.1 he' with he' | he'
      · have ha := hadded e' he'
        refine ⟨ha.source, ha.enters, fun hlt => ?_, by simpa using ha.bound⟩
        simpa using ha.leaves hlt
      · obtain rfl := List.mem_singleton.1 he'
        exact ⟨hs, hin, by simpa using hout, by simp [hlt, hlt']⟩

lemma addEdges (h : Grown S t g g₁) {es : List Edge}
    (hes : ∀ e ∈ es, (e.source ∈ S ∨ g.points.size ≤ e.source) ∧ g.points.size ≤ e.target) :
    Grown S t g (g₁.addEdges es) := by
  induction es generalizing g₁ with
  | nil => exact h
  | cons e es ih =>
    obtain ⟨hs, ht⟩ := hes e (by simp)
    refine ih (h.addEdge hs (fun _ => ht) fun hlt => absurd hlt (by omega)) fun e' he' => ?_
    exact hes e' (List.mem_cons_of_mem e he')

/-- Open ends flow on to a new point. -/
lemma link (h : Grown S t g g₁) {ends : List OpenEnd} {p : Nat} {edge : OpenEnd → Edge}
    (hends : ∀ e ∈ ends, e.point ∈ S ∨ g.points.size ≤ e.point) (hp : g.points.size ≤ p)
    (hedge : ∀ e, (edge e).source = e.point ∧ (edge e).target = p) :
    Grown S t g (g₁.addEdges (ends.map edge)) := by
  refine h.addEdges fun e he => ?_
  obtain ⟨o, ho, rfl⟩ := List.mem_map.1 he
  rw [(hedge o).1, (hedge o).2]
  exact ⟨hends o ho, hp⟩

lemma pointAfter (h : Grown S t g g₁) (k : PointKind) (n : Node) {ends : List OpenEnd}
    (hends : ∀ e ∈ ends, e.point ∈ S ∨ g.points.size ≤ e.point) :
    Grown S t g (g₁.pointAfter k n ends) :=
  (h.addPoint k n.span (some n)).link hends h.size_le fun _ => ⟨rfl, rfl⟩

lemma loopPoints (h : Grown S t g g₁) (n : Node) : Grown S t g (g₁.loopPoints n) :=
  (h.addPoint _ _ _).addPoint _ _ _

/-- A new point takes a jump. -/
lemma leave (h : Grown S t g g₁) {k : Jump} {p : Nat} (hp : g.points.size ≤ p)
    (hk : g₁.kind? p = some k.kind) {xs : List Nat}
    (hxs : ∀ x ∈ xs, x ∈ t.of g.exits k) : Grown S t g (g₁.addEdges (k.edges p xs)) := by
  induction xs generalizing g₁ with
  | nil => exact h
  | cons x xs ih =>
    refine ih (h.addEdge (.inr hp) (fun hlt => absurd hlt (by simpa using hp)) fun _ => ?_) ?_ ?_
    · exact ⟨k, hk, hxs x (by simp), rfl, rfl⟩
    · simpa using hk
    · exact fun y hy => hxs y (List.mem_cons_of_mem x hy)

end Grown

end Graph

open Flow.Graph

/-! ### Skeletons -/

/-- The jumps of the body of a loop lead to its two points. -/
lemma Targets.of_loop {t : Targets} {g : Graph} {head : Nat} (hh : g.points.size ≤ head)
    (k : Jump) : ∀ x ∈ Targets.of ⟨some (head + 1), some head⟩ g.exits k,
      x ∈ t.of g.exits k ∨ g.points.size ≤ x := by
  intro x hx
  cases k with
  | returns => exact .inl hx
  | throws => exact .inl hx
  | breaks =>
    obtain rfl : x = head + 1 := by simpa [Targets.of, eq_comm] using hx
    exact .inr (by omega)
  | continues =>
    obtain rfl : x = head := by simpa [Targets.of, eq_comm] using hx
    exact .inr hh

/-- The jumps of the cases of a switch lead to the point behind it, or where they lead outside. -/
lemma Targets.of_switch {t : Targets} {g : Graph} {merge : Nat} (hm : g.points.size ≤ merge)
    (k : Jump) : ∀ x ∈ Targets.of ⟨some merge, t.continueTo⟩ g.exits k,
      x ∈ t.of g.exits k ∨ g.points.size ≤ x := by
  intro x hx
  cases k with
  | returns | throws | continues => exact .inl hx
  | breaks =>
    obtain rfl : x = merge := by simpa [Targets.of, eq_comm] using hx
    exact .inr hm

@[simp] lemma OpenEnd.points_relabel (ends : List OpenEnd) (l : Label) :
    OpenEnd.points (ends.map (·.relabel l)) = OpenEnd.points ends := by
  simp only [OpenEnd.points, List.map_map]
  rfl

/-- The result of building from the open ends at `starts`: a graph that has grown, and open ends
that start there or at new points. -/
structure Threaded (starts : List Nat) (t : Targets) (g : Graph) (r : List OpenEnd × Graph) :
    Prop where
  grown : Grown starts t g r.2
  ends : ∀ x ∈ OpenEnd.points r.1, x ∈ starts ∨ g.points.size ≤ x ∧ x < r.2.points.size

namespace Threaded

variable {S T : List Nat} {t t' : Targets} {g g₁ : Graph} {r r' : List OpenEnd × Graph}

/-- Building after some growth. -/
lemma after (h : Threaded T t' g₁ r) (hg : Grown S t g g₁)
    (hT : ∀ x ∈ T, x ∈ S ∨ g.points.size ≤ x ∧ x < g₁.points.size)
    (ht : ∀ k : Jump, ∀ x ∈ t'.of g.exits k, x ∈ t.of g.exits k ∨ g.points.size ≤ x) :
    Threaded S t g r := by
  have hsize := hg.size_le
  have hsize' := h.grown.size_le
  refine ⟨hg.trans h.grown (fun x hx => (hT x hx).imp_right (·.1)) ht, fun x hx => ?_⟩
  rcases h.ends x hx with hx | ⟨hle, hlt⟩
  · exact (hT x hx).imp_right fun hb => ⟨hb.1, by omega⟩
  · exact .inr ⟨by omega, hlt⟩

/-- Building from the open ends that were left. -/
lemma seq (h : Threaded S t g r) (h' : Threaded (OpenEnd.points r.1) t r.2 r') :
    Threaded S t g r' :=
  h'.after h.grown h.ends fun _ _ hx => .inl hx

/-- Building again from the open ends in front. -/
lemma again (h : Threaded S t g r) (h' : Threaded S t r.2 r') :
    Threaded S t g (r.1 ++ r'.1, r'.2) := by
  have hboth : Threaded S t g r' := h'.after h.grown (fun x hx => .inl hx) fun _ _ hx => .inl hx
  refine ⟨hboth.grown, fun x hx => ?_⟩
  rw [OpenEnd.points, List.map_append, List.mem_append] at hx
  have hsize := h'.grown.size_le
  rcases hx with hx | hx
  · exact (h.ends x hx).imp_right fun hb => ⟨hb.1, Nat.lt_of_lt_of_le hb.2 hsize⟩
  · exact hboth.ends x hx

lemma pass (ends : List OpenEnd) (t : Targets) (g : Graph) :
    Threaded (OpenEnd.points ends) t g (ends, g) :=
  ⟨.refl _ t g, fun _ hx => .inl hx⟩

/-- A new point behind open ends, from which control flows on. -/
lemma pointAfter (h : Threaded S t g r) (k : PointKind) (n : Node) :
    Threaded S t g ([.plain r.2.points.size], r.2.pointAfter k n r.1) := by
  refine ⟨h.grown.pointAfter k n fun e he => ?_, fun x hx => ?_⟩
  · exact (h.ends _ (List.mem_map_of_mem he)).imp_right (·.1)
  · have hx : x = r.2.points.size := by simpa [OpenEnd.plain] using hx
    have hsize := h.grown.size_le
    exact .inr ⟨by omega, by simp [hx]⟩

lemma join (h : Threaded S t g r) (n : Node) : Threaded S t g (r.2.join n r.1) := by
  obtain ⟨_ | ⟨first, rest⟩, g'⟩ := r
  · exact h
  · simp only [Graph.join]
    split_ifs
    · exact ⟨h.grown, fun x hx => h.ends x (by simp_all)⟩
    · exact h.pointAfter .merge n

lemma closeLoop (h : Threaded S t g r) {head : Nat} (hh : g.points.size ≤ head)
    (hlt : head + 1 < r.2.points.size) :
    Threaded S t g ([.plain (head + 1)], r.2.closeLoop head r.1) := by
  refine ⟨?_, fun x hx => ?_⟩
  · have hback : Grown S t g (r.2.addEdges (r.1.map (·.backTo head))) :=
      h.grown.link (fun e he => (h.ends _ (List.mem_map_of_mem he)).imp_right (·.1)) hh
        fun _ => ⟨rfl, rfl⟩
    exact hback.addEdge (.inr hh) (fun hl => absurd hl (by simpa using hh)) fun hl =>
      absurd hl (Nat.not_lt.2 (Nat.le_succ_of_le hh))
  · have hx : x = head + 1 := by simpa [OpenEnd.plain] using hx
    exact .inr ⟨by omega, by simp [hx, hlt]⟩

lemma closeSwitch (h : Threaded S t g r) {branch merge : Nat} (hb : g.points.size ≤ branch)
    (hm : g.points.size ≤ merge) (hlt : merge < r.2.points.size) (d : Bool) :
    Threaded S t g ((r.2.closeSwitch branch merge d r.1).endAt merge,
      r.2.closeSwitch branch merge d r.1) := by
  refine ⟨?_, fun x hx => ?_⟩
  · have hlink : Grown S t g (r.2.addEdges (r.1.map (·.edgeTo merge))) :=
      h.grown.link (fun e he => (h.ends _ (List.mem_map_of_mem he)).imp_right (·.1)) hm
        fun _ => ⟨rfl, rfl⟩
    refine hlink.addEdges fun e he => ?_
    cases d with
    | true => simp at he
    | false =>
      obtain rfl : e = ⟨branch, merge, some .onDefault, false⟩ := by simpa using he
      exact ⟨.inr hb, hm⟩
  · have hx : x = merge := by
      unfold endAt at hx
      split_ifs at hx <;> simp_all [OpenEnd.plain]
    exact .inr ⟨by omega, by simp [hx, hlt]⟩

end Threaded

/-- A new point behind open ends is entered from them only. -/
lemma Graph.grown_pointAfter (k : PointKind) (n : Node) (ends : List OpenEnd) (t : Targets)
    (g : Graph) : Grown (OpenEnd.points ends) t g (g.pointAfter k n ends) :=
  ((Threaded.pass ends t g).pointAfter k n).grown

/-- The head of a new loop is entered from open ends. -/
lemma Graph.grown_loopHead (n : Node) (ends : List OpenEnd) (t : Targets) (g : Graph) :
    Grown (OpenEnd.points ends) t g
      ((g.loopPoints n).addEdges (ends.map (·.edgeTo g.points.size))) :=
  ((Grown.refl _ t g).loopPoints n).link (fun _ he => .inl (List.mem_map_of_mem he))
    (Nat.le_refl _) fun _ => ⟨rfl, rfl⟩

mutual

/-- Building a skeleton enters it from its open ends only. -/
theorem Skeleton.threaded (s : Skeleton) (t : Targets) (ends : List OpenEnd) (g : Graph) :
    Threaded (OpenEnd.points ends) t g (s.build t ends g) := by
  match s with
  | .pass =>
    rw [Skeleton.build]
    exact .pass ends t g
  | .plain n =>
    rw [Skeleton.build]
    exact (Threaded.pass ends t g).pointAfter .statement n
  | .leave k n =>
    rw [Skeleton.build]
    have h := grown_pointAfter k.kind n ends t g
    -- Behind a jump nothing is open.
    exact ⟨h.leave (Nat.le_refl _) (by simp [pointAfter]) fun _ hx => hx, by simp⟩
  | .andThen first dead rest =>
    rw [Skeleton.build]
    have h := first.threaded t ends g
    -- If the first part has no way out, the rest gives points without edges.
    split_ifs
    · exact ⟨h.grown.addDead dead, by simp⟩
    · exact h.seq (rest.threaded t _ _)
  | .branch n yes no =>
    rw [Skeleton.build]
    have h := (Threaded.pass ends t g).pointAfter .branch n
    -- Both sides start at the branch, the second in the graph that the first has left.
    have hyes := yes.threaded t [.labelled g.points.size .whenTrue] (g.pointAfter .branch n ends)
    have hno := no.threaded t [.labelled g.points.size .whenFalse]
      (yes.build t [.labelled g.points.size .whenTrue] (g.pointAfter .branch n ends)).2
    exact (hyes.again hno).after h.grown h.ends fun _ _ hx => .inl hx
  | .attempt body handler =>
    rw [Skeleton.build]
    -- The handler is entered from in front of the body, like the body itself.
    have hh := handler.threaded t (ends.map (·.relabel .onCatch)) (body.build t ends g).2
    rw [OpenEnd.points_relabel] at hh
    exact (body.threaded t ends g).again hh
  | .joined n s =>
    rw [Skeleton.build]
    exact (s.threaded t ends g).join n
  | .bareLoop n =>
    rw [Skeleton.build]
    have h : Threaded (OpenEnd.points ends) t g
        ([], (g.loopPoints n).addEdges (ends.map (·.edgeTo g.points.size))) :=
      ⟨grown_loopHead n ends t g, by simp⟩
    exact h.closeLoop (Nat.le_refl _) (by simp)
  | .loop n body =>
    rw [Skeleton.build]
    have h := grown_loopHead n ends t g
    have hbody := body.threaded ⟨some (g.points.size + 1), some g.points.size⟩
      [.labelled g.points.size .whenTrue]
      ((g.loopPoints n).addEdges (ends.map (·.edgeTo g.points.size)))
    have hsize := hbody.grown.size_le
    -- What breaks off or goes on in the body leads to the two new points.
    refine (hbody.after h (fun x hx => ?_) (Targets.of_loop (Nat.le_refl _))).closeLoop
      (Nat.le_refl _) ?_
    · obtain rfl : x = g.points.size := by simpa [OpenEnd.labelled] using hx
      exact .inr ⟨Nat.le_refl _, by simp⟩
    · simp only [addEdges_size, loopPoints_size] at hsize
      omega
  | .doWhile n body =>
    rw [Skeleton.build]
    have h : Grown (OpenEnd.points ends) t g (g.loopPoints n) := (Grown.refl _ t g).loopPoints n
    have hbody := body.threaded ⟨some (g.points.size + 1), some g.points.size⟩
      (ends ++ [⟨g.points.size, some .whenTrue, true⟩]) (g.loopPoints n)
    have hsize := hbody.grown.size_le
    refine (hbody.after h (fun x hx => ?_) (Targets.of_loop (Nat.le_refl _))).closeLoop
      (Nat.le_refl _) ?_
    · -- The body is entered from in front of the loop and again from its head.
      rw [OpenEnd.points, List.map_append, List.mem_append] at hx
      refine hx.imp_right fun hx => ?_
      obtain rfl : x = g.points.size := by simpa using hx
      exact ⟨Nat.le_refl _, by simp⟩
    · simp only [loopPoints_size] at hsize
      omega
  | .switch n cases =>
    rw [Skeleton.build]
    have h := grown_pointAfter .branch n ends t g
    have hm := h.addPoint .merge n.span (some n)
    have hcases := cases.threaded g.points.size
      ⟨some (g.pointAfter .branch n ends).points.size, t.continueTo⟩ []
      ((g.pointAfter .branch n ends).addPoint .merge n.span (some n))
    have hsize := hcases.grown.size_le
    refine (hcases.after hm (fun x hx => ?_) (Targets.of_switch h.size_le)).closeSwitch
      (Nat.le_refl _) h.size_le ?_ _
    · -- Nothing falls into the first case: the cases are entered from the branch.
      obtain rfl : x = g.points.size := by simpa using hx
      exact .inr ⟨Nat.le_refl _, by rw [addPoint_size, pointAfter_size]; omega⟩
    · simp only [addPoint_size, pointAfter_size] at hsize ⊢
      omega
  | .finally s last =>
    rw [Skeleton.build]
    have h := s.threaded t ends g
    -- If nothing comes out of the rest, the last part is entered from in front, and it leads
    -- nowhere.
    split_ifs
    · have hlast := last.threaded t (ends.map (·.relabel .onFinally)) (s.build t ends g).2
      rw [OpenEnd.points_relabel] at hlast
      exact ⟨(h.again hlast).grown, by simp⟩
    · have hlast := last.threaded t ((s.build t ends g).1.map (·.relabel .onFinally))
        (s.build t ends g).2
      rw [OpenEnd.points_relabel] at hlast
      exact h.seq hlast

/-- Building cases enters them from their open ends and from the branch only. -/
theorem Cases.threaded (cs : Cases) (branch : Nat) (t : Targets) (ends : List OpenEnd) (g : Graph) :
    Threaded (branch :: OpenEnd.points ends) t g (cs.build branch t ends g) := by
  match cs with
  | .nil =>
    rw [Cases.build]
    exact ⟨.refl _ t g, fun _ hx => .inl (List.mem_cons_of_mem _ hx)⟩
  | .cons label body rest =>
    rw [Cases.build]
    have h := body.threaded t (ends ++ [.labelled branch label]) g
    -- A case is entered from the branch and from the case before it.
    have hbody : Threaded (branch :: OpenEnd.points ends) t g
        (body.build t (ends ++ [.labelled branch label]) g) := by
      refine h.after (.refl _ t g) (fun x hx => .inl ?_) fun _ _ hx => .inl hx
      simpa [OpenEnd.labelled, or_comm] using hx
    refine (rest.threaded branch t _ _).after hbody.grown (fun x hx => ?_) fun _ _ hx => .inl hx
    rcases List.mem_cons.1 hx with rfl | hx
    · exact .inl List.mem_cons_self
    · exact hbody.ends x hx

end

lemma Skeleton.graphFrom_fresh (s : Skeleton) (sp : Span) :
    s.graphFrom (.fresh sp) =
      (s.build ⟨none, none⟩ [.plain 0] (.fresh sp)).2.addEdges
        ((s.build ⟨none, none⟩ [.plain 0] (.fresh sp)).1.map (·.edgeTo 1)) := by
  have hexits : (s.build ⟨none, none⟩ [.plain 0] (.fresh sp)).2.exits = [1] :=
    (s.threaded ⟨none, none⟩ [.plain 0] (.fresh sp)).grown.exits
  have hentry : (Graph.fresh sp).entry = 0 := rfl
  simp [Skeleton.graphFrom, Graph.toExits, hentry, hexits]

/-! ### Statements -/

/-- The edges that `g'` has beyond those of `g`. -/
def Graph.added (g g' : Graph) : List Edge := g'.edges.toList.drop g.edges.size

/-- The point is one that `g'` has and `g` does not. -/
def Graph.IsNew (g g' : Graph) (p : Nat) : Prop := g.points.size ≤ p ∧ p < g'.points.size

/-- Between the graph `g` and the result `r`, something was built that is entered only from the open
ends `ends`, and left only through the open ends of the result and through jumps. -/
structure SingleEntry (ends : List OpenEnd) (ctx : Context) (g : Graph) (r : List OpenEnd × Graph) :
    Prop where
  points : ∀ (i : Nat) (p : Point), g.points[i]? = some p → ∃ q, r.2.points[i]? = some q ∧ p.Grew q
  edges : g.edges.toList <+: r.2.edges.toList
  starts : ∀ e ∈ g.added r.2, e.source ∈ OpenEnd.points ends ∨ g.IsNew r.2 e.source
  enters : ∀ e ∈ g.added r.2, e.source ∈ OpenEnd.points ends → g.IsNew r.2 e.target
  leaves : ∀ e ∈ g.added r.2, ¬ g.IsNew r.2 e.target → g.IsNew r.2 e.source ∧
    (e.target ∈ g.exits ∧ r.2.kind? e.source = some .returnJump ∨
      ctx.breakTarget? = some e.target ∧ r.2.kind? e.source = some .breakJump ∨
      ctx.loopEntry = some e.target ∧ r.2.kind? e.source = some .continueJump)
  ends : ∀ e ∈ r.1, e.point ∈ OpenEnd.points ends ∨ g.IsNew r.2 e.point

/-- A jump that has a target is a return, or the break or continue of a loop or switch around it. -/
lemma Context.mem_targets {ctx : Context} {exits : List Nat} {k : Jump} {x : Nat}
    (h : x ∈ ctx.targets.of exits k) :
    x ∈ exits ∧ k.kind = .returnJump ∨ ctx.breakTarget? = some x ∧ k.kind = .breakJump ∨
      ctx.loopEntry = some x ∧ k.kind = .continueJump := by
  cases k with
  | returns => exact .inl ⟨h, rfl⟩
  | throws => simp [Targets.of] at h
  | breaks => exact .inr (.inl ⟨Option.mem_toList.1 h, rfl⟩)
  | continues => exact .inr (.inr ⟨Option.mem_toList.1 h, rfl⟩)

/-- Building a statement is threaded through its open ends, whatever the draft is. -/
theorem statementTo_singleEntry (d : Nat) (n : Node) (ends : List OpenEnd) (ctx : Context)
    (D : Draft) (hends : ∀ e ∈ ends, e.point < D.graph.points.size) :
    SingleEntry ends ctx D.graph
      ((statementTo d n ends ctx D).1, (statementTo d n ends ctx D).2.graph) := by
  rw [follows_statementTo d n ends ctx D]
  have h := (skeleton d n).threaded ctx.targets ends D.graph
  generalize (skeleton d n).build ctx.targets ends D.graph = r at h
  obtain ⟨added, heq, hadded⟩ := h.grown.edges
  have hnew : D.graph.added r.2 = added := by simp [Graph.added, heq]
  refine ⟨h.grown.points, heq ▸ List.prefix_append _ _, ?_, ?_, ?_, fun e he => ?_⟩
  · rw [hnew]
    exact fun e he => (hadded e he).source.imp_right fun hs => ⟨hs, (hadded e he).bound.1⟩
  · rw [hnew]
    intro e he hs
    obtain ⟨o, ho, hpoint⟩ := List.mem_map.1 hs
    exact ⟨(hadded e he).enters (hpoint ▸ hends o ho), (hadded e he).bound.2⟩
  · rw [hnew]
    intro e he hout
    have ha := hadded e he
    -- What is no new point is an old one, to which only jumps lead.
    have hlt : e.target < D.graph.points.size := by
      by_contra hge
      exact hout ⟨by omega, ha.bound.2⟩
    obtain ⟨k, hk, hmem, -⟩ := ha.leaves hlt
    refine ⟨⟨?_, ha.bound.1⟩, hk ▸ by simpa using Context.mem_targets hmem⟩
    -- An edge from an old point would lead to a new one.
    by_contra hs
    have := ha.enters (by omega)
    omega
  · exact h.ends _ (List.mem_map_of_mem he)

/-- A break in the body of a loop: it is entered from the head of the loop, and leads behind it. -/
theorem statementTo_singleEntry_break :
    let n := Node.root (.leaf "break_statement" "break")
    let D : Draft := ⟨(Graph.fresh .zero).loopPoints n, 1, #[]⟩
    let ends := [OpenEnd.labelled 2 .whenTrue]
    let ctx : Context := ⟨0, some 2, some 3, none⟩
    let r := statementTo 1 n ends ctx D
    (∀ e ∈ ends, e.point < D.graph.points.size) ∧
      D.graph.added r.2.graph =
        [⟨2, 4, some .whenTrue, false⟩, ⟨4, 3, some .onBreak, false⟩] ∧
      SingleEntry ends ctx D.graph (r.1, r.2.graph) := by
  refine ⟨by decide, by decide, statementTo_singleEntry _ _ _ _ _ (by decide)⟩

end Arbor.Flow
