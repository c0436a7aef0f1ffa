import Arbor.Proofs.Flow.Threading

/-!
# How graphs are built

Every graph grows from a fresh one by steps of two forms: a new point, and an edge that keeps to
some rules. An edge that leads forward ends at a point from which nothing leads on yet. An edge that
leads back has the head of a loop at one of its ends. Whatever such steps keep therefore holds of
every graph that is built.
-/

namespace Arbor.Flow

lemma Jump.kind_ne_entry (k : Jump) : k.kind ≠ .entry := by
  cases k <;> decide

lemma Jump.kind_ne_exit (k : Jump) : k.kind ≠ .exit := by
  cases k <;> decide

/-- Control goes on from points of the kind to whatever comes next. -/
def PointKind.flowsOn : PointKind → Bool
  | .exit | .returnJump | .throwJump | .breakJump | .continueJump => false
  | .entry | .statement | .branch | .merge | .loop => true

lemma PointKind.ne_exit_of_flowsOn {k : PointKind} (h : k.flowsOn = true) : k ≠ .exit := by
  rintro rfl
  simp [flowsOn] at h

namespace Graph

/-! ### Steps -/

/-- Nothing leads on from the point. -/
def IsSink (g : Graph) (p : Nat) : Prop := ∀ v, ¬ g.Arc p v

/-- The edge may be added to the graph. -/
structure Admissible (g : Graph) (e : Edge) : Prop where
  source : ∃ k, g.kind? e.source = some k ∧ k ≠ .exit
  target : ∃ k, g.kind? e.target = some k ∧ k ≠ .entry
  back : e.back = true → g.kind? e.source = some .loop ∨ g.kind? e.target = some .loop
  forward : e.back = false → e.source ≠ e.target ∧ g.IsSink e.target

/-- One step of building. -/
inductive Step : Graph → Graph → Prop where
  | point {g : Graph} {k : PointKind} (sp : Span) (o : Option Node) (hentry : k ≠ .entry)
      (hexit : k ≠ .exit) : Step g (g.addPoint k sp o)
  | edge {g : Graph} {e : Edge} (h : g.Admissible e) : Step g (g.addEdge e)

/-- The second graph is built from the first. -/
abbrev Built : Graph → Graph → Prop := Relation.ReflTransGen Step

/-- What every step keeps is kept by building. -/
lemma Built.keeps {P : Graph → Prop} (hstep : ∀ {g g' : Graph}, Step g g' → P g → P g')
    {g g' : Graph} (h : Built g g') (hg : P g) : P g' := by
  induction h with
  | refl => exact hg
  | tail _ hs ih => exact hstep hs ih

/-! ### Where edges may start and end -/

/-- Control may flow on by the open end. -/
def Open (g : Graph) (e : OpenEnd) : Prop :=
  ∃ k, g.kind? e.point = some k ∧ k.flowsOn = true ∧ (e.back = true → k = .loop)

/-- Edges from the open ends may lead forward to the point. -/
structure Landing (g : Graph) (ends : List OpenEnd) (p : Nat) : Prop where
  kind : ∃ k, g.kind? p = some k ∧ k ≠ .entry
  sink : g.IsSink p
  other : ∀ e ∈ ends, e.point ≠ p

variable {g g' : Graph} {ends ends' : List OpenEnd} {e : OpenEnd} {p : Nat} {t : Targets}
  {S : List Nat}

lemma IsSink.grown (h : g.IsSink p) (hg : Grown S t g g') (hS : p ∉ S) (hp : p < g.points.size) :
    g'.IsSink p := by
  rintro v ⟨e, he, rfl, -⟩
  rcases hg.mem_edges he with he | ha
  · exact h _ ⟨e, he, rfl, rfl⟩
  · rcases ha.source with hs | hs
    · exact hS hs
    · omega

lemma IsSink.addEdge {e : Edge} (h : g.IsSink p) (he : e.source ≠ p) : (g.addEdge e).IsSink p := by
  intro v hv
  rcases arc_of_addEdge hv with hv | ⟨hs, -⟩
  · exact h v hv
  · exact he hs

lemma Open.grown (h : g.Open e) (hg : Grown S t g g') : g'.Open e := by
  obtain ⟨k, hk, hrest⟩ := h
  exact ⟨k, hg.kind? hk, hrest⟩

lemma Landing.grown (h : g.Landing ends p) (hg : Grown (OpenEnd.points ends) t g g')
    (hends : ∀ e ∈ ends', e.point ∈ OpenEnd.points ends ∨ g.points.size ≤ e.point) :
    g'.Landing ends' p := by
  obtain ⟨k, hk, hne⟩ := h.kind
  have hp := lt_size_of_kind? hk
  have hS : p ∉ OpenEnd.points ends := by
    intro hmem
    obtain ⟨e, he, heq⟩ := List.mem_map.1 hmem
    exact h.other e he heq
  refine ⟨⟨k, hg.kind? hk, hne⟩, h.sink.grown hg hS hp, fun e he heq => ?_⟩
  rcases hends e he with hmem | hle
  · exact hS (heq ▸ hmem)
  · omega

lemma Landing.addPoint (h : g.Landing ends p) (k : PointKind) (sp : Span) (o : Option Node) :
    (g.addPoint k sp o).Landing ends p := by
  obtain ⟨k', hk', hne⟩ := h.kind
  exact ⟨⟨k', addPoint_kind?_of_eq_some _ _ _ hk', hne⟩, h.sink, h.other⟩

lemma Landing.addEdge {e : Edge} (h : g.Landing ends p) (he : e.source ≠ p) :
    (g.addEdge e).Landing ends p :=
  ⟨by simpa using h.kind, h.sink.addEdge he, h.other⟩

/-! ### Building along open ends -/

lemma Built.link (hp : g.Landing ends p) (ho : ∀ e ∈ ends, g.Open e) :
    Built g (g.addEdges (ends.map (·.edgeTo p))) := by
  induction ends generalizing g with
  | nil => exact .refl
  | cons e ends ih =>
    obtain ⟨k, hk, hflows, hloop⟩ := ho e (by simp)
    have hne : e.point ≠ p := hp.other e (by simp)
    have hadm : g.Admissible (e.edgeTo p) :=
      ⟨⟨k, hk, k.ne_exit_of_flowsOn hflows⟩, hp.kind, fun hb => .inl (hloop hb ▸ hk),
        fun _ => ⟨hne, hp.sink⟩⟩
    have hp' : g.Landing ends p := ⟨hp.kind, hp.sink, fun e' he' => hp.other e' (by simp [he'])⟩
    refine .head (.edge hadm) (ih (hp'.addEdge hne) fun e' he' => ?_)
    simpa [Open] using ho e' (by simp [he'])

lemma Built.linkBack (hp : g.kind? p = some .loop) (ho : ∀ e ∈ ends, g.Open e) :
    Built g (g.addEdges (ends.map (·.backTo p))) := by
  induction ends generalizing g with
  | nil => exact .refl
  | cons e ends ih =>
    obtain ⟨k, hk, hflows, -⟩ := ho e (by simp)
    have hadm : g.Admissible (e.backTo p) :=
      ⟨⟨k, hk, k.ne_exit_of_flowsOn hflows⟩, ⟨.loop, hp, by decide⟩, fun _ => .inr hp,
        by simp [OpenEnd.backTo]⟩
    refine .head (.edge hadm) (ih (by simpa using hp) fun e' he' => ?_)
    simpa [Open] using ho e' (by simp [he'])

/-- The edges of a graph start at points that it has. -/
def InRange (g : Graph) : Prop := ∀ u v, g.Arc u v → u < g.points.size

lemma InRange.grown (h : g.InRange) (hg : Grown S t g g') : g'.InRange := by
  rintro u v ⟨e, he, rfl, -⟩
  rcases hg.mem_edges he with he | ha
  · exact Nat.lt_of_lt_of_le (h _ _ ⟨e, he, rfl, rfl⟩) hg.size_le
  · exact ha.bound.1

/-- A new point may be reached from the open ends that were there before. -/
lemma InRange.landing (h : g.InRange) {k : PointKind} (hk : k ≠ .entry) (sp : Span)
    (o : Option Node) (hends : ∀ e ∈ ends, e.point < g.points.size) :
    (g.addPoint k sp o).Landing ends g.points.size := by
  refine ⟨⟨k, by simp, hk⟩, fun v hv => ?_, fun e he heq => ?_⟩
  · have := h _ v hv
    omega
  · have := hends e he
    omega

lemma Open.lt_size (h : g.Open e) : e.point < g.points.size := by
  obtain ⟨k, hk, -⟩ := h
  exact lt_size_of_kind? hk

lemma Built.pointAfter (hg : g.InRange) (ho : ∀ e ∈ ends, g.Open e) {k : PointKind}
    (hentry : k ≠ .entry) (hexit : k ≠ .exit) (n : Node) : Built g (g.pointAfter k n ends) := by
  refine .head (.point n.span (some n) hentry hexit) (Built.link ?_ fun e he => ?_)
  · exact hg.landing hentry _ _ fun e he => (ho e he).lt_size
  · obtain ⟨k', hk', hrest⟩ := ho e he
    exact ⟨k', addPoint_kind?_of_eq_some _ _ _ hk', hrest⟩

lemma Built.loopPoints (g : Graph) (n : Node) : Built g (g.loopPoints n) :=
  .head (.point _ _ (by decide) (by decide)) (.single (.point _ _ (by decide) (by decide)))

lemma Built.addDead (g : Graph) (ns : List Node) : Built g (g.addDead ns) := by
  induction ns generalizing g with
  | nil => exact .refl
  | cons n ns ih => exact .head (.point _ _ (by decide) (by decide)) (ih _)

/-- A point takes a jump, to the head of a loop if it leads back. -/
lemma Built.leave {j : Jump} {xs : List Nat} (hp : ∃ k, g.kind? p = some k ∧ k ≠ .exit)
    (hback : j.back = true → ∀ x ∈ xs, g.kind? x = some .loop)
    (hforward : j.back = false → ∀ x ∈ xs, g.Landing [.plain p] x) :
    Built g (g.addEdges (j.edges p xs)) := by
  induction xs generalizing g with
  | nil => exact .refl
  | cons x xs ih =>
    have hadm : g.Admissible ⟨p, x, j.label, j.back⟩ := by
      refine ⟨hp, ?_, fun hb => .inr (hback hb x (by simp)), fun hb => ?_⟩
      · cases hb : j.back with
        | true => exact ⟨.loop, hback hb x (by simp), by decide⟩
        | false => exact (hforward hb x (by simp)).kind
      · have hx := hforward hb x (by simp)
        exact ⟨hx.other _ List.mem_cons_self, hx.sink⟩
    refine .head (.edge hadm) (ih (by simpa using hp) (fun hb y hy => ?_) fun hb y hy => ?_)
    · simpa using hback hb y (by simp [hy])
    · have hy := hforward hb y (by simp [hy])
      exact hy.addEdge (hy.other _ List.mem_cons_self)

end Graph

/-! ### Skeletons -/

open Flow.Graph

/-- Building may go on at the open ends, with jumps to the targets. -/
structure Ready (g : Graph) (t : Targets) (ends : List OpenEnd) : Prop where
  range : g.InRange
  flows : ∀ e ∈ ends, g.Open e
  exits : ∀ x ∈ g.exits, g.Landing ends x
  breaks : ∀ x ∈ t.breakTo, g.Landing ends x
  continues : ∀ x ∈ t.continueTo, g.kind? x = some .loop

namespace Ready

variable {g g' : Graph} {t : Targets} {ends ends' : List OpenEnd}

/-- Building may go on once the graph has grown. -/
lemma grown (h : Ready g t ends) (hg : Grown (OpenEnd.points ends) t g g')
    (ho : ∀ e ∈ ends', g'.Open e)
    (hends : ∀ e ∈ ends', e.point ∈ OpenEnd.points ends ∨ g.points.size ≤ e.point) :
    Ready g' t ends' :=
  ⟨h.range.grown hg, ho, fun x hx => (h.exits x (hg.exits ▸ hx)).grown hg hends,
    fun x hx => (h.breaks x hx).grown hg hends, fun x hx => hg.kind? (h.continues x hx)⟩

/-- Building may go on behind what was built, and again at some of the open ends in front of it. -/
lemma keep (h : Ready g t ends) {r : List OpenEnd × Graph}
    (hr : Threaded (OpenEnd.points ends) t g r) (hflows : ∀ e ∈ r.1, r.2.Open e)
    {k : List OpenEnd} (hk : ∀ e ∈ k, e ∈ ends) : Ready r.2 t (k ++ r.1) := by
  refine h.grown hr.grown (fun e he => ?_) fun e he => ?_
  · rcases List.mem_append.1 he with he | he
    · exact (h.flows e (hk e he)).grown hr.grown
    · exact hflows e he
  · rcases List.mem_append.1 he with he | he
    · exact .inl (List.mem_map_of_mem (hk e he))
    · exact (hr.ends _ (List.mem_map_of_mem he)).imp_right (·.1)

/-- Building may go on behind what was built. -/
lemma next (h : Ready g t ends) {r : List OpenEnd × Graph}
    (hr : Threaded (OpenEnd.points ends) t g r) (hflows : ∀ e ∈ r.1, r.2.Open e) :
    Ready r.2 t r.1 :=
  h.keep hr hflows (k := []) (by simp)

/-- Building may go on at open ends that start where others do. -/
lemma reuse (h : Ready g t ends)
    (hends : ∀ e ∈ ends', ∃ o ∈ ends, e.point = o.point ∧ e.back = o.back) : Ready g t ends' := by
  refine h.grown (.refl _ t g) (fun e he => ?_) fun e he => ?_
  · obtain ⟨o, ho, hpoint, hback⟩ := hends e he
    have hopen := h.flows o ho
    rwa [Graph.Open, ← hpoint, ← hback] at hopen
  · obtain ⟨o, ho, hpoint, -⟩ := hends e he
    exact .inl (hpoint ▸ List.mem_map_of_mem ho)

lemma relabel (h : Ready g t ends) (l : Label) : Ready g t (ends.map (·.relabel l)) := by
  refine h.reuse fun e he => ?_
  obtain ⟨o, ho, rfl⟩ := List.mem_map.1 he
  exact ⟨o, ho, rfl, rfl⟩

/-- Building may start again from the open ends in front of a skeleton. -/
lemma again (h : Ready g t ends) (s : Skeleton) (l : Label) :
    Ready (s.build t ends g).2 t (ends.map (·.relabel l)) := by
  have hs := (s.threaded t ends g).grown
  have hr : Ready (s.build t ends g).2 t ends :=
    h.grown hs (fun e he => (h.flows e he).grown hs) fun e he => .inl (List.mem_map_of_mem he)
  exact hr.relabel l

/-- A case may be built behind the one before it. -/
lemma case {branch : Nat} (h : Ready g t (.plain branch :: ends)) (l : Label) :
    Ready g t (ends ++ [.labelled branch l]) := by
  refine h.reuse fun e he => ?_
  rcases List.mem_append.1 he with he | he
  · exact ⟨e, List.mem_cons_of_mem _ he, rfl, rfl⟩
  · obtain rfl := List.mem_singleton.1 he
    exact ⟨.plain branch, List.mem_cons_self, rfl, rfl⟩

/-- Building may go on behind a case, and again at the branch. -/
lemma afterCase {branch : Nat} (h : Ready g t (.plain branch :: ends)) {l : Label}
    {r : List OpenEnd × Graph}
    (hr : Threaded (OpenEnd.points (ends ++ [.labelled branch l])) t g r)
    (hflows : ∀ e ∈ r.1, r.2.Open e) : Ready r.2 t (.plain branch :: r.1) := by
  refine ((h.case l).keep hr hflows (k := [.labelled branch l]) (by simp)).reuse fun e he => ?_
  rcases List.mem_cons.1 he with rfl | he
  · exact ⟨.labelled branch l, by simp, rfl, rfl⟩
  · exact ⟨e, by simp [he], rfl, rfl⟩

lemma addEdge (h : Ready g t ends) {e : Edge} (he : ∃ o ∈ ends, e.source = o.point) :
    Ready (g.addEdge e) t ends := by
  obtain ⟨o, ho, hsource⟩ := he
  refine ⟨fun u v ha => ?_, fun e' he' => ?_, fun x hx => ?_, fun x hx => ?_, fun x hx => ?_⟩
  · rw [addEdge_size]
    rcases arc_of_addEdge ha with ha | ⟨rfl, -⟩
    · exact h.range u v ha
    · exact hsource ▸ (h.flows o ho).lt_size
  · simpa [Graph.Open] using h.flows e' he'
  · have hl := h.exits x (by simpa using hx)
    exact hl.addEdge (hsource ▸ hl.other o ho)
  · exact (h.breaks x hx).addEdge (hsource ▸ (h.breaks x hx).other o ho)
  · simpa using h.continues x hx

lemma addEdges (h : Ready g t ends) {es : List Edge}
    (hes : ∀ e ∈ es, ∃ o ∈ ends, e.source = o.point) : Ready (g.addEdges es) t ends := by
  induction es generalizing g with
  | nil => exact h
  | cons e es ih => exact ih (h.addEdge (hes e (by simp))) fun e' he' => hes e' (by simp [he'])

/-- Building may go on from a new point. -/
lemma pointAfter (h : Ready g t ends) {k : PointKind} (hk : k.flowsOn = true) (n : Node)
    {e : OpenEnd} (he : e.point = g.points.size) (hb : e.back = false) :
    Ready (g.pointAfter k n ends) t [e] := by
  refine h.grown (grown_pointAfter k n ends t g) (fun o ho => ?_) fun o ho => ?_
  · obtain rfl := List.mem_singleton.1 ho
    exact ⟨k, by simp [Graph.pointAfter, he], hk, by simp [hb]⟩
  · obtain rfl := List.mem_singleton.1 ho
    exact .inr (by omega)

/-- A new point takes over `break`. -/
lemma merge (h : Ready g t ends) (n : Node) :
    Ready (g.addPoint .merge n.span (some n)) ⟨some g.points.size, t.continueTo⟩ ends := by
  have hg : Grown (OpenEnd.points ends) t g (g.addPoint .merge n.span (some n)) :=
    (Grown.refl _ t g).addPoint _ _ _
  have hr := h.grown hg (fun e he => (h.flows e he).grown hg) fun e he =>
    .inl (List.mem_map_of_mem he)
  refine ⟨hr.range, hr.flows, hr.exits, fun x hx => ?_, hr.continues⟩
  obtain rfl : x = g.points.size := by simpa [eq_comm] using hx
  exact h.range.landing (by decide) _ _ fun e he => (h.flows e he).lt_size

/-- Building may go on at the head of a loop, once the points of the loop are there. -/
lemma loopPoints (h : Ready g t ends) (n : Node) {e : OpenEnd} (he : e.point = g.points.size) :
    Ready (g.loopPoints n) ⟨some (g.points.size + 1), some g.points.size⟩ (ends ++ [e]) := by
  have hg : Grown (OpenEnd.points ends) t g (g.addPoint .loop n.span (some n)) :=
    (Grown.refl _ t g).addPoint _ _ _
  have hr : Ready (g.addPoint .loop n.span (some n)) t (ends ++ [e]) := by
    refine h.grown hg (fun o ho => ?_) fun o ho => ?_
    · rcases List.mem_append.1 ho with ho | ho
      · exact (h.flows o ho).grown hg
      · obtain rfl := List.mem_singleton.1 ho
        exact ⟨.loop, by simp [he], by decide, fun _ => rfl⟩
    · rcases List.mem_append.1 ho with ho | ho
      · exact .inl (List.mem_map_of_mem ho)
      · obtain rfl := List.mem_singleton.1 ho
        exact .inr (by omega)
  have hm := hr.merge n
  rw [addPoint_size] at hm
  refine ⟨hm.range, hm.flows, hm.exits, hm.breaks, fun x hx => ?_⟩
  obtain rfl : x = g.points.size := by simpa [eq_comm] using hx
  exact loopPoints_kind?_head n

/-- The head of a loop is entered from the open ends, and the body of the loop from its head. -/
lemma loopHead (h : Ready g t ends) (n : Node) :
    Built g ((g.loopPoints n).addEdges (ends.map (·.edgeTo g.points.size))) ∧
      Ready ((g.loopPoints n).addEdges (ends.map (·.edgeTo g.points.size)))
        ⟨some (g.points.size + 1), some g.points.size⟩ [.labelled g.points.size .whenTrue] := by
  have hr := h.loopPoints n (e := .labelled g.points.size .whenTrue) rfl
  constructor
  · refine (Built.loopPoints g n).trans (Built.link ?_ fun e he => hr.flows e (by simp [he]))
    refine Landing.addPoint (h.range.landing (by decide) _ _ fun e he => ?_) _ _ _
    exact (h.flows e he).lt_size
  · refine (hr.addEdges fun e he => ?_).reuse fun e he => ⟨e, by simp_all, rfl, rfl⟩
    obtain ⟨o, ho, rfl⟩ := List.mem_map.1 he
    exact ⟨o, by simp [ho], rfl⟩

end Ready

/-- Building went on from the graph by steps, and left open ends by which control may flow on. -/
structure Continues (g : Graph) (r : List OpenEnd × Graph) : Prop where
  built : Built g r.2
  flows : ∀ e ∈ r.1, r.2.Open e

namespace Continues

variable {g g₁ : Graph} {r r' : List OpenEnd × Graph}

lemma after (h : Continues g₁ r) (hg : Built g g₁) : Continues g r :=
  ⟨hg.trans h.built, h.flows⟩

lemma again (h : Continues g r) (h' : Continues r.2 r') {S : List Nat} {t : Targets}
    (hg : Grown S t r.2 r'.2) : Continues g (r.1 ++ r'.1, r'.2) := by
  refine ⟨h.built.trans h'.built, fun e he => ?_⟩
  rcases List.mem_append.1 he with he | he
  · exact (h.flows e he).grown hg
  · exact h'.flows e he

lemma join (h : Continues g r) (hr : r.2.InRange) (n : Node) : Continues g (r.2.join n r.1) := by
  obtain ⟨_ | ⟨first, rest⟩, g'⟩ := r
  · exact h
  · simp only [Graph.join]
    split_ifs
    · exact ⟨h.built, by simpa using h.flows first List.mem_cons_self⟩
    · refine ⟨h.built.trans (Built.pointAfter hr h.flows (by decide) (by decide) n), ?_⟩
      intro e he
      obtain rfl := List.mem_singleton.1 he
      exact ⟨.merge, by simp [Graph.pointAfter, OpenEnd.plain], by decide, by simp [OpenEnd.plain]⟩

/-- A loop is closed whose body was built. -/
lemma closeLoop {head : Nat} (h : Continues g r)
    (hr : Ready r.2 ⟨some (head + 1), some head⟩ r.1) (hm : r.2.kind? (head + 1) = some .merge) :
    Continues g ([.plain (head + 1)], r.2.closeLoop head r.1) := by
  have hhead : r.2.kind? head = some .loop := hr.continues head rfl
  have hr' : Ready (r.2.addEdges (r.1.map (·.backTo head))) ⟨some (head + 1), some head⟩ r.1 := by
    refine hr.addEdges fun e he => ?_
    obtain ⟨o, ho, rfl⟩ := List.mem_map.1 he
    exact ⟨o, ho, rfl⟩
  have hexit := hr'.breaks (head + 1) rfl
  -- The edge out of the loop does not lead back: nothing has left the point behind the loop.
  have hadm : (r.2.addEdges (r.1.map (·.backTo head))).Admissible
      ⟨head, head + 1, some .whenFalse, false⟩ :=
    ⟨⟨.loop, by simpa using hhead, by decide⟩, hexit.kind, by simp, fun _ => ⟨by simp, hexit.sink⟩⟩
  refine ⟨(h.built.trans (Built.linkBack hhead hr.flows)).tail (.edge hadm), fun e he => ?_⟩
  obtain rfl := List.mem_singleton.1 he
  exact ⟨.merge, by simpa [Graph.closeLoop, OpenEnd.plain] using hm, by decide,
    by simp [OpenEnd.plain]⟩

/-- A switch is closed whose cases were built. -/
lemma closeSwitch {branch merge : Nat} {c : Option Nat} (h : Continues g r)
    (hr : Ready r.2 ⟨some merge, c⟩ (.plain branch :: r.1)) (hm : r.2.kind? merge = some .merge)
    (d : Bool) :
    Continues g ((r.2.closeSwitch branch merge d r.1).endAt merge,
      r.2.closeSwitch branch merge d r.1) := by
  have hends : Ready r.2 ⟨some merge, c⟩ r.1 :=
    hr.reuse fun e he => ⟨e, List.mem_cons_of_mem _ he, rfl, rfl⟩
  have hlink : Built g (r.2.addEdges (r.1.map (·.edgeTo merge))) :=
    h.built.trans (Built.link (hends.breaks merge rfl) hends.flows)
  have hr' : Ready (r.2.addEdges (r.1.map (·.edgeTo merge))) ⟨some merge, c⟩
      [.labelled branch .onDefault] := by
    refine (hr.addEdges fun e he => ?_).reuse fun e he => ?_
    · obtain ⟨o, ho, rfl⟩ := List.mem_map.1 he
      exact ⟨o, List.mem_cons_of_mem _ ho, rfl⟩
    · obtain rfl := List.mem_singleton.1 he
      exact ⟨.plain branch, List.mem_cons_self, rfl, rfl⟩
  refine ⟨?_, fun e he => ?_⟩
  · cases d with
    | true => exact hlink
    | false => exact hlink.trans (Built.link (hr'.breaks merge rfl) hr'.flows)
  · obtain rfl : e = .plain merge := by
      unfold endAt at he
      split_ifs at he <;> simp_all
    exact ⟨.merge, by simpa [Graph.closeSwitch, OpenEnd.plain] using hm, by decide,
      by simp [OpenEnd.plain]⟩

end Continues

mutual

theorem Skeleton.continues (s : Skeleton) {t : Targets} {ends : List OpenEnd} {g : Graph}
    (h : Ready g t ends) : Continues g (s.build t ends g) := by
  match s with
  | .pass =>
    rw [Skeleton.build]
    exact ⟨.refl, h.flows⟩
  | .plain n =>
    rw [Skeleton.build]
    refine ⟨Built.pointAfter h.range h.flows (by decide) (by decide) n, ?_⟩
    exact (h.pointAfter (by decide) n rfl rfl).flows
  | .leave k n =>
    rw [Skeleton.build]
    -- The point of the jump is no open end: control does not flow on from it.
    have hg := grown_pointAfter k.kind n ends t g
    have hnew : ∀ e ∈ [OpenEnd.plain g.points.size],
        e.point ∈ OpenEnd.points ends ∨ g.points.size ≤ e.point := by simp [OpenEnd.plain]
    have hb : Built g (g.pointAfter k.kind n ends) :=
      .pointAfter h.range h.flows k.kind_ne_entry k.kind_ne_exit n
    refine ⟨hb.trans (Built.leave ?_ (fun hb x hx => ?_) fun hb x hx => ?_), by simp⟩
    · exact ⟨k.kind, by simp [Graph.pointAfter], k.kind_ne_exit⟩
    · -- Only `continue` leads back, and it does so to the head of a loop.
      cases k <;> simp [Jump.back] at hb
      exact hg.kind? (h.continues x (by simpa [Targets.of] using hx))
    · -- What does not lead back leads to a point that has no successors yet.
      cases k with
      | returns => exact (h.exits x (by simpa [Targets.of] using hx)).grown hg hnew
      | throws => simp [Targets.of] at hx
      | breaks => exact (h.breaks x (by simpa [Targets.of] using hx)).grown hg hnew
      | continues => simp [Jump.back] at hb
  | .andThen first dead rest =>
    rw [Skeleton.build]
    have hfirst := first.continues h
    -- If nothing comes out of the first part, the rest gives points without edges.
    split_ifs
    · exact ⟨hfirst.built.trans (Built.addDead _ _), by simp⟩
    · exact (rest.continues (h.next (first.threaded t ends g) hfirst.flows)).after hfirst.built
  | .branch n yes no =>
    rw [Skeleton.build]
    have hb : Built g (g.pointAfter .branch n ends) :=
      .pointAfter h.range h.flows (by decide) (by decide) n
    have hr : Ready (g.pointAfter .branch n ends) t [.labelled g.points.size .whenTrue] :=
      h.pointAfter (by decide) n rfl rfl
    -- The other side starts at the branch again, which stays open while the first is built.
    have hno := no.continues (hr.again yes .whenFalse)
    exact ((yes.continues hr).again hno (no.threaded t _ _).grown).after hb
  | .attempt body handler =>
    rw [Skeleton.build]
    -- The handler starts in front of the body, from the open ends that the body has used up.
    exact (body.continues h).again (handler.continues (h.again body .onCatch))
      (handler.threaded t _ _).grown
  | .joined n s =>
    rw [Skeleton.build]
    have hs := s.continues h
    exact hs.join (h.range.grown (s.threaded t ends g).grown) n
  | .bareLoop n =>
    rw [Skeleton.build]
    obtain ⟨hb, hr⟩ := h.loopHead n
    have hnone : Continues g
        ([], (g.loopPoints n).addEdges (ends.map (·.edgeTo g.points.size))) := ⟨hb, by simp⟩
    exact hnone.closeLoop (hr.reuse (by simp)) (by simp)
  | .loop n body =>
    rw [Skeleton.build]
    obtain ⟨hb, hr⟩ := h.loopHead n
    have hbody := body.continues hr
    refine (hbody.after hb).closeLoop (hr.next (body.threaded _ _ _) hbody.flows) ?_
    exact (body.threaded _ _ _).grown.kind? (by simp)
  | .doWhile n body =>
    rw [Skeleton.build]
    -- The end that is open at the head leads back, since the body comes first.
    have hr := h.loopPoints n (e := ⟨g.points.size, some .whenTrue, true⟩) rfl
    have hbody := body.continues hr
    refine (hbody.after (Built.loopPoints g n)).closeLoop
      (hr.next (body.threaded _ _ _) hbody.flows) ?_
    exact (body.threaded _ _ _).grown.kind? (by simp)
  | .switch n cases =>
    rw [Skeleton.build]
    have hb : Built g ((g.pointAfter .branch n ends).addPoint .merge n.span (some n)) :=
      (Built.pointAfter h.range h.flows (by decide) (by decide) n).tail
        (.point _ _ (by decide) (by decide))
    have hr : Ready (g.pointAfter .branch n ends) t [.plain g.points.size] :=
      h.pointAfter (by decide) n rfl rfl
    have hm := hr.merge n
    have hcases := cases.continues hm
    -- The branch stays open for all cases, and behind them for a missing default.
    refine (hcases.after hb).closeSwitch
      (hm.keep (cases.threaded _ _ _ _) hcases.flows fun _ he => he) ?_ _
    exact (cases.threaded _ _ _ _).grown.kind? (addPoint_kind?_size _ _ _)
  | .finally s last =>
    rw [Skeleton.build]
    have hs := s.continues h
    -- If nothing comes out of the rest, the last part starts in front of it again.
    split_ifs
    · have hlast := last.continues (h.again s .onFinally)
      exact ⟨hs.built.trans hlast.built, by simp⟩
    · have hr := h.next (s.threaded t ends g) hs.flows
      exact (last.continues (hr.relabel .onFinally)).after hs.built

theorem Cases.continues (cs : Cases) {branch : Nat} {t : Targets} {ends : List OpenEnd} {g : Graph}
    (h : Ready g t (.plain branch :: ends)) : Continues g (cs.build branch t ends g) := by
  match cs with
  | .nil =>
    rw [Cases.build]
    exact ⟨.refl, fun e he => h.flows e (List.mem_cons_of_mem _ he)⟩
  | .cons label body rest =>
    rw [Cases.build]
    have hbody := body.continues (h.case label)
    exact (rest.continues (h.afterCase (body.threaded t _ g) hbody.flows)).after hbody.built

end

/-! ### Whole graphs -/

lemma Ready.fresh (sp : Span) : Ready (.fresh sp) ⟨none, none⟩ [.plain 0] := by
  have hsink (p : Nat) : (Graph.fresh sp).IsSink p := by
    rintro v ⟨e, he, -⟩
    simp [Graph.fresh] at he
  refine ⟨fun u v ha => absurd ha (hsink u v), fun e he => ?_, fun x hx => ?_, by simp, by simp⟩
  · obtain rfl := List.mem_singleton.1 he
    exact ⟨.entry, rfl, by decide, by simp [OpenEnd.plain]⟩
  · obtain rfl := List.mem_singleton.1 hx
    exact ⟨⟨.exit, rfl, by decide⟩, hsink 1, by simp [OpenEnd.plain]⟩

/-- The graph of a skeleton is built from a fresh one. -/
theorem Skeleton.built_graphFrom (s : Skeleton) (sp : Span) :
    Built (.fresh sp) (s.graphFrom (.fresh sp)) := by
  have hs := s.continues (.fresh sp)
  have ht := s.threaded ⟨none, none⟩ [.plain 0] (.fresh sp)
  have hr := (Ready.fresh sp).next ht hs.flows
  -- Building adds no exit to that of the fresh graph.
  have hone : 1 ∈ (s.build ⟨none, none⟩ [.plain 0] (.fresh sp)).2.exits := by
    rw [ht.grown.exits]
    exact List.mem_singleton.2 rfl
  rw [s.graphFrom_fresh]
  exact hs.built.trans (Built.link (hr.exits 1 hone) hr.flows)

theorem built_programGraph (d : Nat) (n : Node) : Built (.fresh n.span) (programGraph d n) :=
  (skeleton d n).built_graphFrom n.span

theorem built_functionGraph (d : Nat) (n : Node) : Built (.fresh n.span) (functionGraph d n) :=
  (Skeleton.ofBody (skeleton (d - 1)) n).built_graphFrom n.span

end Arbor.Flow
