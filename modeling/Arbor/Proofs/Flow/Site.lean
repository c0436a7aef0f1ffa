import Arbor.Proofs.Flow.Construction

/-!
# Sites

While a skeleton is built, its parts are built one after the other. A site is what one of them
finds: the loops and switches that it stands in, the open ends in front of it, and the graph that is
there by then. The points of a finished graph were each added at one site, and what was said there
about jumps remains true, since control never flows on from a jump.
-/

namespace Arbor.Flow

open Relation Flow.Graph

/-! ### Loops and switches -/

/-- A loop or a switch that is being built. -/
structure Frame where
  node : Node
  /-- Where `continue` leads, if it is a loop. -/
  head : Option Nat
  /-- Where `break` leads. -/
  exit : Nat

namespace Frame

/-- The loop whose head is the point `head`. -/
def loop (n : Node) (head : Nat) : Frame := ⟨n, some head, head + 1⟩

/-- The switch behind which is the point `merge`. -/
def switch (n : Node) (merge : Nat) : Frame := ⟨n, none, merge⟩

/-- Jumps lead to the first frame that they can leave or repeat. -/
def targets (frames : List Frame) : Targets :=
  ⟨frames.head?.map (·.exit), frames.findSome? (·.head)⟩

end Frame

/-! ### Sites and their parts -/

/-- A skeleton where it is built, inside some frames of which the innermost is the first. -/
structure Site where
  skeleton : Skeleton
  frames : List Frame
  ends : List OpenEnd
  graph : Graph

/-- What is built at the site. -/
def Site.build (s : Site) : List OpenEnd × Graph :=
  s.skeleton.build (Frame.targets s.frames) s.ends s.graph

/-- The body of one of the cases, where it is built. -/
inductive Cases.Part (branch : Nat) (frames : List Frame) :
    Cases → List OpenEnd → Graph → Site → Prop where
  | here (label : Label) (body : Skeleton) (rest : Cases) (ends : List OpenEnd) (g : Graph) :
    Part branch frames (.cons label body rest) ends g
      ⟨body, frames, ends ++ [.labelled branch label], g⟩
  | later {label : Label} {body : Skeleton} {rest : Cases} {ends : List OpenEnd} {g : Graph}
      {s : Site} {r : List OpenEnd × Graph}
      (hr : r = body.build (Frame.targets frames) (ends ++ [.labelled branch label]) g)
      (h : Part branch frames rest r.1 r.2 s) :
    Part branch frames (.cons label body rest) ends g s

/-- The second site is that of a part of the first. -/
inductive Site.Part : Site → Site → Prop where
  | first (a b : Skeleton) (dead : List Node) (fs : List Frame) (ends : List OpenEnd) (g : Graph) :
    Part ⟨.andThen a dead b, fs, ends, g⟩ ⟨a, fs, ends, g⟩
  | rest {a b : Skeleton} {dead : List Node} {fs : List Frame} {ends : List OpenEnd} {g : Graph}
      {r : List OpenEnd × Graph} (hr : r = a.build (Frame.targets fs) ends g)
      (hopen : r.1.isEmpty = false) :
    Part ⟨.andThen a dead b, fs, ends, g⟩ ⟨b, fs, r.1, r.2⟩
  | yes (n : Node) (a b : Skeleton) (fs : List Frame) (ends : List OpenEnd) (g : Graph) :
    Part ⟨.branch n a b, fs, ends, g⟩
      ⟨a, fs, [.labelled g.points.size .whenTrue], g.pointAfter .branch n ends⟩
  | no {n : Node} {a b : Skeleton} {fs : List Frame} {ends : List OpenEnd} {g : Graph}
      {r : List OpenEnd × Graph}
      (hr : r = a.build (Frame.targets fs) [.labelled g.points.size .whenTrue]
        (g.pointAfter .branch n ends)) :
    Part ⟨.branch n a b, fs, ends, g⟩ ⟨b, fs, [.labelled g.points.size .whenFalse], r.2⟩
  | tried (a b : Skeleton) (fs : List Frame) (ends : List OpenEnd) (g : Graph) :
    Part ⟨.attempt a b, fs, ends, g⟩ ⟨a, fs, ends, g⟩
  | handler {a b : Skeleton} {fs : List Frame} {ends : List OpenEnd} {g : Graph}
      {r : List OpenEnd × Graph} (hr : r = a.build (Frame.targets fs) ends g) :
    Part ⟨.attempt a b, fs, ends, g⟩ ⟨b, fs, ends.map (·.relabel .onCatch), r.2⟩
  | joined (n : Node) (a : Skeleton) (fs : List Frame) (ends : List OpenEnd) (g : Graph) :
    Part ⟨.joined n a, fs, ends, g⟩ ⟨a, fs, ends, g⟩
  | loop (n : Node) (a : Skeleton) (fs : List Frame) (ends : List OpenEnd) (g : Graph) :
    Part ⟨.loop n a, fs, ends, g⟩
      ⟨a, .loop n g.points.size :: fs, [.labelled g.points.size .whenTrue],
        (g.loopPoints n).addEdges (ends.map (·.edgeTo g.points.size))⟩
  | doWhile (n : Node) (a : Skeleton) (fs : List Frame) (ends : List OpenEnd) (g : Graph) :
    Part ⟨.doWhile n a, fs, ends, g⟩
      ⟨a, .loop n g.points.size :: fs, ends ++ [⟨g.points.size, some .whenTrue, true⟩],
        g.loopPoints n⟩
  | case {n : Node} {cs : Cases} {fs : List Frame} {ends : List OpenEnd} {g g' : Graph} {s : Site}
      (hg : g' = g.pointAfter .branch n ends)
      (h : cs.Part g.points.size (.switch n g'.points.size :: fs) []
        (g'.addPoint .merge n.span (some n)) s) :
    Part ⟨.switch n cs, fs, ends, g⟩ s
  | guarded (a b : Skeleton) (fs : List Frame) (ends : List OpenEnd) (g : Graph) :
    Part ⟨.finally a b, fs, ends, g⟩ ⟨a, fs, ends, g⟩
  | last {a b : Skeleton} {fs : List Frame} {ends : List OpenEnd} {g : Graph}
      {r : List OpenEnd × Graph} (hr : r = a.build (Frame.targets fs) ends g) :
    Part ⟨.finally a b, fs, ends, g⟩
      ⟨b, fs, (if r.1.isEmpty then ends else r.1).map (·.relabel .onFinally), r.2⟩

/-- What a last part adds is added last. -/
lemma Skeleton.build_finally (a b : Skeleton) (t : Targets) (ends : List OpenEnd) (g : Graph) :
    ((Skeleton.finally a b).build t ends g).2 =
      (b.build t ((if (a.build t ends g).1.isEmpty then ends else (a.build t ends g).1).map
        (·.relabel .onFinally)) (a.build t ends g).2).2 := by
  rw [build]
  split_ifs
  · rfl
  · rfl

/-- The second site is one that building at the first comes to. -/
abbrev Site.Meets : Site → Site → Prop := ReflTransGen Site.Part

/-! ### Graphs that keep their jumps -/

lemma Jump.not_flowsOn (k : Jump) : k.kind.flowsOn = false := by
  cases k <;> rfl

namespace Graph

variable {g g₁ g₂ : Graph} {ends : List OpenEnd} {t : Targets} {S : List Nat} {p i : Nat}
  {k : PointKind} {x : Node}

/-- The point is that of a jump. -/
def IsJump (g : Graph) (p : Nat) : Prop := ∃ k : Jump, g.kind? p = some k.kind

/-- The point is of the kind and stands for the node. -/
def StandsFor (g : Graph) (i : Nat) (k : PointKind) (x : Node) : Prop :=
  ∃ p, g.points[i]? = some p ∧ p.kind = k ∧ p.span = x.span ∧ p.origin = some x

/-- The edges that leave a point, in the order in which they were added. -/
def outgoing (g : Graph) (p : Nat) : List Edge := g.edges.toList.filter (·.source == p)

/-- The second graph has what the first has, and no jump of the first leads anywhere new. -/
structure Kept (g g' : Graph) : Prop where
  exits : g'.exits = g.exits
  points : ∀ (i : Nat) (p : Point), g.points[i]? = some p → ∃ q, g'.points[i]? = some q ∧ p.Grew q
  edges : ∃ added, g'.edges.toList = g.edges.toList ++ added ∧ ∀ e ∈ added, ¬ g.IsJump e.source

lemma not_isJump_of_flowsOn (h : g.kind? p = some k) (hk : k.flowsOn = true) : ¬ g.IsJump p := by
  rintro ⟨j, hj⟩
  obtain rfl : k = j.kind := Option.some.inj (h.symm.trans hj)
  rw [j.not_flowsOn] at hk
  cases hk

lemma Open.not_isJump {e : OpenEnd} (h : g.Open e) : ¬ g.IsJump e.point := by
  obtain ⟨k, hk, hflows, -⟩ := h
  exact not_isJump_of_flowsOn hk hflows

lemma StandsFor.kind? (h : g.StandsFor i k x) : g.kind? i = some k := by
  obtain ⟨p, hp, hk, -⟩ := h
  exact kind?_eq_some_iff.2 ⟨p, hp, hk⟩

/-- A point stands for one node. -/
lemma StandsFor.unique {k' : PointKind} {x' : Node} (h : g.StandsFor i k x)
    (h' : g.StandsFor i k' x') : k = k' ∧ x = x' := by
  obtain ⟨p, hp, hkind, -, horigin⟩ := h
  obtain ⟨q, hq, hkind', -, horigin'⟩ := h'
  obtain rfl : p = q := Option.some.inj (hp.symm.trans hq)
  exact ⟨hkind.symm.trans hkind', Option.some.inj (horigin.symm.trans horigin')⟩

lemma StandsFor.of_points (h : g.StandsFor i k x)
    (hg : ∀ (i : Nat) (p : Point), g.points[i]? = some p → ∃ q, g₁.points[i]? = some q ∧ p.Grew q) :
    g₁.StandsFor i k x := by
  obtain ⟨p, hp, hkind, hspan, horigin⟩ := h
  obtain ⟨q, hq, hpq⟩ := hg i p hp
  exact ⟨q, hq, hpq.kind.trans hkind, hpq.span.trans hspan, hpq.origin.trans horigin⟩

lemma StandsFor.grown (h : g.StandsFor i k x) (hg : Grown S t g g₁) : g₁.StandsFor i k x :=
  h.of_points hg.points

lemma standsFor_addPoint (g : Graph) (k : PointKind) (x : Node) :
    (g.addPoint k x.span (some x)).StandsFor g.points.size k x := by
  refine ⟨⟨g.points.size, k, x.span, some x, [], [], false⟩, ?_, rfl, rfl, rfl⟩
  rw [addPoint_point?, if_pos rfl]

lemma StandsFor.addEdge (h : g.StandsFor i k x) (e : Edge) : (g.addEdge e).StandsFor i k x := by
  obtain ⟨heq, -⟩ | ⟨heq, -⟩ := addEdge_cases g e
  · rwa [heq]
  · rw [heq]
    refine h.of_points fun j q hq => ⟨q.note j e, ?_, .note q j e⟩
    rw [insertEdge_point?, hq, Option.map_some]

lemma StandsFor.addEdges (h : g.StandsFor i k x) (es : List Edge) :
    (g.addEdges es).StandsFor i k x := by
  induction es generalizing g with
  | nil => exact h
  | cons e es ih => exact ih (h.addEdge e)

lemma standsFor_pointAfter (g : Graph) (k : PointKind) (x : Node) (ends : List OpenEnd) :
    (g.pointAfter k x ends).StandsFor g.points.size k x :=
  (standsFor_addPoint g k x).addEdges _

lemma standsFor_loopHead (g : Graph) (x : Node) :
    (g.loopPoints x).StandsFor g.points.size .loop x :=
  (standsFor_addPoint g .loop x).grown ((Grown.refl [] ⟨none, none⟩ _).addPoint _ _ _)

lemma standsFor_loopExit (g : Graph) (x : Node) :
    (g.loopPoints x).StandsFor (g.points.size + 1) .merge x := by
  rw [← addPoint_size .loop x.span (some x)]
  exact standsFor_addPoint _ .merge x

namespace Kept

lemma refl (g : Graph) : g.Kept g :=
  ⟨rfl, fun _ p hp => ⟨p, hp, .refl p⟩, [], by simp, by simp⟩

lemma standsFor (h : g.Kept g₁) (hi : g.StandsFor i k x) : g₁.StandsFor i k x :=
  hi.of_points h.points

lemma kind? (h : g.Kept g₁) (hk : g.kind? i = some k) : g₁.kind? i = some k := by
  obtain ⟨p, hp, rfl⟩ := kind?_eq_some_iff.1 hk
  obtain ⟨q, hq, hpq⟩ := h.points i p hp
  exact kind?_eq_some_iff.2 ⟨q, hq, hpq.kind⟩

lemma size_le (h : g.Kept g₁) : g.points.size ≤ g₁.points.size := by
  by_contra hlt
  obtain ⟨p, hp⟩ : ∃ p, g.points[g₁.points.size]? = some p :=
    ⟨_, Array.getElem?_eq_getElem (Nat.not_le.1 hlt)⟩
  obtain ⟨q, hq, -⟩ := h.points _ p hp
  exact Nat.lt_irrefl _ (Array.getElem?_eq_some_iff.1 hq).1

lemma isJump (h : g.Kept g₁) (hp : g.IsJump p) : g₁.IsJump p := by
  obtain ⟨j, hj⟩ := hp
  exact ⟨j, h.kind? hj⟩

lemma trans (h : g.Kept g₁) (h' : g₁.Kept g₂) : g.Kept g₂ := by
  refine ⟨h'.exits.trans h.exits, fun i p hp => ?_, ?_⟩
  · obtain ⟨q, hq, hpq⟩ := h.points i p hp
    obtain ⟨r, hr, hqr⟩ := h'.points i q hq
    exact ⟨r, hr, hpq.trans hqr⟩
  · obtain ⟨added, heq, hadded⟩ := h.edges
    obtain ⟨added', heq', hadded'⟩ := h'.edges
    refine ⟨added ++ added', by rw [heq', heq, List.append_assoc], fun e he hjump => ?_⟩
    rcases List.mem_append.1 he with he | he
    · exact hadded e he hjump
    · exact hadded' e he (h.isJump hjump)

/-- A graph that grows at points which are no jumps keeps its jumps. -/
lemma of_grown (h : Grown S t g g₁) (hS : ∀ x ∈ S, ¬ g.IsJump x) : g.Kept g₁ := by
  obtain ⟨added, heq, hadded⟩ := h.edges
  refine ⟨h.exits, h.points, added, heq, fun e he hjump => ?_⟩
  rcases (hadded e he).source with hs | hs
  · exact hS _ hs hjump
  · obtain ⟨j, hj⟩ := hjump
    have := lt_size_of_kind? hj
    omega

lemma addEdge (h : g.Kept g₁) {e : Edge} (he : ¬ g₁.IsJump e.source) : g.Kept (g₁.addEdge e) := by
  obtain ⟨heq, -⟩ | ⟨heq, -⟩ := addEdge_cases g₁ e
  · rwa [heq]
  · rw [heq]
    refine h.trans ⟨rfl, fun i p hp => ⟨p.note i e, ?_, .note p i e⟩, [e], ?_, ?_⟩
    · rw [insertEdge_point?, hp, Option.map_some]
    · simp [insertEdge]
    · intro e' he'
      rwa [List.mem_singleton.1 he']

lemma addEdges (h : g.Kept g₁) {es : List Edge} (hes : ∀ e ∈ es, ¬ g₁.IsJump e.source) :
    g.Kept (g₁.addEdges es) := by
  induction es generalizing g₁ with
  | nil => exact h
  | cons e es ih =>
    refine ih (h.addEdge (hes e (by simp))) fun e' he' => ?_
    simpa [IsJump] using hes e' (by simp [he'])

/-- Edges from open ends are none of jumps. -/
lemma link (h : g.Kept g₁) (hends : ∀ e ∈ ends, g₁.Open e) {edge : OpenEnd → Edge}
    (hedge : ∀ e, (edge e).source = e.point) : g.Kept (g₁.addEdges (ends.map edge)) := by
  refine h.addEdges fun e he => ?_
  obtain ⟨o, ho, rfl⟩ := List.mem_map.1 he
  rw [hedge o]
  exact (hends o ho).not_isJump

/-- What leaves a jump stays as it is. -/
lemma outgoing (h : g.Kept g₁) (hp : g.IsJump p) : g₁.outgoing p = g.outgoing p := by
  obtain ⟨added, heq, hadded⟩ := h.edges
  have hnone : added.filter (·.source == p) = [] := by
    rw [List.filter_eq_nil_iff]
    intro e he hs
    obtain rfl : e.source = p := by simpa using hs
    exact hadded e he hp
  rw [Graph.outgoing, Graph.outgoing, heq, List.filter_append, hnone, List.append_nil]

end Kept

end Graph

lemma Ready.kept {g g' : Graph} {t t' : Targets} {ends : List OpenEnd} (h : Ready g t ends)
    (hg : Grown (OpenEnd.points ends) t' g g') : g.Kept g' := by
  refine .of_grown hg fun x hx => ?_
  obtain ⟨e, he, rfl⟩ := List.mem_map.1 hx
  exact (h.flows e he).not_isJump

lemma Ready.kept_build {g : Graph} {t : Targets} {ends : List OpenEnd} (h : Ready g t ends)
    (s : Skeleton) : g.Kept (s.build t ends g).2 :=
  h.kept (s.threaded t ends g).grown

/-- A branch point in front of what is built. -/
lemma Ready.branchPoint {g : Graph} {t : Targets} {ends : List OpenEnd} (h : Ready g t ends)
    (n : Node) : Built g (g.pointAfter .branch n ends) ∧ g.Kept (g.pointAfter .branch n ends) :=
  ⟨.pointAfter h.range h.flows (by decide) (by decide) n,
    h.kept (grown_pointAfter .branch n ends t g)⟩

/-! ### What is built at a site stays -/

/-- Building may start at the site. -/
def Site.Ready (s : Site) : Prop := Flow.Ready s.graph (Frame.targets s.frames) s.ends

/-- The second site is reached while building at the first, and what is built there stays. -/
structure Site.Within (s s' : Site) : Prop where
  ready : s'.Ready
  built : Built s.graph s'.graph
  before : s.graph.Kept s'.graph
  after : s'.build.2.Kept s.build.2

namespace Site

lemma Within.refl {s : Site} (h : s.Ready) : s.Within s := ⟨h, .refl, .refl _, .refl _⟩

lemma Within.trans {s s₁ s₂ : Site} (h : s.Within s₁) (h' : s₁.Within s₂) : s.Within s₂ :=
  ⟨h'.ready, h.built.trans h'.built, h.before.trans h'.before, h'.after.trans h.after⟩

/-- What is new at the second site is new at the first. -/
lemma Within.isNew {s s' : Site} {i : Nat} (h : s.Within s') (hi : s'.graph.IsNew s'.build.2 i) :
    s.graph.IsNew s.build.2 i :=
  ⟨Nat.le_trans h.before.size_le hi.1, Nat.lt_of_lt_of_le hi.2 h.after.size_le⟩

end Site

/-- Closing a loop adds edges from open ends and from its head. -/
lemma kept_closeLoop {r : List OpenEnd × Graph} {head : Nat}
    (h : Ready r.2 ⟨some (head + 1), some head⟩ r.1) : r.2.Kept (r.2.closeLoop head r.1) := by
  have hback : r.2.Kept (r.2.addEdges (r.1.map (·.backTo head))) :=
    (Kept.refl _).link h.flows fun _ => rfl
  exact hback.addEdge (not_isJump_of_flowsOn (hback.kind? (h.continues head rfl)) rfl)

/-- Closing a switch adds edges from open ends and from its branch. -/
lemma kept_closeSwitch {r : List OpenEnd × Graph} {t : Targets} {branch merge : Nat}
    (h : Ready r.2 t (.plain branch :: r.1)) (d : Bool) :
    r.2.Kept (r.2.closeSwitch branch merge d r.1) := by
  have hlink : r.2.Kept (r.2.addEdges (r.1.map (·.edgeTo merge))) :=
    (Kept.refl _).link (fun e he => h.flows e (by simp [he])) fun _ => rfl
  refine hlink.addEdges fun e he => ?_
  cases d with
  | true => simp at he
  | false =>
    obtain rfl : e = ⟨branch, merge, some .onDefault, false⟩ := by simpa using he
    have hbranch := (h.flows (.plain branch) (by simp)).not_isJump
    simpa [IsJump, OpenEnd.plain] using hbranch

/-- What is built in a case stays when the cases behind it are built. -/
lemma Cases.Part.within {branch : Nat} {fs : List Frame} {cs : Cases} {ends : List OpenEnd}
    {g : Graph} {s : Site} (h : cs.Part branch fs ends g s)
    (hready : Ready g (Frame.targets fs) (.plain branch :: ends)) :
    s.Ready ∧ Built g s.graph ∧ g.Kept s.graph ∧
      s.build.2.Kept (cs.build branch (Frame.targets fs) ends g).2 := by
  induction h with
  | here label body rest ends g =>
    have hbody := body.continues (hready.case label)
    have hnext := hready.afterCase (body.threaded _ _ g) hbody.flows
    refine ⟨hready.case label, .refl, .refl g, ?_⟩
    rw [Cases.build]
    exact hnext.kept (rest.threaded branch _ _ _).grown
  | @later label body rest ends g s r hr h ih =>
    have hbody := body.continues (hready.case label)
    have hnext := hready.afterCase (body.threaded _ _ g) hbody.flows
    subst hr
    obtain ⟨hs, hbuilt, hbefore, hafter⟩ := ih hnext
    refine ⟨hs, hbody.built.trans hbuilt, ?_, ?_⟩
    · exact ((hready.case label).kept_build body).trans hbefore
    · rwa [Cases.build]

namespace Site

/-- What is built in a part stays when building goes on behind it. -/
lemma Part.within {s s' : Site} (h : s.Part s') (hready : s.Ready) : s.Within s' := by
  cases h with
  | first a b dead fs ends g =>
    have ha := a.continues hready
    refine ⟨hready, .refl, .refl g, ?_⟩
    simp only [build, Skeleton.build]
    -- Behind the first part come dead points, or the rest.
    split_ifs
    · exact .of_grown ((Grown.refl [] (Frame.targets fs) _).addDead dead) (by simp)
    · exact (hready.next (a.threaded _ _ _) ha.flows).kept_build b
  | @rest a b dead fs ends g r hr hopen =>
    subst hr
    have ha := a.continues hready
    refine ⟨hready.next (a.threaded _ _ _) ha.flows, ha.built, hready.kept_build a, ?_⟩
    simp only [build, Skeleton.build, hopen, Bool.false_eq_true, if_false]
    exact .refl _
  | yes n a b fs ends g =>
    have hyes : Flow.Ready (g.pointAfter .branch n ends) (Frame.targets fs)
        [.labelled g.points.size .whenTrue] := hready.pointAfter (by decide) n rfl rfl
    obtain ⟨hpoint, hbranch⟩ := Ready.branchPoint hready n
    refine ⟨hyes, hpoint, hbranch, ?_⟩
    simp only [build, Skeleton.build]
    -- The other side is built behind this one.
    exact (hyes.again a .whenFalse).kept_build b
  | @no n a b fs ends g r hr =>
    subst hr
    have hyes : Flow.Ready (g.pointAfter .branch n ends) (Frame.targets fs)
        [.labelled g.points.size .whenTrue] := hready.pointAfter (by decide) n rfl rfl
    obtain ⟨hpoint, hbranch⟩ := Ready.branchPoint hready n
    refine ⟨hyes.again a .whenFalse, hpoint.trans (a.continues hyes).built,
      hbranch.trans (hyes.kept_build a), ?_⟩
    simp only [build, Skeleton.build]
    -- Behind the second side nothing is built.
    exact .refl _
  | tried a b fs ends g =>
    refine ⟨hready, .refl, .refl g, ?_⟩
    simp only [build, Skeleton.build]
    exact (hready.again a .onCatch).kept_build b
  | @handler a b fs ends g r hr =>
    subst hr
    refine ⟨hready.again a .onCatch, (a.continues hready).built, hready.kept_build a, ?_⟩
    simp only [build, Skeleton.build]
    exact .refl _
  | joined n a fs ends g =>
    have ha := hready.next (a.threaded _ _ _) (a.continues hready).flows
    refine ⟨hready, .refl, .refl g, ?_⟩
    simp only [build, Skeleton.build]
    -- Only the point at which the ends join may come behind the part.
    exact ha.kept ((Threaded.pass _ (Frame.targets fs) _).join n).grown
  | loop n a fs ends g =>
    obtain ⟨hb, hhead⟩ := hready.loopHead n
    refine ⟨hhead, hb, hready.kept (grown_loopHead n ends (Frame.targets fs) g), ?_⟩
    simp only [build, Skeleton.build]
    -- Closing the loop adds edges from open ends, which are no jumps.
    exact kept_closeLoop (hhead.next (a.threaded _ _ _) (a.continues hhead).flows)
  | doWhile n a fs ends g =>
    have hhead := hready.loopPoints n (e := ⟨g.points.size, some .whenTrue, true⟩) rfl
    refine ⟨hhead, .loopPoints g n, ?_, ?_⟩
    · exact hready.kept ((Grown.refl _ (Frame.targets fs) g).loopPoints n)
    · simp only [build, Skeleton.build]
      exact kept_closeLoop (hhead.next (a.threaded _ _ _) (a.continues hhead).flows)
  | @case n cs fs ends g g' s hg h =>
    subst hg
    have hbranch : Flow.Ready (g.pointAfter .branch n ends) (Frame.targets fs)
        [.plain g.points.size] := hready.pointAfter (by decide) n rfl rfl
    have hmerge := hbranch.merge n
    obtain ⟨hs, hbuilt, hbefore, hafter⟩ := h.within hmerge
    obtain ⟨hpoint, hkept⟩ := Ready.branchPoint hready n
    refine ⟨hs, (hpoint.tail (.point _ _ (by decide) (by decide))).trans hbuilt, ?_, ?_⟩
    · have hgrown := (Grown.refl [] (Frame.targets fs) (g.pointAfter .branch n ends)).addPoint
        .merge n.span (some n)
      exact (hkept.trans (.of_grown hgrown (by simp))).trans hbefore
    · simp only [build, Skeleton.build]
      -- Behind the last case only edges are added, from open ends and from the branch.
      have hcases := hmerge.keep (cs.threaded _ _ _ _) (cs.continues hmerge).flows fun _ he => he
      exact hafter.trans (kept_closeSwitch hcases _)
  | guarded a b fs ends g =>
    refine ⟨hready, .refl, .refl g, ?_⟩
    simp only [build, Skeleton.build]
    split_ifs
    · exact (hready.again a .onFinally).kept_build b
    · have ha := hready.next (a.threaded _ _ _) (a.continues hready).flows
      exact (ha.relabel .onFinally).kept_build b
  | @last a b fs ends g r hr =>
    subst hr
    have ha := a.continues hready
    -- With no open ends, the last part starts again at the ends in front of the whole.
    refine ⟨?_, ha.built, hready.kept_build a, ?_⟩
    · unfold Ready
      dsimp only
      split_ifs
      · exact hready.again a .onFinally
      · exact (hready.next (a.threaded _ _ _) ha.flows).relabel .onFinally
    · rw [build, build, Skeleton.build_finally]
      exact .refl _

/-- What is built at a site that building comes to stays. -/
theorem Meets.within {s s' : Site} (h : s.Meets s') (hready : s.Ready) : s.Within s' := by
  induction h with
  | refl => exact .refl hready
  | tail _ hpart ih => exact ih.trans (hpart.within ih.ready)

end Site

/-! ### Where points are added -/

/-- The skeleton is a loop, with or without a body. -/
inductive Skeleton.IsLoop (n : Node) : Skeleton → Prop where
  | bare : IsLoop n (.bareLoop n)
  | before (body : Skeleton) : IsLoop n (.loop n body)
  | after (body : Skeleton) : IsLoop n (.doWhile n body)

/-- The point is added for the skeleton of the site itself and not for a part of it. It is of the
kind and stands for the node. -/
inductive Site.Adds : Site → Nat → PointKind → Node → Prop where
  | plain (n : Node) (fs : List Frame) (ends : List OpenEnd) (g : Graph) :
    Adds ⟨.plain n, fs, ends, g⟩ g.points.size .statement n
  | leave (k : Jump) (n : Node) (fs : List Frame) (ends : List OpenEnd) (g : Graph) :
    Adds ⟨.leave k n, fs, ends, g⟩ g.points.size k.kind n
  | dead {a b : Skeleton} {dead : List Node} {fs : List Frame} {ends : List OpenEnd} {g : Graph}
      {r : List OpenEnd × Graph} {i : Nat} {x : Node} (hr : r = a.build (Frame.targets fs) ends g)
      (hnone : r.1.isEmpty = true) (hx : dead[i]? = some x) :
    Adds ⟨.andThen a dead b, fs, ends, g⟩ (r.2.points.size + i) .statement x
  | branch (n : Node) (a b : Skeleton) (fs : List Frame) (ends : List OpenEnd) (g : Graph) :
    Adds ⟨.branch n a b, fs, ends, g⟩ g.points.size .branch n
  | joined {n : Node} {a : Skeleton} {fs : List Frame} {ends : List OpenEnd} {g : Graph}
      {r : List OpenEnd × Graph} {i : Nat} (hr : r = a.build (Frame.targets fs) ends g)
      (hi : r.2.IsNew (r.2.join n r.1).2 i) :
    Adds ⟨.joined n a, fs, ends, g⟩ i .merge n
  | head {n : Node} {sk : Skeleton} (h : sk.IsLoop n) (fs : List Frame) (ends : List OpenEnd)
      (g : Graph) :
    Adds ⟨sk, fs, ends, g⟩ g.points.size .loop n
  | exit {n : Node} {sk : Skeleton} (h : sk.IsLoop n) (fs : List Frame) (ends : List OpenEnd)
      (g : Graph) :
    Adds ⟨sk, fs, ends, g⟩ (g.points.size + 1) .merge n
  | switch (n : Node) (cs : Cases) (fs : List Frame) (ends : List OpenEnd) (g : Graph) :
    Adds ⟨.switch n cs, fs, ends, g⟩ g.points.size .branch n
  | merge (n : Node) (cs : Cases) (fs : List Frame) (ends : List OpenEnd) (g : Graph) :
    Adds ⟨.switch n cs, fs, ends, g⟩ (g.points.size + 1) .merge n

lemma Graph.addDead_size (g : Graph) (ns : List Node) :
    (g.addDead ns).points.size = g.points.size + ns.length := by
  induction ns generalizing g with
  | nil => rfl
  | cons n ns ih =>
    have h := ih (g.addPoint .statement n.span (some n))
    rw [addPoint_size] at h
    rw [List.length_cons, ← Nat.add_assoc, Nat.add_right_comm]
    exact h

lemma Graph.addDead_standsFor {g : Graph} {ns : List Node} {i : Nat} {x : Node}
    (h : ns[i]? = some x) : (g.addDead ns).StandsFor (g.points.size + i) .statement x := by
  induction ns generalizing g i with
  | nil => cases h
  | cons n ns ih =>
    cases i with
    | zero =>
      obtain rfl : n = x := Option.some.inj h
      exact (standsFor_addPoint g .statement n).grown ((Grown.refl [] ⟨none, none⟩ _).addDead ns)
    | succ i =>
      have hrest := ih (g := g.addPoint .statement n.span (some n)) (i := i) h
      rwa [addPoint_size, Nat.add_right_comm] at hrest

lemma Graph.join_standsFor {g : Graph} {n : Node} {ends : List OpenEnd} {i : Nat}
    (h : g.IsNew (g.join n ends).2 i) : (g.join n ends).2.StandsFor i .merge n := by
  obtain ⟨hge, hlt⟩ := h
  cases ends with
  | nil => exact absurd hlt (Nat.not_lt.2 hge)
  | cons first rest =>
    simp only [join] at hlt ⊢
    split_ifs at hlt ⊢
    · exact absurd hlt (Nat.not_lt.2 hge)
    · rw [pointAfter_size] at hlt
      obtain rfl : i = g.points.size := by omega
      exact standsFor_pointAfter g .merge n _

/-- The points of a loop are there once it is built. -/
lemma Skeleton.IsLoop.standsFor {sk : Skeleton} {n : Node} (h : sk.IsLoop n) {t : Targets}
    {ends : List OpenEnd} {g : Graph} {j : Nat} {k : PointKind}
    (hj : (g.loopPoints n).StandsFor j k n) : (sk.build t ends g).2.StandsFor j k n := by
  cases h with
  | bare => exact ((hj.addEdges _).addEdges _).addEdge _
  | before body =>
    exact (((hj.addEdges _).grown (body.threaded _ _ _).grown).addEdges _).addEdge _
  | after body => exact ((hj.grown (body.threaded _ _ _).grown).addEdges _).addEdge _

/-- The points of a switch are there once it is built. -/
lemma Skeleton.switch_standsFor {n : Node} {cs : Cases} {t : Targets} {ends : List OpenEnd}
    {g : Graph} {j : Nat} {k : PointKind}
    (hj : ((g.pointAfter .branch n ends).addPoint .merge n.span (some n)).StandsFor j k n) :
    ((Skeleton.switch n cs).build t ends g).2.StandsFor j k n := by
  rw [build]
  exact ((hj.grown (cs.threaded _ _ _ _).grown).addEdges _).addEdges _

lemma Site.Adds.standsFor {s : Site} {i : Nat} {k : PointKind} {x : Node} (h : s.Adds i k x) :
    s.build.2.StandsFor i k x := by
  cases h with
  | plain _ fs ends g => exact standsFor_pointAfter g .statement x ends
  | leave k _ fs ends g => exact (standsFor_pointAfter g k.kind x ends).addEdges _
  | dead hr hnone hx =>
    subst hr
    simp only [build, Skeleton.build, hnone, if_true]
    exact addDead_standsFor hx
  | branch _ a b fs ends g =>
    exact ((standsFor_pointAfter g .branch x ends).grown (a.threaded _ _ _).grown).grown
      (b.threaded _ _ _).grown
  | joined hr hi =>
    subst hr
    exact join_standsFor hi
  | head h fs ends g => exact h.standsFor (standsFor_loopHead g _)
  | exit h fs ends g => exact h.standsFor (standsFor_loopExit g _)
  | switch _ cs fs ends g =>
    exact Skeleton.switch_standsFor ((standsFor_pointAfter g .branch x ends).grown
      ((Grown.refl [] ⟨none, none⟩ _).addPoint .merge x.span (some x)))
  | merge _ cs fs ends g =>
    have hmerge := standsFor_addPoint (g.pointAfter .branch x ends) .merge x
    rw [pointAfter_size] at hmerge
    exact Skeleton.switch_standsFor hmerge

lemma Site.Adds.isNew {s : Site} {i : Nat} {k : PointKind} {x : Node} (h : s.Adds i k x) :
    s.graph.IsNew s.build.2 i := by
  refine ⟨?_, lt_size_of_kind? h.standsFor.kind?⟩
  have hbuild (a : Skeleton) (t : Targets) (ends : List OpenEnd) (g : Graph) :
      g.points.size ≤ (a.build t ends g).2.points.size := (a.threaded t ends g).grown.size_le
  cases h with
  | plain | leave | branch | head | switch => exact Nat.le_refl _
  | exit | merge => exact Nat.le_succ _
  | dead hr => exact hr ▸ Nat.le_add_right_of_le (hbuild _ _ _ _)
  | joined hr hi => exact Nat.le_trans (hr ▸ hbuild _ _ _ _) hi.1

/-- A point that cases add is added in one of them. -/
lemma Cases.exists_part {branch : Nat} (fs : List Frame) {cs : Cases} {ends : List OpenEnd}
    {g : Graph} {i : Nat} (h : g.IsNew (cs.build branch (Frame.targets fs) ends g).2 i) :
    ∃ s, cs.Part branch fs ends g s ∧ s.graph.IsNew s.build.2 i := by
  match cs with
  | .nil =>
    have hlt : i < g.points.size := h.2
    exact absurd hlt (Nat.not_lt.2 h.1)
  | .cons label body rest =>
    rw [Cases.build] at h
    -- The points of a case come before those of the cases behind it.
    by_cases hi : i <
        (body.build (Frame.targets fs) (ends ++ [.labelled branch label]) g).2.points.size
    · exact ⟨_, .here label body rest ends g, h.1, hi⟩
    · obtain ⟨s, hs, hnew⟩ := rest.exists_part fs ⟨Nat.not_lt.1 hi, h.2⟩
      exact ⟨s, .later rfl hs, hnew⟩

/-- A new point is added for the skeleton itself or for a part of it. -/
lemma Site.new_cases (s : Site) {i : Nat} (h : s.graph.IsNew s.build.2 i) :
    (∃ k x, s.Adds i k x) ∨ ∃ s', s.Part s' ∧ s'.graph.IsNew s'.build.2 i := by
  obtain ⟨skeleton, fs, ends, g⟩ := s
  obtain ⟨hge, hlt⟩ := h
  -- The points of a loop are the first two that it adds.
  have hloop {n : Node} {sk : Skeleton} (hsk : sk.IsLoop n) (hi : i < g.points.size + 2)
      (hle : g.points.size ≤ i) : ∃ k x, Adds ⟨sk, fs, ends, g⟩ i k x := by
    obtain rfl | rfl : i = g.points.size ∨ i = g.points.size + 1 := by omega
    · exact ⟨.loop, n, .head hsk fs ends g⟩
    · exact ⟨.merge, n, .exit hsk fs ends g⟩
  match skeleton with
  | .pass =>
    simp only [build, Skeleton.build] at hge hlt ⊢
    omega
  | .plain n =>
    simp only [build, Skeleton.build, pointAfter_size] at hge hlt
    obtain rfl : i = g.points.size := by omega
    exact .inl ⟨_, _, .plain n fs ends g⟩
  | .leave k n =>
    simp only [build, Skeleton.build, addEdges_size, pointAfter_size] at hge hlt
    obtain rfl : i = g.points.size := by omega
    exact .inl ⟨_, _, .leave k n fs ends g⟩
  | .andThen a dead b =>
    simp only [build, Skeleton.build] at hge hlt
    -- The points of the first part come before all others.
    by_cases hi : i < (a.build (Frame.targets fs) ends g).2.points.size
    · exact .inr ⟨_, .first a b dead fs ends g, hge, hi⟩
    · split_ifs at hlt with hopen
      · -- Each dead statement has a point of its own, in their order.
        rw [addDead_size] at hlt
        obtain ⟨j, rfl⟩ := Nat.exists_eq_add_of_le (Nat.not_lt.1 hi)
        have hj : j < dead.length := by omega
        exact .inl ⟨_, _, .dead rfl hopen (List.getElem?_eq_getElem hj)⟩
      · exact .inr ⟨_, .rest rfl (by simpa using hopen), Nat.not_lt.1 hi, hlt⟩
  | .branch n a b =>
    simp only [build, Skeleton.build] at hge hlt
    -- First comes the branch, then the points of one side, then those of the other.
    by_cases hown : i = g.points.size
    · subst hown
      exact .inl ⟨_, _, .branch n a b fs ends g⟩
    · by_cases hi : i < (a.build (Frame.targets fs) [.labelled g.points.size .whenTrue]
          (g.pointAfter .branch n ends)).2.points.size
      · refine .inr ⟨_, .yes n a b fs ends g, ?_, hi⟩
        rw [pointAfter_size]
        omega
      · exact .inr ⟨_, .no rfl, Nat.not_lt.1 hi, hlt⟩
  | .attempt a b =>
    simp only [build, Skeleton.build] at hge hlt
    by_cases hi : i < (a.build (Frame.targets fs) ends g).2.points.size
    · exact .inr ⟨_, .tried a b fs ends g, hge, hi⟩
    · exact .inr ⟨_, .handler rfl, Nat.not_lt.1 hi, hlt⟩
  | .joined n a =>
    simp only [build, Skeleton.build] at hge hlt
    -- Behind the points of the part there is at most the one at which its ends join.
    by_cases hi : i < (a.build (Frame.targets fs) ends g).2.points.size
    · exact .inr ⟨_, .joined n a fs ends g, hge, hi⟩
    · exact .inl ⟨_, _, .joined rfl ⟨Nat.not_lt.1 hi, hlt⟩⟩
  | .bareLoop n =>
    simp only [build, Skeleton.build, closeLoop_size, addEdges_size, loopPoints_size] at hge hlt
    exact .inl (hloop .bare hlt hge)
  | .loop n a =>
    by_cases hi : i < g.points.size + 2
    · exact .inl (hloop (.before a) hi hge)
    · simp only [build, Skeleton.build, closeLoop_size] at hlt
      refine .inr ⟨_, .loop n a fs ends g, ?_, hlt⟩
      simpa using hi
  | .doWhile n a =>
    by_cases hi : i < g.points.size + 2
    · exact .inl (hloop (.after a) hi hge)
    · simp only [build, Skeleton.build, closeLoop_size] at hlt
      refine .inr ⟨_, .doWhile n a fs ends g, ?_, hlt⟩
      simpa using hi
  | .switch n cs =>
    simp only [build, Skeleton.build, closeSwitch_size] at hge hlt
    -- The branch and the point behind the switch come first, then the points of the cases.
    by_cases hbranch : i = g.points.size
    · subst hbranch
      exact .inl ⟨_, _, .switch n cs fs ends g⟩
    · by_cases hmerge : i = g.points.size + 1
      · subst hmerge
        exact .inl ⟨_, _, .merge n cs fs ends g⟩
      · obtain ⟨s, hs, hnew⟩ := cs.exists_part (i := i)
          (.switch n (g.pointAfter .branch n ends).points.size :: fs)
          ⟨by rw [addPoint_size, pointAfter_size]; omega, hlt⟩
        exact .inr ⟨s, .case rfl hs, hnew⟩
  | .finally a b =>
    rw [build, Skeleton.build_finally] at hlt
    by_cases hi : i < (a.build (Frame.targets fs) ends g).2.points.size
    · exact .inr ⟨_, .guarded a b fs ends g, hge, hi⟩
    · exact .inr ⟨_, .last rfl, Nat.not_lt.1 hi, hlt⟩

lemma Cases.Part.sizeOf_lt {branch : Nat} {fs : List Frame} {cs : Cases} {ends : List OpenEnd}
    {g : Graph} {s : Site} (h : cs.Part branch fs ends g s) : sizeOf s.skeleton < sizeOf cs := by
  induction h with
  | here label body rest ends g =>
    simp only [Cases.cons.sizeOf_spec]
    omega
  | later hr h ih =>
    simp only [Cases.cons.sizeOf_spec]
    omega

lemma Site.Part.sizeOf_lt {s s' : Site} (h : s.Part s') :
    sizeOf s'.skeleton < sizeOf s.skeleton := by
  cases h with
  | case hg h =>
    have := h.sizeOf_lt
    simp only [Skeleton.switch.sizeOf_spec]
    omega
  | _ => simp +arith

/-- Every new point was added at a site that building came to. -/
theorem Site.exists_adds (s : Site) {i : Nat} (h : s.graph.IsNew s.build.2 i) :
    ∃ s' k x, s.Meets s' ∧ s'.Adds i k x := by
  rcases s.new_cases h with ⟨k, x, hadds⟩ | ⟨s₁, hpart, hnew⟩
  · exact ⟨s, k, x, .refl, hadds⟩
  · obtain ⟨s', k, x, hmeets, hadds⟩ := s₁.exists_adds hnew
    exact ⟨s', k, x, .head hpart hmeets, hadds⟩
termination_by sizeOf s.skeleton
decreasing_by exact hpart.sizeOf_lt

/-! ### The points of the frames -/

/-- The points of the frame are there. -/
structure Frame.In (f : Frame) (g : Graph) : Prop where
  exit : g.StandsFor f.exit .merge f.node
  head : ∀ h ∈ f.head, g.StandsFor h .loop f.node

lemma Frame.In.kept {f : Frame} {g g' : Graph} (h : f.In g) (hg : g.Kept g') : f.In g' :=
  ⟨hg.standsFor h.exit, fun x hx => hg.standsFor (h.head x hx)⟩

lemma Frame.loop_in (n : Node) (g : Graph) : (Frame.loop n g.points.size).In (g.loopPoints n) := by
  refine ⟨standsFor_loopExit g n, fun x hx => ?_⟩
  cases hx
  exact standsFor_loopHead g n

lemma Cases.Part.frames_eq {branch : Nat} {fs : List Frame} {cs : Cases} {ends : List OpenEnd}
    {g : Graph} {s : Site} (h : cs.Part branch fs ends g s) : s.frames = fs := by
  induction h with
  | here => rfl
  | later _ _ ih => exact ih

namespace Site

/-- The points of all frames of the site are there. -/
def Framed (s : Site) : Prop := ∀ f ∈ s.frames, f.In s.graph

lemma Part.framed {s s' : Site} (h : s.Part s') (hready : s.Ready) (hf : s.Framed) :
    s'.Framed := by
  have hold : ∀ f ∈ s.frames, f.In s'.graph :=
    fun f hmem => (hf f hmem).kept (h.within hready).before
  cases h with
  | first | rest | yes | no | tried | handler | joined | guarded | last => exact hold
  | loop n a fs ends g =>
    have hloop := Frame.loop_in n g
    refine List.forall_mem_cons.2 ⟨⟨hloop.exit.addEdges _, fun x hx => ?_⟩, hold⟩
    exact (hloop.head x hx).addEdges _
  | doWhile n a fs ends g => exact List.forall_mem_cons.2 ⟨Frame.loop_in n g, hold⟩
  | @case n cs fs ends g g' s hg h =>
    subst hg
    have hbranch : Flow.Ready (g.pointAfter .branch n ends) (Frame.targets fs)
        [.plain g.points.size] := hready.pointAfter (by decide) n rfl rfl
    have hswitch : (Frame.switch n (g.pointAfter .branch n ends).points.size).In
        ((g.pointAfter .branch n ends).addPoint .merge n.span (some n)) :=
      ⟨standsFor_addPoint _ .merge n, fun _ hx => by cases hx⟩
    unfold Framed
    rw [h.frames_eq]
    -- The point behind the switch is there before its first case is built.
    exact List.forall_mem_cons.2 ⟨hswitch.kept (h.within (hbranch.merge n)).2.2.1, hold⟩

theorem Meets.framed {s s' : Site} (h : s.Meets s') (hready : s.Ready) (hf : s.Framed) :
    s'.Framed := by
  induction h with
  | refl => exact hf
  | tail hmeets hpart ih => exact hpart.framed (Meets.within hmeets hready).ready ih

end Site

end Arbor.Flow
