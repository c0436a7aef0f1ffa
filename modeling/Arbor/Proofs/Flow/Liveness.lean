import Arbor.Proofs.Flow.Outcome
import Arbor.Proofs.Flow.Reach

/-!
# Points that control gets to

Control gets to a point of the finished graph `G` by its arcs. While `G` is built, the arcs into a
new point are known as soon as the part is built to which the point belongs: later parts lead
further back by jumps only, and the targets of their jumps were there before. Such a part is sealed,
and what is said about it on the way to `G` is true of `G`.
-/

namespace Arbor.Flow

open Relation Flow.Graph

/-! ### Arcs -/

namespace Graph

variable {g : Graph} {ends : List OpenEnd} {u v : Nat}

/-- The successors of the points are what the edges say. -/
def Faithful (g : Graph) : Prop := ∀ u v, v ∈ g.successors u ↔ g.Arc u v

lemma Faithful.addPoint (h : g.Faithful) (k : PointKind) (sp : Span) (o : Option Node) :
    (g.addPoint k sp o).Faithful := by
  intro u v
  rw [addPoint_successors]
  exact h u v

lemma Faithful.addEdge (h : g.Faithful) (e : Edge) : (g.addEdge e).Faithful := by
  obtain ⟨heq, -⟩ | ⟨heq, hs, -⟩ := addEdge_cases g e
  · rwa [heq]
  · intro u v
    rw [heq, mem_insertEdge_successors hs, insertEdge_arc_iff, h u v]

lemma Faithful.addEdges (h : g.Faithful) (es : List Edge) : (g.addEdges es).Faithful := by
  induction es generalizing g with
  | nil => exact h
  | cons e es ih => exact ih (h.addEdge e)

/-- An edge is there once it was added, unless one of its ends is missing. -/
lemma Faithful.addEdge_arc (h : g.Faithful) {e : Edge} (hs : e.source < g.points.size)
    (ht : e.target < g.points.size) :
    (g.addEdge e).Arc u v ↔ g.Arc u v ∨ e.source = u ∧ e.target = v := by
  obtain ⟨heq, hthere⟩ | ⟨heq, -⟩ := addEdge_cases g e
  · rw [heq]
    refine ⟨.inl, fun ha => ?_⟩
    rcases ha with ha | ⟨rfl, rfl⟩
    · exact ha
    · exact (h _ _).1 (hthere hs ht)
  · rw [heq]
    exact insertEdge_arc_iff

lemma Faithful.addEdges_arc (h : g.Faithful) {es : List Edge}
    (hes : ∀ e ∈ es, e.source < g.points.size ∧ e.target < g.points.size) :
    (g.addEdges es).Arc u v ↔ g.Arc u v ∨ ∃ e ∈ es, e.source = u ∧ e.target = v := by
  induction es generalizing g with
  | nil => simp
  | cons e es ih =>
    obtain ⟨hs, ht⟩ := hes e (by simp)
    rw [addEdges_cons, ih (h.addEdge e) fun e' he' => by simpa using hes e' (by simp [he']),
      h.addEdge_arc hs ht]
    simp only [List.mem_cons, exists_eq_or_imp, or_assoc]

/-- Open ends flow on to a point. -/
lemma Faithful.link_arc (h : g.Faithful) {p : Nat} (edge : OpenEnd → Edge)
    (hedge : ∀ e, (edge e).source = e.point ∧ (edge e).target = p)
    (hends : ∀ e ∈ ends, e.point < g.points.size) (hp : p < g.points.size) :
    (g.addEdges (ends.map edge)).Arc u v ↔ g.Arc u v ∨ u ∈ OpenEnd.points ends ∧ v = p := by
  rw [h.addEdges_arc]
  · refine or_congr_right ⟨?_, ?_⟩
    · rintro ⟨_, he, rfl, rfl⟩
      obtain ⟨o, ho, rfl⟩ := List.mem_map.1 he
      exact ⟨(hedge o).1 ▸ List.mem_map_of_mem ho, (hedge o).2⟩
    · rintro ⟨hu, rfl⟩
      obtain ⟨o, ho, rfl⟩ := List.mem_map.1 hu
      exact ⟨edge o, List.mem_map_of_mem ho, hedge o⟩
  · intro e he
    obtain ⟨o, ho, rfl⟩ := List.mem_map.1 he
    rw [(hedge o).1, (hedge o).2]
    exact ⟨hends o ho, hp⟩

lemma Faithful.pointAfter_arc (h : g.Faithful) (hends : ∀ e ∈ ends, e.point < g.points.size)
    (k : PointKind) (n : Node) :
    (g.pointAfter k n ends).Arc u v ↔
      g.Arc u v ∨ u ∈ OpenEnd.points ends ∧ v = g.points.size := by
  refine (h.addPoint k n.span (some n)).link_arc _ (fun _ => ⟨rfl, rfl⟩) (fun e he => ?_) (by simp)
  have := hends e he
  simp only [addPoint_size]
  omega

lemma addDead_arc {ns : List Node} : (g.addDead ns).Arc u v ↔ g.Arc u v := by
  induction ns generalizing g with
  | nil => exact Iff.rfl
  | cons n ns ih => exact ih

end Graph

/-! ### Points that control gets to -/

/-- Control gets to the point in the finished graph `G`. The hopeful view takes that for granted. -/
def Lives (hopeful : Bool) (G : Graph) (u : Nat) : Prop := hopeful = true ∨ G.Reachable u

/-- Control gets to one of the open ends. -/
def Live (hopeful : Bool) (G : Graph) (ends : List OpenEnd) : Prop :=
  ∃ e ∈ ends, Lives hopeful G e.point

/-- Control leaves what was built between `g` and `g'` for the point `x`. -/
def Leaves (hopeful : Bool) (G g g' : Graph) (x : Nat) : Prop :=
  ∃ u, g.IsNew g' u ∧ g'.Arc u x ∧ Lives hopeful G u

section Lives

variable {b : Bool} {G : Graph} {u v : Nat} {ends ends' : List OpenEnd}

lemma Lives.arc (h : Lives b G u) (ha : G.Arc u v) : Lives b G v :=
  h.imp_right fun hu => ReflTransGen.tail hu ha

/-- Control gets to a point by an edge. -/
lemma lives_iff (hv : v ≠ G.entry) (hin : b = true → ∃ u, G.Arc u v) :
    Lives b G v ↔ ∃ u, G.Arc u v ∧ Lives b G u := by
  constructor
  · rintro (hb | h)
    · obtain ⟨u, ha⟩ := hin hb
      exact ⟨u, ha, .inl hb⟩
    · rcases ReflTransGen.cases_tail h with heq | ⟨u, hu, ha⟩
      · exact absurd heq hv
      · exact ⟨u, ha, .inr hu⟩
  · rintro ⟨u, ha, hu⟩
    exact hu.arc ha

@[simp] lemma live_nil : Live b G [] ↔ False := by
  simp [Live]

@[simp] lemma live_append : Live b G (ends ++ ends') ↔ Live b G ends ∨ Live b G ends' := by
  simp only [Live, List.mem_append, or_and_right, exists_or]

@[simp] lemma live_singleton {e : OpenEnd} : Live b G [e] ↔ Lives b G e.point := by
  simp [Live]

@[simp] lemma live_relabel (l : Label) : Live b G (ends.map (·.relabel l)) ↔ Live b G ends := by
  simp [Live, OpenEnd.relabel]

lemma live_iff_points : Live b G ends ↔ ∃ u ∈ OpenEnd.points ends, Lives b G u := by
  simp [Live]

lemma live_true_iff : Live true G ends ↔ ends ≠ [] := by
  cases ends <;> simp [Live, Lives]

end Lives

/-- From `g'` on, the finished graph `G` gets no further arcs into what was built between `g` and
`g'`. -/
structure Sealed (G g g' : Graph) : Prop where
  arcs : ∀ u v, g'.Arc u v → G.Arc u v
  into : ∀ u v, g.IsNew g' v → G.Arc u v → g'.Arc u v

section Sealed

variable {b : Bool} {G g g₁ g₂ g' : Graph} {u v x : Nat} {S S' : List Nat} {t t' : Targets}

lemma Sealed.arc_iff (h : Sealed G g g') (hv : g.IsNew g' v) : G.Arc u v ↔ g'.Arc u v :=
  ⟨h.into u v hv, h.arcs u v⟩

/-- An arc to a point that is there already and that is no target of jumps is there already. -/
lemma Graph.Grown.arc_into (hg : Grown S t g g') (hv : v < g.points.size)
    (ht : ∀ k, v ∉ t.of g.exits k) (ha : g'.Arc u v) : g.Arc u v := by
  obtain ⟨e, he, rfl, rfl⟩ := ha
  rcases hg.mem_edges he with he | hadd
  · exact ⟨e, he, rfl, rfl⟩
  · obtain ⟨k, -, hk, -⟩ := hadd.leaves hv
    exact absurd hk (ht k)

/-- An arc to a point that is there already and to which nothing led is made by a jump. -/
lemma Graph.Grown.jump_of_arc (hg : Grown S t g g') (hv : v < g.points.size)
    (hnone : ∀ u, ¬ g.Arc u v) (ha : g'.Arc u v) :
    ∃ k : Jump, g'.kind? u = some k.kind ∧ v ∈ t.of g.exits k ∧ g.IsNew g' u := by
  obtain ⟨e, he, rfl, rfl⟩ := ha
  rcases hg.mem_edges he with he | hadd
  · exact absurd ⟨e, he, rfl, rfl⟩ (hnone e.source)
  · obtain ⟨k, hk, hmem, -⟩ := hadd.leaves hv
    refine ⟨k, hk, hmem, ?_, hadd.bound.1⟩
    by_contra hlt
    exact Nat.not_lt.2 (hadd.enters (Nat.not_le.1 hlt)) hv

lemma Sealed.sub (h : Sealed G g g') (hle : g.points.size ≤ g₁.points.size)
    (hle' : g₂.points.size ≤ g'.points.size) (harc : ∀ u v, g₂.Arc u v → g'.Arc u v)
    (hinto : ∀ u v, g₁.IsNew g₂ v → g'.Arc u v → g₂.Arc u v) : Sealed G g₁ g₂ := by
  refine ⟨fun u v ha => h.arcs u v (harc u v ha), fun u v hv ha => hinto u v hv (h.into u v ?_ ha)⟩
  exact ⟨Nat.le_trans hle hv.1, Nat.lt_of_lt_of_le hv.2 hle'⟩

/-- The first of two parts is sealed if jumps of the second do not lead into it. -/
lemma Sealed.left (h : Sealed G g g') (hg : Grown S t g₁ g')
    (ht : ∀ k, ∀ x ∈ t.of g₁.exits k, x < g.points.size) : Sealed G g g₁ := by
  refine h.sub (Nat.le_refl _) hg.size_le (fun u v ha => hg.arc ha) fun u v hv ha => ?_
  exact hg.arc_into hv.2 (fun k hk => Nat.not_lt.2 hv.1 (ht k v hk)) ha

lemma Sealed.right (h : Sealed G g g') (hle : g.points.size ≤ g₁.points.size) : Sealed G g₁ g' :=
  h.sub hle (Nat.le_refl _) (fun _ _ ha => ha) fun _ _ _ ha => ha

lemma Leaves.mono_left (h : Leaves b G g₁ g₂ x) (hle : g.points.size ≤ g₁.points.size) :
    Leaves b G g g₂ x := by
  obtain ⟨u, hu, hrest⟩ := h
  exact ⟨u, ⟨Nat.le_trans hle hu.1, hu.2⟩, hrest⟩

/-- Control leaves two parts for a point in front of them if it leaves one of them. -/
lemma leaves_trans (hg : Grown S t g g₁) (hg' : Grown S' t' g₁ g₂) (hx : x < g.points.size) :
    Leaves b G g g₂ x ↔ Leaves b G g g₁ x ∨ Leaves b G g₁ g₂ x := by
  have hle := hg.size_le
  constructor
  · rintro ⟨u, hu, ha, hl⟩
    by_cases hlt : u < g₁.points.size
    · left
      refine ⟨u, ⟨hu.1, hlt⟩, ?_, hl⟩
      obtain ⟨e, he, rfl, rfl⟩ := ha
      rcases hg'.mem_edges he with he | hadd
      · exact ⟨e, he, rfl, rfl⟩
      · have := hadd.enters hlt
        omega
    · exact .inr ⟨u, ⟨by omega, hu.2⟩, ha, hl⟩
  · rintro (⟨u, hu, ha, hl⟩ | h)
    · exact ⟨u, ⟨hu.1, Nat.lt_of_lt_of_le hu.2 hg'.size_le⟩, hg'.arc ha, hl⟩
    · exact h.mono_left hle

/-- Nothing that is new leads to a point. -/
lemma not_leaves (hrange : g.InRange) (h : ∀ u, g'.Arc u x → g.Arc u x) : ¬ Leaves b G g g' x := by
  rintro ⟨u, hu, ha, -⟩
  exact Nat.not_lt.2 hu.1 (hrange u x (h u ha))

/-- Control leaves a part by jumps only. -/
lemma Graph.Grown.not_leaves (hg : Grown S t g g') (hrange : g.InRange) (hx : x < g.points.size)
    (ht : ∀ k, x ∉ t.of g.exits k) : ¬ Leaves b G g g' x :=
  Flow.not_leaves hrange fun _ => hg.arc_into hx ht

/-- Control leaves a statement where it leaves what is inside, if neither the first points of the
statement nor those that close it lead there. -/
lemma leaves_inside (hrange : g.InRange) (hg : Grown S t g g₁) (hg' : Grown S' t' g₁ g₂)
    (hx : x < g.points.size) (hfirst : ∀ u, g₁.Arc u x → g.Arc u x)
    (hsize : g'.points.size = g₂.points.size) (hclose : ∀ u, g'.Arc u x ↔ g₂.Arc u x) :
    Leaves b G g g' x ↔ Leaves b G g₁ g₂ x := by
  have hsame : Leaves b G g g' x ↔ Leaves b G g g₂ x := by
    simp only [Leaves, IsNew, hsize, hclose]
  rw [hsame, leaves_trans hg hg' hx]
  exact or_iff_right (not_leaves hrange hfirst)

/-- Where nothing led to a point before, control leaves a part for it by the arcs that are new. -/
lemma leaves_iff (hg : Grown S t g g') (hx : x < g.points.size)
    (hnone : ∀ u, ¬ g.Arc u x) : Leaves b G g g' x ↔ ∃ u, g'.Arc u x ∧ Lives b G u := by
  constructor
  · rintro ⟨u, -, ha, hl⟩
    exact ⟨u, ha, hl⟩
  · rintro ⟨u, ⟨e, he, rfl, rfl⟩, hl⟩
    rcases hg.mem_edges he with hold | hadd
    · exact absurd ⟨e, hold, rfl, rfl⟩ (hnone e.source)
    · refine ⟨e.source, ⟨?_, hadd.bound.1⟩, ⟨e, he, rfl, rfl⟩, hl⟩
      by_contra hlt
      have := hadd.enters (by omega)
      omega

/-- Control gets into a part only from the open ends in front of it. -/
lemma live_of_lives {ends : List OpenEnd} (hg : Grown (OpenEnd.points ends) t g g')
    (hs : Sealed G g g') (hentry : G.entry < g.points.size)
    (hrange : ∀ u v, g.Arc u v → v < g.points.size) (hne : ends ≠ [])
    (hv : g.IsNew g' v) (hl : Lives b G v) : Live b G ends := by
  rcases hl with rfl | hl
  · exact live_true_iff.2 hne
  -- By induction on the way from the entry: its last arc comes from an open end or a new point.
  · induction hl with
    | refl =>
      have := hv.1
      omega
    | @tail u v hu ha ih =>
      obtain ⟨e, he, rfl, rfl⟩ := hs.into u v hv ha
      rcases hg.mem_edges he with he | hadd
      · have := hrange _ _ ⟨e, he, rfl, rfl⟩
        have := hv.1
        omega
      · rcases hadd.source with hstart | hle
        · exact live_iff_points.2 ⟨e.source, hstart, .inr hu⟩
        · exact ih ⟨hle, hadd.bound.1⟩

end Sealed

/-! ### On the way to a finished graph -/

/-- The targets of jumps in the body of a loop. -/
abbrev Targets.inLoop (head : Nat) : Targets := ⟨some (head + 1), some head⟩

/-- The targets of jumps in the cases of a switch. -/
abbrev Targets.inSwitch (t : Targets) (merge : Nat) : Targets := ⟨some merge, t.continueTo⟩

section Targets

variable {t : Targets} {exits : List Nat} {head merge x : Nat} {k : Jump}

/-- Jumps in the body of a loop that lead out of the loop are returns. -/
lemma Targets.eq_returns_of_inLoop (hx : x ∈ (Targets.inLoop head).of exits k) (hlt : x < head) :
    k = .returns := by
  cases k with
  | returns => rfl
  | throws => simp [Targets.of] at hx
  | breaks =>
    obtain rfl : x = head + 1 := by simpa [Targets.of, eq_comm] using hx
    omega
  | continues =>
    obtain rfl : x = head := by simpa [Targets.of, eq_comm] using hx
    omega

/-- Jumps in the cases of a switch that lead out of the switch are no breaks. -/
lemma Targets.mem_of_inSwitch (hx : x ∈ (t.inSwitch merge).of exits k) (hne : x ≠ merge) :
    x ∈ t.of exits k ∧ k ≠ .breaks := by
  cases k with
  | returns | throws | continues => exact ⟨hx, by decide⟩
  | breaks =>
    obtain rfl : x = merge := by simpa [Targets.of, eq_comm] using hx
    exact absurd rfl hne

end Targets

/-- Jumps lead to points that are there, and different jumps to different points. -/
structure Aims (g : Graph) (t : Targets) : Prop where
  exits : ∀ x ∈ g.exits, x < g.points.size
  breaks : ∀ x ∈ t.breakTo, x < g.points.size ∧ x ∉ g.exits
  continues : ∀ x ∈ t.continueTo, x < g.points.size ∧ x ∉ g.exits ∧ x ∉ t.breakTo

/-- Building goes on, on the way to the finished graph `G`. -/
structure Begun (G : Graph) (t : Targets) (ends : List OpenEnd) (g : Graph) : Prop where
  ready : Ready g t ends
  wellFormed : g.WellFormed
  aims : Aims g t
  entry : G.entry < g.points.size
  nonempty : ends ≠ []

variable {b : Bool} {G g g₁ g' : Graph} {t t' : Targets} {ends ends' : List OpenEnd}
  {S S' : List Nat}

namespace Aims

lemma bound (h : Aims g t) (k : Jump) (x : Nat) (hx : x ∈ t.of g.exits k) : x < g.points.size := by
  cases k with
  | returns => exact h.exits x hx
  | throws => simp [Targets.of] at hx
  | breaks => exact (h.breaks x (Option.mem_toList.1 hx)).1
  | continues => exact (h.continues x (Option.mem_toList.1 hx)).1

lemma eq_returns (h : Aims g t) {k : Jump} {x : Nat} (hx : x ∈ t.of g.exits k)
    (hexit : x ∈ g.exits) : k = .returns := by
  cases k with
  | returns => rfl
  | throws => simp [Targets.of] at hx
  | breaks => exact absurd hexit (h.breaks x (Option.mem_toList.1 hx)).2
  | continues => exact absurd hexit (h.continues x (Option.mem_toList.1 hx)).2.1

/-- Different jumps lead to different points. -/
lemma eq_of_mem (h : Aims g t) {k k' : Jump} {x : Nat} (hx : x ∈ t.of g.exits k)
    (hx' : x ∈ t.of g.exits k') : k = k' := by
  cases k with
  | returns => exact (h.eq_returns hx' hx).symm
  | throws => simp [Targets.of] at hx
  | breaks =>
    cases k' with
    | returns => exact h.eq_returns hx hx'
    | throws => simp [Targets.of] at hx'
    | breaks => rfl
    | continues =>
      exact absurd (Option.mem_toList.1 hx) (h.continues x (Option.mem_toList.1 hx')).2.2
  | continues =>
    cases k' with
    | returns => exact h.eq_returns hx hx'
    | throws => simp [Targets.of] at hx'
    | breaks =>
      exact absurd (Option.mem_toList.1 hx') (h.continues x (Option.mem_toList.1 hx)).2.2
    | continues => rfl

lemma grown (h : Aims g t) (hg : Grown S t' g g') : Aims g' t := by
  have hle := hg.size_le
  refine ⟨fun x hx => ?_, fun x hx => ?_, fun x hx => ?_⟩
  · exact Nat.lt_of_lt_of_le (h.exits x (hg.exits ▸ hx)) hle
  · rw [hg.exits]
    exact ⟨Nat.lt_of_lt_of_le (h.breaks x hx).1 hle, (h.breaks x hx).2⟩
  · rw [hg.exits]
    exact ⟨Nat.lt_of_lt_of_le (h.continues x hx).1 hle, (h.continues x hx).2⟩

/-- A new point takes over `break`. -/
lemma switch (h : Aims g t) (hg : Grown S t' g g') {p : Nat} (hle : g.points.size ≤ p)
    (hlt : p < g'.points.size) : Aims g' (t.inSwitch p) := by
  refine ⟨(h.grown hg).exits, fun x hx => ?_, fun x hx => ?_⟩
  · obtain rfl : x = p := by simpa [eq_comm] using hx
    refine ⟨hlt, fun hx => Nat.not_lt.2 hle (h.exits x (hg.exits ▸ hx))⟩
  · obtain ⟨hbound, hexit, -⟩ := (h.grown hg).continues x hx
    refine ⟨hbound, hexit, fun hx' => ?_⟩
    obtain rfl : x = p := by simpa [eq_comm] using hx'
    exact Nat.not_lt.2 hle (h.continues x hx).1

/-- New points take over `break` and `continue`. -/
lemma loop (h : Aims g t) (hg : Grown S t' g g') (hsize : g'.points.size = g.points.size + 2) :
    Aims g' (.inLoop g.points.size) := by
  have hexits (x : Nat) (hx : x ∈ g'.exits) : x < g.points.size := h.exits x (hg.exits ▸ hx)
  refine ⟨(h.grown hg).exits, fun x hx => ?_, fun x hx => ?_⟩
  · obtain rfl : x = g.points.size + 1 := by simpa [eq_comm] using hx
    refine ⟨by omega, fun hx => ?_⟩
    have := hexits _ hx
    omega
  · obtain rfl : x = g.points.size := by simpa [eq_comm] using hx
    exact ⟨by omega, fun hx => Nat.lt_irrefl _ (hexits _ hx), by simp⟩

end Aims

namespace Begun

/-- Building goes on with the same targets. -/
lemma go (h : Begun G t ends g) (hb : Built g g') (hg : Grown S t' g g') (hr : Ready g' t ends')
    (hne : ends' ≠ []) : Begun G t ends' g' :=
  ⟨hr, hb.keeps WellFormed.step h.wellFormed, h.aims.grown hg,
    Nat.lt_of_lt_of_le h.entry hg.size_le, hne⟩

lemma target_lt (h : Begun G t ends g) {u v : Nat} (ha : g.Arc u v) : v < g.points.size := by
  obtain ⟨e, he, -, rfl⟩ := ha
  exact (h.wellFormed.range e he).2

lemma faithful (h : Begun G t ends g) : g.Faithful := h.wellFormed.successors

lemma ends_lt (h : Begun G t ends g) (e : OpenEnd) (he : e ∈ ends) : e.point < g.points.size :=
  (h.ready.flows e he).lt_size

/-- Building goes on behind a skeleton. -/
lemma next (h : Begun G t ends g) (s : Skeleton) (hne : (s.build t ends g).1 ≠ []) :
    Begun G t (s.build t ends g).1 (s.build t ends g).2 := by
  have hs := s.continues h.ready
  have ht := s.threaded t ends g
  exact h.go hs.built ht.grown (h.ready.next ht hs.flows) hne

/-- Building starts again from the open ends in front of a skeleton. -/
lemma again (h : Begun G t ends g) (s : Skeleton) (l : Label) :
    Begun G t (ends.map (·.relabel l)) (s.build t ends g).2 :=
  h.go (s.continues h.ready).built (s.threaded t ends g).grown (h.ready.again s l)
    (by simpa using h.nonempty)

lemma relabel (h : Begun G t ends g) (l : Label) : Begun G t (ends.map (·.relabel l)) g :=
  h.go .refl (.refl [] t g) (h.ready.relabel l) (by simpa using h.nonempty)

/-- Building goes on from a new point. -/
lemma pointAfter (h : Begun G t ends g) {k : PointKind} (hentry : k ≠ .entry)
    (hk : k.flowsOn = true) (n : Node) {e : OpenEnd} (he : e.point = g.points.size)
    (hb : e.back = false) : Begun G t [e] (g.pointAfter k n ends) :=
  h.go (Built.pointAfter h.ready.range h.ready.flows hentry (k.ne_exit_of_flowsOn hk) n)
    (grown_pointAfter k n ends t g) (h.ready.pointAfter hk n he hb) (by simp)

/-- Nothing leads to a new point but the open ends in front of it. -/
lemma arc_pointAfter_iff (h : Begun G t ends g) {k : PointKind} {n : Node}
    (hs : Sealed G g (g.pointAfter k n ends)) {u : Nat} :
    G.Arc u g.points.size ↔ u ∈ OpenEnd.points ends := by
  have hnew : g.IsNew (g.pointAfter k n ends) g.points.size := ⟨Nat.le_refl _, by simp⟩
  rw [hs.arc_iff hnew, h.faithful.pointAfter_arc h.ends_lt]
  refine ⟨fun ha => ?_, fun hu => .inr ⟨hu, rfl⟩⟩
  rcases ha with ha | ⟨hu, -⟩
  · exact absurd (h.target_lt ha) (Nat.lt_irrefl _)
  · exact hu

/-- Control gets to a new point if it gets to the open ends in front of it. -/
lemma lives_pointAfter (h : Begun G t ends g) {k : PointKind} {n : Node}
    (hs : Sealed G g (g.pointAfter k n ends)) : Lives b G g.points.size ↔ Live b G ends := by
  obtain ⟨e, he⟩ := List.exists_mem_of_ne_nil _ h.nonempty
  have hin : G.Arc e.point g.points.size :=
    (h.arc_pointAfter_iff hs).2 (List.mem_map_of_mem he)
  rw [lives_iff (Nat.ne_of_gt h.entry) fun _ => ⟨e.point, hin⟩, live_iff_points]
  simp only [h.arc_pointAfter_iff hs]

/-- Nothing leaves a point that is new. -/
lemma not_leaves_pointAfter (h : Begun G t ends g) {k : PointKind} {n : Node} {x : Nat}
    (hx : x < g.points.size) : ¬ Leaves b G g (g.pointAfter k n ends) x := by
  refine not_leaves h.ready.range fun u ha => ?_
  rcases (h.faithful.pointAfter_arc h.ends_lt k n).1 ha with ha | ⟨-, rfl⟩
  · exact ha
  · exact absurd hx (Nat.lt_irrefl _)

/-- The first of two parts is sealed, since jumps of the second lead further back. -/
lemma sealed_left (h : Begun G t ends g) (hg : Grown S t' g g₁) (hg' : Grown S' t g₁ g')
    (hs : Sealed G g g') : Sealed G g g₁ :=
  hs.left hg' fun k x hx => h.aims.bound k x (hg.exits ▸ hx)

/-- The arcs of a jump from a new point. -/
lemma leave_arc (h : Begun G t ends g) (k : Jump) (n : Node) {u v : Nat} :
    ((g.pointAfter k.kind n ends).addEdges (k.edges g.points.size (t.of g.exits k))).Arc u v ↔
      (g.pointAfter k.kind n ends).Arc u v ∨ u = g.points.size ∧ v ∈ t.of g.exits k := by
  have hf : (g.pointAfter k.kind n ends).Faithful := (h.faithful.addPoint _ _ _).addEdges _
  rw [hf.addEdges_arc]
  · refine or_congr_right ⟨?_, ?_⟩
    · rintro ⟨e, he, rfl, rfl⟩
      obtain ⟨x, hx, rfl⟩ := List.mem_map.1 he
      exact ⟨rfl, hx⟩
    · rintro ⟨rfl, hv⟩
      exact ⟨_, List.mem_map_of_mem hv, rfl, rfl⟩
  · intro e he
    obtain ⟨x, hx, rfl⟩ := List.mem_map.1 he
    have := h.aims.bound k x hx
    simp only [pointAfter_size]
    omega

/-- The body of a loop is built once the points of the loop are there. -/
lemma loop (h : Begun G t ends g) (hb : Built g g₁) (hg : Grown S t' g g₁)
    (hsize : g₁.points.size = g.points.size + 2)
    (hr : Ready g₁ (.inLoop g.points.size) ends') (hne : ends' ≠ []) :
    Begun G (.inLoop g.points.size) ends' g₁ :=
  ⟨hr, hb.keeps WellFormed.step h.wellFormed, h.aims.loop hg hsize,
    Nat.lt_of_lt_of_le h.entry hg.size_le, hne⟩

/-- The head of a loop is entered from the open ends in front of it. -/
lemma loopHead_arc (h : Begun G t ends g) (n : Node) {u v : Nat} :
    ((g.loopPoints n).addEdges (ends.map (·.edgeTo g.points.size))).Arc u v ↔
      g.Arc u v ∨ u ∈ OpenEnd.points ends ∧ v = g.points.size := by
  have hf : (g.loopPoints n).Faithful := (h.faithful.addPoint _ _ _).addPoint _ _ _
  refine hf.link_arc _ (fun _ => ⟨rfl, rfl⟩) (fun e he => ?_) (by simp)
  have := h.ends_lt e he
  simp only [loopPoints_size]
  omega

end Begun

end Arbor.Flow
