import Arbor.Proofs.Flow.Site

/-!
# Statements and what is around them

The statements of a function are those that are reached from its body without going through an
expression. On the way to a statement one passes some loops and switches. The frames of a site are
those that are passed on the way to the statement built there.
-/

namespace Arbor

namespace Construct

def isLoop : Construct → Bool
  | forLoop | forEach | whileLoop | doWhile => true
  | _ => false

/-- Whether `break` leads out of the construct. -/
def isBreakable (c : Construct) : Bool := c.isLoop || c == switch

end Construct

namespace Flow

open Flow.Graph

/-! ### Loops and switches around a statement -/

/-- The loops and switches around the parts of a statement, of which the innermost is the first. -/
def passing (n : Node) (loops : List Node) : List Node :=
  if n.construct.isBreakable then n :: loops else loops

/-- The node is a statement of `base`, inside the loops and switches of the list. -/
inductive Around (base : Node) : List Node → Node → Prop where
  | base : Around base [] base
  | part {n m : Node} {loops : List Node} (h : Around base loops n) (hm : m ∈ statementParts n) :
    Around base (passing n loops) m

lemma Around.mem_preorder {base n : Node} {loops : List Node} (h : Around base loops n) :
    n ∈ base.preorder := by
  induction h with
  | base => exact base.self_mem_preorder
  | part h hm ih =>
    exact Node.mem_preorder_trans (inside_of_mem_statementParts hm).mem_preorder ih

/-! ### Skeletons whose nodes are in their place -/

mutual

/-- Every node of the skeleton has the property `P`, which may depend on the loops and switches
around it. -/
def Skeleton.Placed (P : List Node → Node → Prop) (loops : List Node) : Skeleton → Prop
  | .pass => True
  | .plain n | .leave _ n | .bareLoop n => P loops n
  | .andThen first dead rest =>
    first.Placed P loops ∧ (∀ n ∈ dead, P loops n) ∧ rest.Placed P loops
  | .branch n yes no => P loops n ∧ yes.Placed P loops ∧ no.Placed P loops
  | .attempt s s' | .finally s s' => s.Placed P loops ∧ s'.Placed P loops
  | .joined n s => P loops n ∧ s.Placed P loops
  | .loop n body | .doWhile n body =>
    n.construct.isLoop = true ∧ P loops n ∧ body.Placed P (n :: loops)
  | .switch n cases => n.construct = .switch ∧ P loops n ∧ cases.Placed P (n :: loops)

/-- Every node of the cases has the property. -/
def Cases.Placed (P : List Node → Node → Prop) (loops : List Node) : Cases → Prop
  | .nil => True
  | .cons _ body rest => body.Placed P loops ∧ rest.Placed P loops

end

/-- What is built at the site is in its place, and the frames are what they stand for. -/
structure Site.Placed (P : List Node → Node → Prop) (s : Site) : Prop where
  skeleton : s.skeleton.Placed P (s.frames.map (·.node))
  frames : ∀ f ∈ s.frames, f.head.isSome = f.node.construct.isLoop

section Placed

variable {P : List Node → Node → Prop} {loops : List Node}

lemma Site.Placed.adds {s : Site} (h : s.Placed P) {i : Nat} {k : PointKind} {x : Node}
    (hadds : s.Adds i k x) : P (s.frames.map (·.node)) x := by
  obtain ⟨hskeleton, -⟩ := h
  have hloop {sk : Skeleton} {loops : List Node} (hsk : sk.IsLoop x)
      (hplaced : sk.Placed P loops) : P loops x := by
    cases hsk with
    | bare => exact hplaced
    | before | after => exact hplaced.2.1
  cases hadds with
  | plain | leave => exact hskeleton
  | dead _ _ hx => exact hskeleton.2.1 x (List.mem_of_getElem? hx)
  | branch | joined => exact hskeleton.1
  | head hsk | exit hsk => exact hloop hsk hskeleton
  | switch | merge => exact hskeleton.2.1

lemma Cases.Part.placed {branch : Nat} {fs : List Frame} {cs : Cases} {ends : List OpenEnd}
    {g : Graph} {s : Site} (h : cs.Part branch fs ends g s)
    (hcs : cs.Placed P (fs.map (·.node))) : s.skeleton.Placed P (fs.map (·.node)) := by
  induction h with
  | here => exact hcs.1
  | later _ _ ih => exact ih hcs.2

lemma Site.Part.placed {s s' : Site} (h : s.Part s') (hs : s.Placed P) : s'.Placed P := by
  obtain ⟨hskeleton, hframes⟩ := hs
  cases h with
  | first => exact ⟨hskeleton.1, hframes⟩
  | rest => exact ⟨hskeleton.2.2, hframes⟩
  | yes => exact ⟨hskeleton.2.1, hframes⟩
  | no => exact ⟨hskeleton.2.2, hframes⟩
  | tried | guarded => exact ⟨hskeleton.1, hframes⟩
  | handler | last => exact ⟨hskeleton.2, hframes⟩
  | joined => exact ⟨hskeleton.2, hframes⟩
  | loop | doWhile =>
    obtain ⟨hloop, -, hbody⟩ := hskeleton
    exact ⟨hbody, List.forall_mem_cons.2 ⟨hloop.symm, hframes⟩⟩
  | @case n cs fs ends g g' s hg h =>
    obtain ⟨hswitch, -, hcases⟩ := hskeleton
    constructor
    · rw [h.frames_eq]
      exact h.placed hcases
    · rw [h.frames_eq]
      refine List.forall_mem_cons.2 ⟨?_, hframes⟩
      simp [Frame.switch, hswitch, Construct.isLoop]

theorem Site.Meets.placed {s s' : Site} (h : s.Meets s') (hs : s.Placed P) : s'.Placed P := by
  induction h with
  | refl => exact hs
  | tail _ hpart ih => exact hpart.placed ih

/-! ### The skeletons of nodes -/

variable {sk : Node → Skeleton}

lemma Skeleton.placed_sequence {ns : List Node}
    (h : ∀ n ∈ ns, P loops n ∧ (sk n).Placed P loops) : (sequence sk ns).Placed P loops := by
  induction ns with
  | nil => exact trivial
  | cons n ns ih =>
    refine ⟨(h n (by simp)).2, fun m hm => (h m (by simp [hm])).1, ih fun m hm => ?_⟩
    exact h m (by simp [hm])

lemma Skeleton.placed_statements {ns : List Node}
    (h : ∀ n ∈ ns, P loops n ∧ (sk n).Placed P loops) : (statements sk ns).Placed P loops :=
  placed_sequence fun n hn => h n (List.mem_filter.1 hn).1

lemma Skeleton.placed_part {part : Option Node} (h : ∀ n ∈ part.toList, (sk n).Placed P loops) :
    (Skeleton.part sk part).Placed P loops := by
  cases part with
  | none => exact trivial
  | some n => exact h n (by simp)

lemma Cases.placed_ofNodes {cs : List Node}
    (h : ∀ c ∈ cs, ∀ n ∈ caseStatements c, P loops n ∧ (sk n).Placed P loops) :
    (Cases.ofNodes sk cs).Placed P loops := by
  induction cs with
  | nil => exact trivial
  | cons c cs ih =>
    refine ⟨Skeleton.placed_statements (h c (by simp)), ih fun c' hc' => ?_⟩
    exact h c' (by simp [hc'])

/-- The skeleton of a node is in its place if the skeletons of its parts are. -/
lemma Skeleton.placed_ofNode {n : Node} (hn : P loops n)
    (h : ∀ m ∈ statementParts n, P (passing n loops) m ∧ (sk m).Placed P (passing n loops)) :
    (Skeleton.ofNode sk n).Placed P loops := by
  have hpart {part : Option Node} (hm : ∀ m ∈ part.toList, m ∈ statementParts n) :
      (Skeleton.part sk part).Placed P (passing n loops) :=
    placed_part fun m hmem => (h m (hm m hmem)).2
  unfold Skeleton.ofNode
  unfold statementParts at h hpart
  cases hc : n.construct <;>
    simp only [hc, passing, Construct.isBreakable, Construct.isLoop] at h hpart ⊢
  case block | elseClause | switchCase | switchDefault => exact placed_statements h
  case conditional =>
    refine ⟨hn, hn, hpart fun m hm => ?_, hpart fun m hm => ?_⟩
    · exact List.mem_append_left _ hm
    · exact List.mem_append_right _ hm
  case forLoop | forEach | whileLoop =>
    unfold Skeleton.loopOf
    cases hbody : n.field? "body" with
    | none => exact hn
    | some body => exact ⟨by simp [hc, Construct.isLoop], hn, (h body (by simp [hbody])).2⟩
  case doWhile => exact ⟨by simp [hc, Construct.isLoop], hn, hpart fun m hm => hm⟩
  case switch =>
    refine ⟨hc, hn, Cases.placed_ofNodes fun c hcase m hm => h m ?_⟩
    exact List.mem_flatMap.2 ⟨c, hcase, hm⟩
  case tryCatch =>
    -- A try statement is no loop: all of its parts stand where it stands.
    have hguarded : (Skeleton.guarded sk n).Placed P loops := by
      unfold Skeleton.guarded
      cases hhandler : n.field? "handler" with
      | none =>
        refine hpart fun m hm => ?_
        exact List.mem_append_left _ (List.mem_append_left _ hm)
      | some handler =>
        refine ⟨hpart fun m hm => ?_, hpart fun m hm => ?_⟩
        · exact List.mem_append_left _ (List.mem_append_left _ hm)
        · refine List.mem_append_left _ (List.mem_append_right _ ?_)
          rwa [hhandler, Option.bind_some]
    unfold Skeleton.tryOf
    cases hlast : n.field? "finalizer" with
    | none => exact ⟨hn, hguarded⟩
    | some last =>
      refine ⟨hguarded, (h _ (List.mem_append_right _ ?_)).2⟩
      rw [hlast, Option.map_some, Option.mem_toList]
  case labeled => exact hpart fun m hm => hm
  case returnJump | throwJump | breakJump | continueJump => exact hn
  case declaration | function | classDef | statement => exact hn
  case ignored => exact trivial

/-- The skeleton of a node is in its place if the property is passed on to parts of statements. -/
theorem placed_skeleton
    (hparts : ∀ (n : Node) (loops : List Node), P loops n →
      ∀ m ∈ statementParts n, P (passing n loops) m)
    (d : Nat) {n : Node} (h : P loops n) : (skeleton d n).Placed P loops := by
  induction d generalizing n loops with
  | zero => exact trivial
  | succ d ih =>
    rw [skeleton]
    refine Skeleton.placed_ofNode h fun m hm => ?_
    have hpart := hparts n loops h m hm
    exact ⟨hpart, ih hpart⟩

end Placed

/-- The nodes of the skeleton of a statement are inside the loops and switches around them. -/
lemma around_skeleton (d : Nat) (n : Node) : (skeleton d n).Placed (Around n) [] :=
  placed_skeleton (fun _ _ h _ hm => .part h hm) d .base

/-- The node is a statement of the body of the function, inside the loops and switches of the
list. -/
def AroundBody (f : Node) (loops : List Node) (n : Node) : Prop :=
  ∃ body, f.field? "body" = some body ∧ Around body loops n

lemma around_ofBody (d : Nat) (f : Node) :
    (Skeleton.ofBody (skeleton d) f).Placed (AroundBody f) [] := by
  unfold Skeleton.ofBody
  cases hbody : f.field? "body" with
  | none => exact trivial
  | some body =>
    have hbase : AroundBody f [] body := ⟨body, hbody, .base⟩
    dsimp only
    split_ifs
    · refine placed_skeleton (fun n loops hn m hm => ?_) d hbase
      obtain ⟨b, hb, hn⟩ := hn
      exact ⟨b, hb, .part hn hm⟩
    · exact hbase

/-! ### Whole graphs -/

/-- Where building a skeleton starts. -/
def Site.start (s : Skeleton) (sp : Span) : Site := ⟨s, [], [.plain 0], .fresh sp⟩

lemma Site.start_ready (s : Skeleton) (sp : Span) : (Site.start s sp).Ready := Ready.fresh sp

lemma Site.start_framed (s : Skeleton) (sp : Span) : (Site.start s sp).Framed := by
  simp [Site.Framed, Site.start]

lemma Site.start_placed {P : List Node → Node → Prop} {s : Skeleton} (h : s.Placed P [])
    (sp : Span) : (Site.start s sp).Placed P :=
  ⟨h, by simp [Site.start]⟩

/-- What flows to the exits in the end comes from open ends. -/
lemma Skeleton.kept_graphFrom (s : Skeleton) (sp : Span) :
    (Site.start s sp).build.2.Kept (s.graphFrom (.fresh sp)) := by
  rw [s.graphFrom_fresh]
  exact (Kept.refl _).link (s.continues (.fresh sp)).flows fun _ => rfl

/-- What is added at a site is there in the end. -/
lemma Site.Adds.graphFrom {sk : Skeleton} {sp : Span} {s : Site} {i : Nat} {k : PointKind}
    {x : Node} (h : s.Adds i k x) (hmeets : (Site.start sk sp).Meets s) :
    (sk.graphFrom (.fresh sp)).StandsFor i k x := by
  have hwithin := Site.Meets.within hmeets (Site.start_ready sk sp)
  exact (hwithin.after.trans (sk.kept_graphFrom sp)).standsFor h.standsFor

/-- A point of the graph of a skeleton is its entry, its exit or was added at a site. -/
theorem Skeleton.point_cases (s : Skeleton) (sp : Span) {i : Nat} {p : Point}
    (hp : (s.graphFrom (.fresh sp)).points[i]? = some p) :
    p.origin = none ∧ (p.kind = .entry ∨ p.kind = .exit) ∨
      ∃ s' k x, (Site.start s sp).Meets s' ∧ s'.Adds i k x ∧
        (s.graphFrom (.fresh sp)).StandsFor i k x := by
  have hready := Site.start_ready s sp
  have hfinal := s.kept_graphFrom sp
  -- The entry and the exit are there before anything is built, and stand for no node.
  by_cases hi : i < 2
  · left
    have hfresh : (Graph.fresh sp).Kept (s.graphFrom (.fresh sp)) :=
      (Ready.kept_build hready s).trans hfinal
    obtain ⟨q, hq, hkind, horigin⟩ : ∃ q, (Graph.fresh sp).points[i]? = some q ∧
        (q.kind = .entry ∨ q.kind = .exit) ∧ q.origin = none := by
      match i, hi with
      | 0, _ => exact ⟨_, rfl, .inl rfl, rfl⟩
      | 1, _ => exact ⟨_, rfl, .inr rfl, rfl⟩
    obtain ⟨q', hq', hgrew⟩ := hfresh.points i q hq
    obtain rfl := Option.some.inj (hp.symm.trans hq')
    exact ⟨hgrew.origin.trans horigin, hgrew.kind ▸ hkind⟩
  · right
    have hlt : i < (s.graphFrom (.fresh sp)).points.size := (Array.getElem?_eq_some_iff.1 hp).1
    rw [s.graphFrom_fresh, addEdges_size] at hlt
    obtain ⟨s', k, x, hmeets, hadds⟩ :=
      (Site.start s sp).exists_adds (i := i) ⟨Nat.not_lt.1 hi, hlt⟩
    exact ⟨s', k, x, hmeets, hadds, hadds.graphFrom hmeets⟩

/-- A point that stands for a node was added for it at some site. -/
lemma exists_adds_of_standsFor {sk : Skeleton} {sp : Span} {i : Nat} {k : PointKind} {x : Node}
    (h : (sk.graphFrom (.fresh sp)).StandsFor i k x) :
    ∃ s, (Site.start sk sp).Meets s ∧ s.Adds i k x := by
  obtain ⟨p, hp, -, -, horigin⟩ := id h
  rcases sk.point_cases sp hp with ⟨hnone, -⟩ | ⟨s, k', x', hmeets, hadds, hstands⟩
  · rw [hnone] at horigin
    cases horigin
  · obtain ⟨rfl, rfl⟩ := hstands.unique h
    exact ⟨s, hmeets, hadds⟩

/-- A point of the graph of a function stands for a node inside the function, if for any. -/
theorem inside_of_origin {d i : Nat} {f x : Node} {p : Point}
    (hp : (functionGraph d f).points[i]? = some p) (hx : p.origin = some x) : x.Inside f := by
  rcases Skeleton.point_cases _ _ hp with
    ⟨hnone, -⟩ | ⟨s, k, y, hmeets, hadds, q, hq, -, -, horigin⟩
  · rw [hnone] at hx
    cases hx
  · obtain rfl := Option.some.inj (hp.symm.trans hq)
    obtain rfl := Option.some.inj (hx.symm.trans horigin)
    have hplaced := Site.Meets.placed hmeets (Site.start_placed (around_ofBody (d - 1) f) f.span)
    obtain ⟨body, hbody, haround⟩ := hplaced.adds hadds
    exact (Node.inside_of_field? hbody).of_mem_preorder haround.mem_preorder

end Flow

end Arbor
