import Arbor.Proofs.Flow.Constructs

/-!
# Every node is built in one place

The parts of a statement stand apart from each other in the tree, provided that no two fields of a
node name the same child. So there is one place in the graph for everything that stands inside a
node: what is built while the skeleton of the node is.
-/

namespace Arbor.Flow

open Relation Flow.Graph

/-! ### The nodes of a skeleton -/

mutual

/-- The nodes for which building the skeleton may add points. -/
def Skeleton.nodes : Skeleton → List Node
  | .pass => []
  | .plain n | .leave _ n | .bareLoop n => [n]
  | .andThen a dead b => a.nodes ++ dead ++ b.nodes
  | .branch n a b => n :: (a.nodes ++ b.nodes)
  | .attempt a b | .finally a b => a.nodes ++ b.nodes
  | .joined n a | .loop n a | .doWhile n a => n :: a.nodes
  | .switch n cs => n :: cs.nodes

def Cases.nodes : Cases → List Node
  | .nil => []
  | .cons _ body rest => body.nodes ++ rest.nodes

end

lemma Skeleton.IsLoop.mem_nodes {sk : Skeleton} {n : Node} (h : sk.IsLoop n) : n ∈ sk.nodes := by
  cases h with
  | bare | before | after => simp [Skeleton.nodes]

lemma Site.Adds.mem_nodes {s : Site} {i : Nat} {k : PointKind} {x : Node} (h : s.Adds i k x) :
    x ∈ s.skeleton.nodes := by
  cases h with
  | plain | leave | branch | joined | switch | merge => simp [Skeleton.nodes]
  | dead _ _ hx => simp [Skeleton.nodes, List.mem_of_getElem? hx]
  | head hsk | exit hsk => exact hsk.mem_nodes

lemma Cases.Part.nodes_subset {branch : Nat} {fs : List Frame} {cs : Cases} {ends : List OpenEnd}
    {g : Graph} {s : Site} (h : cs.Part branch fs ends g s) : s.skeleton.nodes ⊆ cs.nodes := by
  induction h with
  | here => exact List.subset_append_left _ _
  | later _ _ ih => exact List.subset_append_of_subset_right _ ih

lemma Site.Part.nodes_subset {s s' : Site} (h : s.Part s') :
    s'.skeleton.nodes ⊆ s.skeleton.nodes := by
  intro x hx
  cases h with
  | case _ hcase => exact List.mem_cons_of_mem _ (hcase.nodes_subset hx)
  | _ => simp [Skeleton.nodes, hx]

lemma Site.Meets.nodes_subset {s s' : Site} (h : s.Meets s') :
    s'.skeleton.nodes ⊆ s.skeleton.nodes := by
  induction h with
  | refl => exact List.Subset.refl _
  | tail _ hpart ih => exact List.Subset.trans hpart.nodes_subset ih

mutual

lemma Skeleton.Placed.of_mem_nodes {Q : Node → Prop} {loops : List Node} {sk : Skeleton} {x : Node}
    (h : sk.Placed (fun _ => Q) loops) (hx : x ∈ sk.nodes) : Q x := by
  match sk with
  | .pass => cases hx
  | .plain n | .leave _ n | .bareLoop n =>
    obtain rfl := List.mem_singleton.1 hx
    exact h
  | .andThen a dead b =>
    simp only [Skeleton.nodes, List.mem_append] at hx
    rcases hx with (hx | hx) | hx
    · exact h.1.of_mem_nodes hx
    · exact h.2.1 x hx
    · exact h.2.2.of_mem_nodes hx
  | .branch n a b =>
    simp only [Skeleton.nodes, List.mem_cons, List.mem_append] at hx
    rcases hx with rfl | hx | hx
    · exact h.1
    · exact h.2.1.of_mem_nodes hx
    · exact h.2.2.of_mem_nodes hx
  | .attempt a b | .finally a b =>
    rcases List.mem_append.1 hx with hx | hx
    · exact h.1.of_mem_nodes hx
    · exact h.2.of_mem_nodes hx
  | .joined n a =>
    rcases List.mem_cons.1 hx with rfl | hx
    · exact h.1
    · exact h.2.of_mem_nodes hx
  | .loop n a | .doWhile n a =>
    rcases List.mem_cons.1 hx with rfl | hx
    · exact h.2.1
    · exact h.2.2.of_mem_nodes hx
  | .switch n cs =>
    rcases List.mem_cons.1 hx with rfl | hx
    · exact h.2.1
    · exact h.2.2.of_mem_nodes hx

lemma Cases.Placed.of_mem_nodes {Q : Node → Prop} {loops : List Node} {cs : Cases} {x : Node}
    (h : cs.Placed (fun _ => Q) loops) (hx : x ∈ cs.nodes) : Q x := by
  match cs with
  | .nil => cases hx
  | .cons _ body rest =>
    rcases List.mem_append.1 hx with hx | hx
    · exact h.1.of_mem_nodes hx
    · exact h.2.of_mem_nodes hx

end

section Nodes

variable {d : Nat} {n x : Node}

lemma mem_preorder_of_mem_nodes (h : x ∈ (skeleton d n).nodes) : x ∈ n.preorder := by
  have hplaced : (skeleton d n).Placed (fun _ m => m ∈ n.preorder) [] := by
    refine placed_skeleton (fun m _ hm part hpart => ?_) d n.self_mem_preorder
    exact Node.mem_preorder_trans (inside_of_mem_statementParts hpart).mem_preorder hm
  exact hplaced.of_mem_nodes h

lemma mem_nodes_sequence {ns : List Node} (h : x ∈ (Skeleton.sequence (skeleton d) ns).nodes) :
    ∃ m ∈ ns, x ∈ m.preorder := by
  induction ns with
  | nil => cases h
  | cons m ms ih =>
    simp only [Skeleton.sequence, Skeleton.nodes, List.mem_append] at h
    rcases h with (h | h) | h
    · exact ⟨m, List.mem_cons_self, mem_preorder_of_mem_nodes h⟩
    · exact ⟨x, List.mem_cons_of_mem m h, x.self_mem_preorder⟩
    · obtain ⟨m', hm', hx⟩ := ih h
      exact ⟨m', List.mem_cons_of_mem m hm', hx⟩

lemma mem_nodes_statements {ns : List Node}
    (h : x ∈ (Skeleton.statements (skeleton d) ns).nodes) : ∃ m ∈ ns, x ∈ m.preorder := by
  obtain ⟨m, hm, hx⟩ := mem_nodes_sequence h
  exact ⟨m, (List.mem_filter.1 hm).1, hx⟩

lemma mem_nodes_part {part : Option Node} (h : x ∈ (Skeleton.part (skeleton d) part).nodes) :
    ∃ m ∈ part, x ∈ m.preorder := by
  cases part with
  | none => cases h
  | some m => exact ⟨m, rfl, mem_preorder_of_mem_nodes h⟩

lemma mem_nodes_ofNodes {cs : List Node} (h : x ∈ (Cases.ofNodes (skeleton d) cs).nodes) :
    ∃ c ∈ cs, x ∈ c.preorder := by
  induction cs with
  | nil => cases h
  | cons c cs ih =>
    rcases List.mem_append.1 h with h | h
    · obtain ⟨m, hm, hx⟩ := mem_nodes_statements h
      have hinside := Node.inside_of_mem_children (List.mem_filter.1 hm).1
      exact ⟨c, List.mem_cons_self, Node.mem_preorder_trans hx hinside.mem_preorder⟩
    · obtain ⟨c', hc', hx⟩ := ih h
      exact ⟨c', List.mem_cons_of_mem c hc', hx⟩

/-- The parts of a try statement in front of its last part stand in two of its fields. -/
lemma mem_nodes_guarded (h : x ∈ (Skeleton.guarded (skeleton d) n).nodes) :
    ∃ name m, (name = "body" ∨ name = "handler") ∧ n.field? name = some m ∧ x ∈ m.preorder := by
  have hbody (h : x ∈ (Skeleton.part (skeleton d) (n.field? "body")).nodes) :
      ∃ name m, (name = "body" ∨ name = "handler") ∧ n.field? name = some m ∧ x ∈ m.preorder := by
    obtain ⟨m, hm, hx⟩ := mem_nodes_part h
    exact ⟨"body", m, .inl rfl, hm, hx⟩
  rw [Skeleton.guarded] at h
  cases hhandler : n.field? "handler" with
  | none =>
    simp only [hhandler] at h
    exact hbody h
  | some handler =>
    simp only [hhandler, Skeleton.nodes, List.mem_append] at h
    rcases h with h | h
    · exact hbody h
    · obtain ⟨m, hm, hx⟩ := mem_nodes_part h
      refine ⟨"handler", handler, .inr rfl, hhandler, ?_⟩
      exact Node.mem_preorder_trans hx (Node.inside_of_field? hm).mem_preorder

end Nodes

/-! ### Parts that stand apart -/

/-- The nodes of the skeletons stand apart. -/
def Skeleton.Apart (a b : Skeleton) : Prop := ∀ x ∈ a.nodes, ∀ y ∈ b.nodes, x.Apart y

lemma Skeleton.Apart.symm {a b : Skeleton} (h : a.Apart b) : b.Apart a :=
  fun x hx y hy => (h y hy x hx).symm

/-- The cases stand apart from each other. -/
def Cases.Orderly : Cases → Prop
  | .nil => True
  | .cons _ body rest => (∀ x ∈ body.nodes, ∀ y ∈ rest.nodes, x.Apart y) ∧ rest.Orderly

/-- The parts stand inside the node that they belong to, and apart from each other. -/
def Skeleton.Orderly : Skeleton → Prop
  | .andThen a dead b =>
    (∀ x ∈ a.nodes, ∀ y ∈ dead, x.Apart y) ∧ dead.Pairwise Node.Apart ∧ a.Apart b
  | .branch n a b => (∀ x ∈ a.nodes, x.Inside n) ∧ (∀ x ∈ b.nodes, x.Inside n) ∧ a.Apart b
  | .attempt a b | .finally a b => a.Apart b
  | .joined n a => ∀ x ∈ a.nodes, x ∈ n.preorder
  | .loop n a | .doWhile n a => ∀ x ∈ a.nodes, x.Inside n
  | .switch n cs => (∀ x ∈ cs.nodes, x.Inside n) ∧ cs.Orderly
  | .pass | .plain _ | .leave _ _ | .bareLoop _ => True

/-- The nodes for which the skeleton itself adds points, and not one of its parts. -/
def Skeleton.own : Skeleton → List Node
  | .plain n | .leave _ n | .branch n _ _ | .joined n _ | .bareLoop n | .loop n _ | .doWhile n _
  | .switch n _ => [n]
  | .andThen _ dead _ => dead
  | .pass | .attempt _ _ | .finally _ _ => []

lemma Site.Adds.mem_own {s : Site} {i : Nat} {k : PointKind} {x : Node} (h : s.Adds i k x) :
    x ∈ s.skeleton.own := by
  cases h with
  | plain | leave | branch | joined | switch | merge => exact List.mem_cons_self
  | dead _ _ hx => exact List.mem_of_getElem? hx
  | head hsk | exit hsk =>
    cases hsk with
    | bare | before | after => exact List.mem_cons_self

lemma Skeleton.Orderly.pairwise_own {sk : Skeleton} (h : sk.Orderly) :
    sk.own.Pairwise Node.Apart := by
  cases sk with
  | andThen a dead b => exact h.2.1
  | pass | attempt | «finally» => exact .nil
  | _ => exact List.pairwise_singleton _ _

section Orderly

variable {d : Nat} {n : Node}

lemma Skeleton.orderly_sequence {ns : List Node} (hns : ns.Pairwise Node.Apart)
    (h : ∀ m ∈ ns, (skeleton d m).Every Orderly) :
    (Skeleton.sequence (skeleton d) ns).Every Orderly := by
  refine every_sequence trivial (fun m ms hsuffix => ?_) h
  obtain ⟨hm, hms⟩ := List.pairwise_cons.1 (hns.sublist hsuffix.sublist)
  refine ⟨fun x hx y hy => ?_, hms, fun x hx y hy => ?_⟩
  · exact (hm y hy).mono (mem_preorder_of_mem_nodes hx) y.self_mem_preorder
  · obtain ⟨m', hm', hy⟩ := mem_nodes_sequence hy
    exact (hm m' hm').mono (mem_preorder_of_mem_nodes hx) hy

lemma Skeleton.orderly_statements {ns : List Node} (hns : ns.Pairwise Node.Apart)
    (h : ∀ m ∈ ns, (skeleton d m).Every Orderly) :
    (Skeleton.statements (skeleton d) ns).Every Orderly :=
  orderly_sequence (hns.sublist List.filter_sublist) fun m hm => h m (List.mem_filter.1 hm).1

lemma Cases.orderly_ofNodes {cs : List Node} (hcs : cs.Pairwise Node.Apart) :
    (Cases.ofNodes (skeleton d) cs).Orderly := by
  induction cs with
  | nil => exact trivial
  | cons c cs ih =>
    obtain ⟨hc, hcs⟩ := List.pairwise_cons.1 hcs
    refine ⟨fun x hx y hy => ?_, ih hcs⟩
    obtain ⟨m, hm, hx⟩ := mem_nodes_statements hx
    obtain ⟨c', hc', hy⟩ := mem_nodes_ofNodes hy
    have hinside := Node.inside_of_mem_children (List.mem_filter.1 hm).1
    exact (hc c' hc').mono (Node.mem_preorder_trans hx hinside.mem_preorder) hy

lemma Skeleton.orderly_guarded (hn : n.FieldsDistinct) (hc : n.construct = .tryCatch)
    (h : ∀ m ∈ statementParts n, (skeleton d m).Every Orderly) :
    (Skeleton.guarded (skeleton d) n).Every Orderly := by
  refine every_guarded hc trivial (fun handler hhandler x hx y hy => ?_) h
  obtain ⟨m, hm, hx⟩ := mem_nodes_part hx
  obtain ⟨m', hm', hy⟩ := mem_nodes_part hy
  have hinside := (Node.inside_of_field? hm').mem_preorder
  exact (hn.apart (by decide) hm hhandler).mono hx (Node.mem_preorder_trans hy hinside)

/-- The last part of a try statement stands apart from the parts that it follows. -/
lemma Skeleton.apart_guarded (hn : n.FieldsDistinct) {last m : Node}
    (hlast : n.field? "finalizer" = some last) (hm : m ∈ last.preorder) :
    (Skeleton.guarded (skeleton d) n).Apart (skeleton d m) := by
  intro x hx y hy
  obtain ⟨name, m', hname, hm', hx⟩ := mem_nodes_guarded hx
  have hne : name ≠ "finalizer" := by
    rcases hname with rfl | rfl
    · decide
    · decide
  exact (hn.apart hne hm' hlast).mono hx
    (Node.mem_preorder_trans (mem_preorder_of_mem_nodes hy) hm)

/-- The skeleton of a node is orderly if those of its parts are. -/
lemma Skeleton.orderly_ofNode (hn : n.FieldsDistinct)
    (h : ∀ m ∈ statementParts n, (skeleton d m).Every Orderly) :
    (Skeleton.ofNode (skeleton d) n).Every Orderly := by
  have hguarded := orderly_guarded (d := d) hn
  have hfield {name : String} {x : Node}
      (hx : x ∈ (Skeleton.part (skeleton d) (n.field? name)).nodes) : x.Inside n := by
    obtain ⟨m, hm, hx⟩ := mem_nodes_part hx
    exact (Node.inside_of_field? hm).of_mem_preorder hx
  have hparts := h
  unfold statementParts at h
  rw [ofNode]
  cases hc : n.construct <;> simp only [hc] at h ⊢
  case block | elseClause | switchCase | switchDefault =>
    exact orderly_statements n.pairwise_apart_children h
  case conditional =>
    -- Fields name different children, and what is below these is apart.
    have hapart : (Skeleton.part (skeleton d) (n.field? "consequence")).Apart
        (Skeleton.part (skeleton d) (n.field? "alternative")) := by
      intro x hx y hy
      obtain ⟨m, hm, hx⟩ := mem_nodes_part hx
      obtain ⟨m', hm', hy⟩ := mem_nodes_part hy
      exact (hn.apart (by decide) hm hm').mono hx hy
    refine ⟨fun x hx => ?_, ⟨fun x => hfield, fun x => hfield, hapart⟩,
      every_part trivial fun m hm => ?_, every_part trivial fun m hm => ?_⟩
    · simp only [nodes, List.mem_cons, List.mem_append] at hx
      rcases hx with rfl | hx | hx
      · exact x.self_mem_preorder
      · exact (hfield hx).mem_preorder
      · exact (hfield hx).mem_preorder
    · exact h m (List.mem_append_left _ hm)
    · exact h m (List.mem_append_right _ hm)
  case forLoop | forEach | whileLoop =>
    rw [loopOf]
    -- The body lies inside the loop, so that no node of it stands for the loop.
    cases hbody : n.field? "body" with
    | none => exact trivial
    | some body =>
      refine ⟨fun x hx => ?_, h body (by simp [hbody])⟩
      exact (Node.inside_of_field? hbody).of_mem_preorder (mem_preorder_of_mem_nodes hx)
  case doWhile => exact ⟨fun x => hfield, every_part trivial h⟩
  case switch =>
    have hcases : (Walker.switchCases n).Pairwise Node.Apart :=
      (Node.pairwise_apart_children _).sublist List.filter_sublist
    refine ⟨⟨fun x hx => ?_, Cases.orderly_ofNodes hcases⟩, Cases.every_ofNodes fun c hcase => ?_⟩
    · obtain ⟨c, hcase, hx⟩ := mem_nodes_ofNodes hx
      exact (Node.inside_of_mem_switchCases hcase).of_mem_preorder hx
    · refine orderly_statements (c.pairwise_apart_children.sublist List.filter_sublist) ?_
      exact fun m hm => h m (List.mem_flatMap.2 ⟨c, hcase, hm⟩)
  case tryCatch =>
    rw [tryOf]
    cases hlast : n.field? "finalizer" with
    | none =>
      refine ⟨fun x hx => ?_, hguarded hc hparts⟩
      obtain ⟨name, m, -, hm, hx⟩ := mem_nodes_guarded hx
      exact ((Node.inside_of_field? hm).of_mem_preorder hx).mem_preorder
    | some last =>
      -- The last part is built from the finalizer or from its body.
      refine ⟨apart_guarded hn hlast (last.field?_getD_mem_preorder "body"), hguarded hc hparts,
        h _ (List.mem_append_right _ ?_)⟩
      rw [hlast, Option.map_some, Option.mem_toList]
  case labeled => exact every_part trivial h
  case returnJump | throwJump | breakJump | continueJump => exact trivial
  case ignored | declaration | function | classDef | statement => exact trivial

end Orderly

theorem orderly_skeleton (d : Nat) {n : Node} (h : n.FieldsDistinct) :
    (skeleton d n).Every Skeleton.Orderly := by
  induction d generalizing n with
  | zero => exact trivial
  | succ d ih =>
    refine Skeleton.orderly_ofNode h fun m hm => ih (h.of_mem_preorder ?_)
    exact (inside_of_mem_statementParts hm).mem_preorder

theorem orderly_ofBody (d : Nat) {f : Node} (h : f.FieldsDistinct) :
    (Skeleton.ofBody (skeleton d) f).Every Skeleton.Orderly := by
  unfold Skeleton.ofBody
  cases hbody : f.field? "body" with
  | none => exact trivial
  | some body =>
    dsimp only
    split_ifs
    · exact orderly_skeleton d (h.of_mem_preorder (Node.inside_of_field? hbody).mem_preorder)
    · exact trivial

/-! ### One place for everything inside a node -/

lemma Cases.Part.eq_or_apart {branch : Nat} {fs : List Frame} {cs : Cases} {ends : List OpenEnd}
    {g : Graph} {s s' : Site} (h : cs.Part branch fs ends g s) (h' : cs.Part branch fs ends g s')
    (hcs : cs.Orderly) : s = s' ∨ s.skeleton.Apart s'.skeleton := by
  induction h with
  | here label body rest ends g =>
    cases h' with
    | here => exact .inl rfl
    | later _ hlater => exact .inr fun x hx y hy => hcs.1 x hx y (hlater.nodes_subset hy)
  | later hr hlater ih =>
    cases h' with
    | here => exact .inr fun x hx y hy => (hcs.1 y hy x (hlater.nodes_subset hx)).symm
    | later hr' hlater' =>
      subst hr hr'
      exact ih hlater' hcs.2

/-- Two parts of a site are the same or stand apart. -/
lemma Site.Part.eq_or_apart {s s₁ s₂ : Site} (h₁ : s.Part s₁) (h₂ : s.Part s₂)
    (hs : s.skeleton.Orderly) : s₁ = s₂ ∨ s₁.skeleton.Apart s₂.skeleton := by
  -- Parts at the same place are the same, and two places of one skeleton are apart.
  cases h₁ with
  | first =>
    cases h₂ with
    | first => exact .inl rfl
    | rest => exact .inr hs.2.2
  | rest hr =>
    cases h₂ with
    | first => exact .inr hs.2.2.symm
    | rest hr' => exact .inl (by rw [hr, hr'])
  | yes =>
    cases h₂ with
    | yes => exact .inl rfl
    | no => exact .inr hs.2.2
  | no hr =>
    cases h₂ with
    | yes => exact .inr hs.2.2.symm
    | no hr' => exact .inl (by rw [hr, hr'])
  | tried =>
    cases h₂ with
    | tried => exact .inl rfl
    | handler => exact .inr hs
  | handler hr =>
    cases h₂ with
    | tried => exact .inr (Skeleton.Apart.symm hs)
    | handler hr' => exact .inl (by rw [hr, hr'])
  | joined | loop | doWhile =>
    cases h₂
    exact .inl rfl
  | case hg h =>
    cases h₂ with
    | case hg' h' =>
      subst hg hg'
      exact h.eq_or_apart h' hs.2
  | guarded =>
    cases h₂ with
    | guarded => exact .inl rfl
    | last => exact .inr hs
  | last hr =>
    cases h₂ with
    | guarded => exact .inr (Skeleton.Apart.symm hs)
    | last hr' => exact .inl (by rw [hr, hr'])

/-- The node of a point that a skeleton adds for itself does not stand inside a node of a part. -/
lemma Site.Adds.not_inside {s s' : Site} {i : Nat} {k : PointKind} {x y : Node}
    (h : s.Adds i k y) (hs : s.skeleton.Orderly) (hpart : s.Part s') (hx : x ∈ s'.skeleton.nodes) :
    ¬ y.Inside x := by
  have hinside {n : Node} (hxn : x.Inside n) : ¬ n.Inside x :=
    fun hn => hn.not_mem_preorder hxn.mem_preorder
  cases h with
  | plain | leave => cases hpart
  | dead hr hnone hy =>
    cases hpart with
    | first => exact (hs.1 x hx y (List.mem_of_getElem? hy)).symm.not_inside
    | rest hr' hopen =>
      subst hr hr'
      rw [hopen] at hnone
      cases hnone
  | branch =>
    cases hpart with
    | yes => exact hinside (hs.1 x hx)
    | no => exact hinside (hs.2.1 x hx)
  | joined =>
    cases hpart
    exact fun hn => hn.not_mem_preorder (hs x hx)
  | head hsk | exit hsk =>
    cases hsk with
    | bare => cases hpart
    | before | after =>
      cases hpart
      exact hinside (hs x hx)
  | switch | merge =>
    cases hpart with
    | case _ hcase => exact hinside (hs.1 x (hcase.nodes_subset hx))

/-- Of two points that a skeleton adds for itself, the node of one does not stand inside that of the
other. -/
lemma Site.Adds.not_inside_own {s : Site} {i j : Nat} {k k' : PointKind} {x y : Node}
    (h : s.Adds i k x) (h' : s.Adds j k' y) (hs : s.skeleton.Orderly) : ¬ y.Inside x := by
  by_cases heq : y = x
  · subst heq
    exact fun hself => hself.not_mem_preorder y.self_mem_preorder
  · exact (hs.pairwise_own.forall h'.mem_own h.mem_own heq).not_inside

/-- A new point whose node stands inside that of another point is new at the site where the other is
added. -/
theorem Site.Meets.isNew_of_inside {s s' : Site} {i j : Nat} {k : PointKind} {x : Node}
    (h : s.Meets s') (hadds : s'.Adds i k x) (hs : s.skeleton.Every Skeleton.Orderly)
    (hnew : s.graph.IsNew s.build.2 j)
    (hj : ∀ s₀ k' y, s.Meets s₀ → s₀.Adds j k' y → y.Inside x) :
    s'.graph.IsNew s'.build.2 j := by
  induction h using ReflTransGen.head_induction_on with
  | refl => exact hnew
  | @head s s₁ hpart hmeets ih =>
    have hx := Site.Meets.nodes_subset hmeets hadds.mem_nodes
    rcases s.new_cases hnew with ⟨k', y, hown⟩ | ⟨s₂, hpart₂, hnew₂⟩
    · exact absurd (hj s k' y .refl hown) (hown.not_inside hs.self hpart hx)
    · rcases hpart.eq_or_apart hpart₂ hs.self with rfl | hapart
      · refine ih (hpart.every hs) hnew₂ fun s₀ k' y hmeets₀ => ?_
        exact hj s₀ k' y (.head hpart hmeets₀)
      -- The point would be new at a part that stands apart from the node.
      · obtain ⟨s₀, k', y, hmeets₀, hadds₀⟩ := s₂.exists_adds hnew₂
        have hinside := hj s₀ k' y (.head hpart₂ hmeets₀) hadds₀
        have hy := Site.Meets.nodes_subset hmeets₀ hadds₀.mem_nodes
        exact absurd hinside (hapart x hx y hy).symm.not_inside

end Arbor.Flow
