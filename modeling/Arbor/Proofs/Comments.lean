import Arbor.Proofs.Interspersed
import Arbor.Proofs.Subtree

/-!
# Comments put into a tree

Comments may be put in between the children of any node, by which the children move on and the
fields with them. Every node of the tree then has a counterpart in the tree with the comments: a
node of the same kind, text and span, with the counterparts of its children for children, but for
the comments. What a definition takes out of a node it takes out of the counterpart too, so long as
it does not go by the place of a child among the others.
-/

namespace Arbor

/-! ### Trees with comments -/

/-- A comment: a leaf of that kind. -/
structure Tree.IsComment (t : Tree) : Prop where
  kind : t.kind = "comment"
  children : t.children = []

namespace Node

/-- The node is a comment. -/
def IsComment (n : Node) : Prop := n.tree.IsComment

/-- The tree is that of the node with comments put in, at places that are spared: `spares n marks`
says so of the places between the children of `n` that the marks tell. Every field still names the
same child. -/
@[mk_iff]
inductive Commented (spares : Node → List Bool → Prop) : Node → Tree → Prop where
  | intro {n : Node} {t : Tree} {marks : List Bool} (kind : t.kind = n.kind)
    (text : t.text = n.text) (span : t.span = n.span)
    (fields : ∀ name, t.fields.get? name = (n.tree.fields.get? name).map (shifted marks))
    (spared : spares n marks)
    (children : Interspersed Tree.IsComment (Commented spares) marks n.children t.children) :
    Commented spares n t

/-- The relation pairs nodes with their counterparts in a tree with comments, one with one. -/
structure Counterparts (spares : Node → List Bool → Prop) (R : Node → Node → Prop) : Prop where
  kind {n n' : Node} (h : R n n') : n'.kind = n.kind
  text {n n' : Node} (h : R n n') : n'.text = n.text
  span {n n' : Node} (h : R n n') : n'.span = n.span
  number {m m' n n' : Node} (hm : R m m') (hn : R n n') :
    m'.number = n'.number ↔ m.number = n.number
  inner {n n' : Node} (h : R n n') : ∃ marks, spares n marks ∧
    (∀ name, n'.tree.fields.get? name = (n.tree.fields.get? name).map (shifted marks)) ∧
    Interspersed IsComment R marks n.children n'.children

/-! ### The counterparts of the nodes of a tree -/

variable {spares : Node → List Bool → Prop}

/-- The numbers of the nodes lie between bounds. -/
def Bounded (R : Node → Node → Prop) (k l k' l' : Nat) : Prop :=
  ∀ m m', R m m' → (k ≤ m.number ∧ m.number < l) ∧ k' ≤ m'.number ∧ m'.number < l'

/-- Pairs of nodes of which all of the first come before all of the second. -/
lemma Counterparts.union {R S : Node → Node → Prop} {k l m k' l' m' : Nat}
    (hR : Counterparts spares R) (hS : Counterparts spares S) (hRb : Bounded R k l k' l')
    (hSb : Bounded S l m l' m') : Counterparts spares fun n n' => R n n' ∨ S n n' where
  kind h := h.elim hR.kind hS.kind
  text h := h.elim hR.text hS.text
  span h := h.elim hR.span hS.span
  number := by
    rintro a a' b b' (ha | ha) (hb | hb)
    · exact hR.number ha hb
    · have := hRb a a' ha
      have := hSb b b' hb
      omega
    · have := hSb a a' ha
      have := hRb b b' hb
      omega
    · exact hS.number ha hb
  inner h := by
    rcases h with h | h
    · obtain ⟨marks, hspared, hfields, hinner⟩ := hR.inner h
      exact ⟨marks, hspared, hfields, hinner.mono fun _ _ _ => .inl⟩
    · obtain ⟨marks, hspared, hfields, hinner⟩ := hS.inner h
      exact ⟨marks, hspared, hfields, hinner.mono fun _ _ _ => .inr⟩

/-- A pair of nodes in front of the pairs of the nodes below them. -/
lemma Counterparts.cons {R : Node → Node → Prop} (n n' : Node) {l l' : Nat} {marks : List Bool}
    (hR : Counterparts spares R) (hRb : Bounded R (n.number + 1) l (n'.number + 1) l')
    (hkind : n'.kind = n.kind) (htext : n'.text = n.text) (hspan : n'.span = n.span)
    (hfields : ∀ name, n'.tree.fields.get? name = (n.tree.fields.get? name).map (shifted marks))
    (hspared : spares n marks)
    (hinner : Interspersed IsComment R marks n.children n'.children) :
    Counterparts spares fun m m' => (m = n ∧ m' = n') ∨ R m m' where
  kind := by
    rintro m m' (⟨rfl, rfl⟩ | h)
    · exact hkind
    · exact hR.kind h
  text := by
    rintro m m' (⟨rfl, rfl⟩ | h)
    · exact htext
    · exact hR.text h
  span := by
    rintro m m' (⟨rfl, rfl⟩ | h)
    · exact hspan
    · exact hR.span h
  number := by
    rintro a a' b b' (⟨rfl, rfl⟩ | ha) (⟨rfl, rfl⟩ | hb)
    · simp
    · have := hRb b b' hb
      omega
    · have := hRb a a' ha
      omega
    · exact hR.number ha hb
  inner := by
    rintro m m' (⟨rfl, rfl⟩ | h)
    · exact ⟨marks, hspared, hfields, hinner.mono fun _ _ _ => .inr⟩
    · obtain ⟨marks, hspared, hfields, hinner⟩ := hR.inner h
      exact ⟨marks, hspared, hfields, hinner.mono fun _ _ _ => .inr⟩

/-- The node has a counterpart in the tree, numbered from `k'` on, and so have the nodes below. -/
def Paired (spares : Node → List Bool → Prop) (n : Node) (t : Tree) : Prop :=
  ∀ k', ∃ R, Counterparts spares R ∧ R n ⟨k', t⟩ ∧
    Bounded R n.number (n.number + n.size) k' (k' + t.size)

lemma exists_counterparts_numbered {marks : List Bool} {k : Nat} {ts ts' : List Tree}
    (h : Interspersed Tree.IsComment (Paired spares) marks (numbered k ts) ts') (k' : Nat) :
    ∃ R, Counterparts spares R ∧ Interspersed IsComment R marks (numbered k ts) (numbered k' ts') ∧
      Bounded R k (k + Tree.sizeAll ts) k' (k' + Tree.sizeAll ts') := by
  generalize hns : numbered k ts = ns at h ⊢
  induction h generalizing k ts k' with
  | nil => exact ⟨fun _ _ => False, by constructor <;> simp, .nil, fun _ _ h => h.elim⟩
  | @old n t' marks ns ts' hpaired _ ih =>
    cases ts with
    | nil => cases hns
    | cons t ts =>
      obtain ⟨rfl, hrest⟩ := List.cons.inj hns
      obtain ⟨R, hR, hroots, hRb⟩ := hpaired k'
      obtain ⟨S, hS, hinner, hSb⟩ := ih (k' + t'.size) hrest
      refine ⟨_, hR.union hS hRb hSb, .old (.inl hroots) (hinner.mono fun _ _ _ => .inr), ?_⟩
      rw [Tree.sizeAll, Tree.sizeAll]
      rintro m m' (h | h)
      · have := hRb m m' h
        simp only [size] at this
        omega
      · have := hSb m m' h
        omega
  | @new t' marks ns ts' hcomment _ ih =>
    obtain ⟨R, hR, hrest, hRb⟩ := ih (k' + t'.size) hns
    refine ⟨R, hR, .new hcomment hrest, fun m m' h => ?_⟩
    have := hRb m m' h
    rw [Tree.sizeAll]
    omega

lemma Commented.paired {n : Node} {t : Tree} (h : n.Commented spares t) : Paired spares n t := by
  obtain ⟨marks, hkind, htext, hspan, hfields, hspared, hchildren⟩ := (commented_iff ..).1 h
  intro k'
  have hpaired := hchildren.mono fun c hc t hcommented => Commented.paired hcommented
  obtain ⟨R, hR, hinner, hRb⟩ := exists_counterparts_numbered hpaired (k' + 1)
  refine ⟨_, hR.cons n ⟨k', t⟩ hRb hkind htext hspan hfields hspared hinner, .inl ⟨rfl, rfl⟩, ?_⟩
  have hsize := n.size_eq
  have hsize' : t.size = Tree.sizeAll t.children + 1 := size_eq ⟨k', t⟩
  rintro m m' (⟨rfl, rfl⟩ | h)
  · dsimp only
    omega
  · have := hRb m m' h
    omega
termination_by n.size
decreasing_by exact size_lt_of_mem_children hc

/-- The pairs of those nodes that are at or below a given one. -/
lemma Counterparts.restrict {R : Node → Node → Prop} (hR : Counterparts spares R) (root : Node) :
    Counterparts spares fun n n' => n ∈ root.preorder ∧ R n n' where
  kind h := hR.kind h.2
  text h := hR.text h.2
  span h := hR.span h.2
  number hm hn := hR.number hm.2 hn.2
  inner := by
    rintro n n' ⟨hn, h⟩
    obtain ⟨marks, hspared, hfields, hinner⟩ := hR.inner h
    exact ⟨marks, hspared, hfields, hinner.mono fun c hc _ hcc' =>
      ⟨mem_preorder_trans (inside_of_mem_children hc).mem_preorder hn, hcc'⟩⟩

theorem Commented.exists_counterparts {root : Node} {t : Tree} (h : root.Commented spares t) :
    ∃ R, Counterparts spares R ∧ R root (.root t) ∧ ∀ n n', R n n' → n ∈ root.preorder := by
  obtain ⟨R, hR, hroots, -⟩ := h.paired 0
  exact ⟨_, hR.restrict root, ⟨root.self_mem_preorder, hroots⟩, fun _ _ h => h.1⟩

/-! ### Groupings that are opened -/

/-- Some definitions look into parts of a node for what stands inside groupings, and take the first
child of each. The nodes that are looked into: the parts themselves, of all nodes of the tree, and
what comes first in a grouping that is looked into. -/
inductive LookedInto (parts : Node → List Node) (groups : String → Bool) (root : Node) :
    Node → Prop where
  | part {n m : Node} : n ∈ root.preorder → m ∈ parts n → LookedInto parts groups root m
  | inside {n m : Node} : LookedInto parts groups root n → groups n.kind = true →
    n.children.head? = some m → LookedInto parts groups root m

lemma not_lookedInto {parts : Node → List Node} {groups : String → Bool} {root m : Node}
    (h : ∀ n ∈ root.preorder, parts n = []) : ¬ LookedInto parts groups root m := by
  intro hm
  induction hm with
  | @part n m hn hm =>
    rw [h n hn] at hm
    exact List.not_mem_nil hm
  | inside _ _ _ ih => exact ih

end Node

/-! ### A tree without new comments -/

/-- Every node is its own counterpart. -/
lemma Node.counterparts_eq {spares : Node → List Bool → Prop}
    (hspares : ∀ n : Node, spares n (List.replicate n.children.length true)) :
    Counterparts spares Eq where
  kind h := by rw [h]
  text h := by rw [h]
  span h := by rw [h]
  number hm hn := by rw [hm, hn]
  inner := by
    rintro n _ rfl
    refine ⟨_, hspares n, fun name => ?_, .of_forall₂ (List.forall₂_same.2 fun _ _ => rfl)⟩
    cases n.tree.fields.get? name with
    | none => rfl
    | some i => rw [Option.map_some, shifted_replicate]

/-! ### Comments -/

namespace Node.IsComment

variable {n : Node}

lemma kind (h : n.IsComment) : n.kind = "comment" := Tree.IsComment.kind h

lemma children (h : n.IsComment) : n.children = [] := by
  rw [Node.children, Tree.IsComment.children h, numbered]

lemma field? (h : n.IsComment) (name : String) : n.field? name = none := by
  rw [Node.field?, h.children]
  cases n.tree.fields.get? name <;> rfl

lemma targetForm (h : n.IsComment) : n.targetForm = .other := by
  rw [Node.targetForm, h.kind]
  rfl

lemma boundNames (h : n.IsComment) : n.boundNames = [] := by
  rw [boundNames_eq, namingParts, h.targetForm]
  rfl

lemma bindingDefaults (h : n.IsComment) : n.bindingDefaults = [] := by
  rw [bindingDefaults_eq, ownDefault?, defaultingParts, h.targetForm]
  rfl

end Node.IsComment

/-! ### What counterparts have in common -/

namespace Node.Counterparts

variable {spares : Node → List Bool → Prop} {R : Node → Node → Prop} {m m' n n' : Node}
  (hR : Counterparts spares R)
include hR

lemma same (hm : R m m') (hn : R n n') : m'.same n' = m.same n := by
  rw [Node.same, Node.same, Bool.eq_iff_iff, beq_iff_eq, beq_iff_eq]
  exact hR.number hm hn

lemma children (h : R n n') : Spread IsComment R n.children n'.children := by
  obtain ⟨marks, -, -, hinner⟩ := hR.inner h
  exact ⟨marks, hinner⟩

/-- The first child of a kind, if comments are of another. -/
lemma find?_kind (h : R n n') {kind : String} (hkind : ("comment" == kind) = false) :
    Option.Rel R (n.children.find? (·.kind == kind)) (n'.children.find? (·.kind == kind)) :=
  (hR.children h).find? (fun c c' hc => by rw [hR.kind hc]) fun c' hc' => by rw [hc'.kind, hkind]

lemma field? (h : R n n') (name : String) : Option.Rel R (n.field? name) (n'.field? name) := by
  obtain ⟨marks, -, hfields, hinner⟩ := hR.inner h
  rw [Node.field?, Node.field?, hfields]
  cases n.tree.fields.get? name with
  | none => exact .none
  | some i => exact hinner.getElem? i

lemma field?_getD (h : R n n') (name : String) :
    R ((n.field? name).getD n) ((n'.field? name).getD n') := by
  match n.field? name, n'.field? name, hR.field? h name with
  | none, none, .none => exact h
  | some m, some m', .some hm => exact hm

lemma fieldOr? (h : R n n') (name other : String) :
    Option.Rel R (n.fieldOr? name other) (n'.fieldOr? name other) := by
  have hname := hR.field? h name
  rw [Node.fieldOr?, Node.fieldOr?]
  generalize n.field? name = x, n'.field? name = x' at hname
  cases hname with
  | none => exact hR.field? h other
  | some hfield => exact .some hfield

/-- A test of counterparts is a test of what stands under a field. -/
lemma any_field? (h : R n n') (name : String) {p : Node → Bool}
    (hp : ∀ m m', R m m' → p m' = p m) : (n'.field? name).any p = (n.field? name).any p := by
  match n.field? name, n'.field? name, hR.field? h name with
  | none, none, .none => rfl
  | some m, some m', .some hm => exact hp m m' hm

lemma isSome_field? (h : R n n') (name : String) :
    (n'.field? name).isSome = (n.field? name).isSome := by
  match n.field? name, n'.field? name, hR.field? h name with
  | none, none, .none => rfl
  | some m, some m', .some hm => rfl

lemma any_same {c c' : Node} (hc : R c c') {x x' : Option Node} (hx : Option.Rel R x x') :
    x'.any c'.same = x.any c.same := by
  cases hx with
  | none => rfl
  | some hm => exact hR.same hc hm

/-- What stands beside the child under a field, but for comments. -/
lemma others (h : R n n') (name : String) :
    Spread IsComment R (n.children.filter fun c => !(n.field? name).any c.same)
      (n'.children.filter fun c => !(n'.field? name).any c.same) :=
  (hR.children h).filter fun _ _ hc => congrArg Bool.not (hR.any_same hc (hR.field? h name))

lemma targetForm (h : R n n') : n'.targetForm = n.targetForm := by
  rw [Node.targetForm, Node.targetForm, hR.kind h]

lemma construct (h : R n n') : n'.construct = n.construct := by
  rw [Node.construct, Node.construct, hR.kind h]

lemma namingParts (h : R n n') : Spread IsComment R n.namingParts n'.namingParts := by
  rw [Node.namingParts, Node.namingParts, hR.targetForm h]
  cases n.targetForm with
  | name | other => exact ⟨_, .nil⟩
  | defaulted | pair | annotated => exact .of_option (hR.field? h _)
  | parameter => exact .of_option (hR.fieldOr? h _ _)
  | group | sequence => exact hR.children h

lemma defaultingParts (h : R n n') : Spread IsComment R n.defaultingParts n'.defaultingParts := by
  rw [Node.defaultingParts, Node.defaultingParts, hR.targetForm h]
  cases n.targetForm with
  | name | parameter | sequence | other => exact ⟨_, .nil⟩
  | defaulted | pair | annotated => exact .of_option (hR.field? h _)
  | group => exact hR.children h

lemma ownDefault? (h : R n n') : Option.Rel R n.ownDefault? n'.ownDefault? := by
  rw [Node.ownDefault?, Node.ownDefault?, hR.targetForm h]
  cases n.targetForm with
  | defaulted | annotated => exact hR.field? h _
  | name | pair | parameter | group | sequence | other => exact .none

lemma boundNames {n n' : Node} (h : R n n') : List.Forall₂ R n.boundNames n'.boundNames := by
  rw [boundNames_eq, n'.boundNames_eq, hR.targetForm h]
  split_ifs
  · exact .cons h .nil
  · exact (hR.namingParts h).forall₂_flatMap (fun c hc c' hcc' => boundNames hcc')
      fun _ => IsComment.boundNames
termination_by n.size
decreasing_by exact size_lt_of_mem_children (mem_children_of_mem_namingParts hc)

lemma boundNames_field? (h : R n n') (name : String) :
    List.Forall₂ R ((n.field? name).toList.flatMap Node.boundNames)
      ((n'.field? name).toList.flatMap Node.boundNames) :=
  List.rel_flatMap (forall₂_toList (hR.field? h name)) fun _ _ hp => hR.boundNames hp

lemma bindingDefaults {n n' : Node} (h : R n n') :
    List.Forall₂ R n.bindingDefaults n'.bindingDefaults := by
  rw [bindingDefaults_eq, n'.bindingDefaults_eq]
  refine List.rel_append (forall₂_toList (hR.ownDefault? h)) ?_
  exact (hR.defaultingParts h).forall₂_flatMap (fun c hc c' hcc' => bindingDefaults hcc')
    fun _ => IsComment.bindingDefaults
termination_by n.size
decreasing_by exact size_lt_of_mem_children (mem_children_of_mem_defaultingParts hc)

lemma parameters (h : R n n') : Spread IsComment R n.parameters n'.parameters := by
  have hlist := hR.field? h "parameters"
  rw [Node.parameters, Node.parameters]
  generalize n.field? "parameters" = x, n'.field? "parameters" = x' at hlist
  cases hlist with
  | none => exact .of_option (hR.field? h _)
  | some hlist => exact hR.children hlist

/-- Whether a node of some kind stands at or below a node does not depend on comments. -/
lemma any_preorder {p : String → Bool} (hp : p "comment" = false) {n n' : Node} (h : R n n') :
    (n'.preorder.any fun m => p m.kind) = n.preorder.any fun m => p m.kind := by
  rw [n'.preorder_eq, n.preorder_eq, List.any_cons, List.any_cons, List.any_flatMap,
    List.any_flatMap, hR.kind h]
  congr 1
  refine (hR.children h).any (fun c hc c' hcc' => any_preorder hp hcc') fun c' hc' => ?_
  rw [c'.preorder_eq, hc'.children]
  simp [hc'.kind, hp]
termination_by n.size
decreasing_by exact size_lt_of_mem_children hc

end Node.Counterparts

end Arbor
