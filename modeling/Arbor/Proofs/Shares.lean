import Arbor.Proofs.Subtree
import Mathlib.Data.List.Nodup
import Mathlib.Data.List.Perm.Subperm

/-!
# Shares

A place in a tree lies at or below a node or it does not. Counted so, the children of a node have
not more than the node, and neither do the names that a target binds and its defaults together, if
no two fields of a node name the same child.
-/

namespace Arbor.Node

/-! ### Shares -/

/-- How often a place is that of the node: once or not at all. -/
def here (k : Nat) (n : Node) : Nat := if n.number = k then 1 else 0

/-- How often a place lies at or below the node: once or not at all. -/
def share (k : Nat) (n : Node) : Nat := if n.number ≤ k ∧ k < n.number + n.size then 1 else 0

/-- What some nodes cost together. -/
def total (cost : Node → Nat) : List Node → Nat
  | [] => 0
  | n :: ns => cost n + total cost ns

/-- How often a place lies at or below the child under a field. -/
def fieldShare (k : Nat) (n : Node) (name : String) : Nat := total (share k) (n.field? name).toList

/-- How often a place lies at or below the children under some fields. -/
def fieldShares (k : Nat) (n : Node) : List String → Nat
  | [] => 0
  | name :: names => n.fieldShare k name + fieldShares k n names

variable {k : Nat} {m n : Node} {ms ns : List Node}

lemma share_le_one (k : Nat) (n : Node) : n.share k ≤ 1 := by
  unfold share
  split_ifs
  · exact Nat.le_refl 1
  · exact Nat.zero_le 1

lemma share_pos_iff : 0 < n.share k ↔ n.number ≤ k ∧ k < n.number + n.size := by
  unfold share
  split_ifs with h
  · exact iff_of_true Nat.zero_lt_one h
  · exact iff_of_false (Nat.lt_irrefl 0) h

lemma share_self (n : Node) : n.share n.number = 1 :=
  if_pos ⟨Nat.le_refl _, Nat.lt_add_of_pos_right n.tree.size_pos⟩

lemma share_le_of_mem_preorder (k : Nat) (h : m ∈ n.preorder) : m.share k ≤ n.share k := by
  have hbounds := bounds_of_mem_preorder h
  have hm := m.share_le_one k
  have hm' := share_pos_iff (k := k) (n := m)
  have hn' := share_pos_iff (k := k) (n := n)
  omega

lemma share_of_mem_preorder (h : m ∈ n.preorder) : n.share m.number = 1 := by
  have hle := share_le_of_mem_preorder m.number h
  have hone := n.share_le_one m.number
  have hself := m.share_self
  omega

section Total

variable (cost : Node → Nat)

@[simp] lemma total_nil : total cost [] = 0 := rfl

@[simp] lemma total_cons (n : Node) (ns : List Node) :
    total cost (n :: ns) = cost n + total cost ns := rfl

@[simp] lemma total_append (ms ns : List Node) :
    total cost (ms ++ ns) = total cost ms + total cost ns := by
  induction ms with
  | nil => simp
  | cons m ms ih => simp [ih, Nat.add_assoc]

lemma total_flatMap (f : Node → List Node) (ns : List Node) :
    total cost (ns.flatMap f) = total (fun n => total cost (f n)) ns := by
  induction ns with
  | nil => rfl
  | cons n ns ih => simp [ih]

lemma total_le_of_sublist (h : ms.Sublist ns) : total cost ms ≤ total cost ns := by
  induction h with
  | slnil => exact Nat.le_refl _
  | cons n _ ih => exact Nat.le_trans ih (Nat.le_add_left _ _)
  | cons_cons n _ ih => exact Nat.add_le_add_left ih _

lemma total_perm (h : ms.Perm ns) : total cost ms = total cost ns := by
  induction h with
  | nil => rfl
  | cons n _ ih => rw [total_cons, total_cons, ih]
  | swap m n ns => simp only [total_cons, Nat.add_left_comm]
  | trans _ _ ih ih' => rw [ih, ih']

lemma total_add (cost' : Node → Nat) (ns : List Node) :
    total (fun n => cost n + cost' n) ns = total cost ns + total cost' ns := by
  induction ns with
  | nil => rfl
  | cons n ns ih =>
    simp only [total_cons, ih]
    omega

lemma total_mono {cost cost' : Node → Nat} (h : ∀ n ∈ ns, cost n ≤ cost' n) :
    total cost ns ≤ total cost' ns := by
  induction ns with
  | nil => exact Nat.le_refl _
  | cons n ns ih =>
    exact Nat.add_le_add (h n (by simp)) (ih fun m hm => h m (List.mem_cons_of_mem n hm))

end Total

lemma shares_numbered_le (k j : Nat) (ts : List Tree) : total (share k) (numbered j ts) ≤ 1 ∧
    (0 < total (share k) (numbered j ts) → j ≤ k ∧ k < j + Tree.sizeAll ts) := by
  induction ts generalizing j with
  | nil => simp [numbered]
  | cons t ts ih =>
    have hrest := ih (j + t.size)
    have hfirst := share_le_one k ⟨j, t⟩
    have hfirst' := share_pos_iff (k := k) (n := ⟨j, t⟩)
    simp only [size] at hfirst'
    rw [numbered, total_cons, Tree.sizeAll]
    omega

/-- A place is the node itself, or it lies at or below one of its children, if it lies at or below
the node at all. -/
lemma shares_children_le (k : Nat) (n : Node) :
    n.here k + total (share k) n.children ≤ n.share k := by
  have hchildren := shares_numbered_le k (n.number + 1) n.tree.children
  have hn := share_pos_iff (k := k) (n := n)
  rw [n.size_eq] at hn
  rw [children, here]
  split_ifs
  · omega
  · omega

lemma shares_le_of_sublist (k : Nat) (h : ms.Sublist n.children) :
    total (share k) ms ≤ n.share k := by
  have hle := total_le_of_sublist (share k) h
  have hchildren := shares_children_le k n
  omega

lemma nodup_children (n : Node) : n.children.Nodup := by
  refine n.pairwise_apart_children.imp fun {c d} happart => ?_
  rintro rfl
  exact happart c c.self_mem_preorder c.self_mem_preorder

/-- Children that are listed once are not more than all children. -/
lemma shares_le_of_nodup (k : Nat) (hnodup : ms.Nodup) (h : ∀ m ∈ ms, m ∈ n.children) :
    total (share k) ms ≤ n.share k := by
  obtain ⟨ns, hperm, hsub⟩ := List.subperm_of_subset hnodup h
  have hle := total_le_of_sublist (share k) hsub
  have hall := shares_children_le k n
  rw [total_perm _ hperm] at hle
  omega

lemma fieldShares_eq (k : Nat) (n : Node) (names : List String) :
    n.fieldShares k names = total (share k) (names.filterMap n.field?) := by
  induction names with
  | nil => rfl
  | cons name names ih =>
    rw [fieldShares, ih, fieldShare]
    cases h : n.field? name with
    | none => simp [h]
    | some c => simp [h]

/-- Children under different names are not more than all children. -/
lemma FieldsDistinct.fieldShares_le (h : n.FieldsDistinct) (k : Nat) (names : List String)
    (hnames : names.Nodup) : n.fieldShares k names ≤ n.share k := by
  rw [fieldShares_eq]
  refine shares_le_of_nodup k ?_ fun m hm => ?_
  · refine hnames.filterMap fun a b c ha hb => ?_
    by_contra hne
    exact h.apart hne ha hb c c.self_mem_preorder c.self_mem_preorder
  · obtain ⟨name, -, hm⟩ := List.mem_filterMap.1 hm
    exact mem_children_of_field? hm

lemma fieldShare_le (k : Nat) (n : Node) (name : String) : n.fieldShare k name ≤ n.share k := by
  rw [fieldShare]
  cases h : n.field? name with
  | none => simp
  | some c => simpa using share_le_of_mem_preorder k (inside_of_field? h).mem_preorder

lemma fieldShare_of_some {name : String} (h : n.field? name = some m) :
    n.fieldShare k name = m.share k := by
  simp [fieldShare, h]

lemma fieldShare_of_none {name : String} (h : n.field? name = none) :
    n.fieldShare k name = 0 := by
  simp [fieldShare, h]

/-- The child under a field and the other children are not more than all children. -/
lemma shares_field_add_others_le (k : Nat) (n : Node) (name : String) :
    n.fieldShare k name +
      total (share k) (n.children.filter fun c => !(n.field? name).any c.same) ≤ n.share k := by
  cases h : n.field? name with
  | none =>
    rw [fieldShare_of_none h, Nat.zero_add]
    exact shares_le_of_sublist k List.filter_sublist
  | some v =>
    rw [fieldShare_of_some h, ← total_cons]
    refine shares_le_of_nodup k ?_ fun m hm => ?_
    · refine List.nodup_cons.2 ⟨fun hmem => ?_, n.nodup_children.filter _⟩
      simpa [same] using List.of_mem_filter hmem
    · rcases List.mem_cons.1 hm with rfl | hm
      · exact mem_children_of_field? h
      · exact List.mem_of_mem_filter hm

/-! ### Targets of declarations -/

/-- How often a place is one of the names that a target binds. -/
def nameShare (k : Nat) (n : Node) : Nat :=
  total (here k) n.boundNames

/-- The default of a target and the target that it wraps are not more than all children. -/
lemma FieldsDistinct.shares_targetParts_le (h : n.FieldsDistinct) (k : Nat) :
    total (share k) n.ownDefault?.toList + total (share k) n.namingParts ≤ n.share k := by
  have hparts := shares_le_of_sublist k n.namingParts_sublist
  cases hform : n.targetForm with
  | defaulted =>
    have hfields := h.fieldShares_le k ["right", "left"] (by decide)
    simpa [ownDefault?, namingParts, hform, fieldShares, fieldShare] using hfields
  | annotated =>
    have hfields := h.fieldShares_le k ["value", "pattern"] (by decide)
    simpa [ownDefault?, namingParts, hform, fieldShares, fieldShare] using hfields
  | name | pair | parameter | group | sequence | other => simpa [ownDefault?, hform] using hparts

/-- No place is both one of the names that a target binds and at or below one of its defaults, and
none is so twice. -/
lemma FieldsDistinct.nameShare_add_le {n : Node} (h : n.FieldsDistinct) (k : Nat) :
    n.nameShare k + total (share k) n.bindingDefaults ≤ n.share k := by
  have hparts := h.shares_targetParts_le k
  have ih : ∀ c ∈ n.namingParts, c.nameShare k + total (share k) c.bindingDefaults ≤ c.share k := by
    intro c hc
    have hinside := inside_of_mem_children (mem_children_of_mem_namingParts hc)
    exact (h.of_mem_preorder hinside.mem_preorder).nameShare_add_le k
  have hsum := total_mono ih
  rw [total_add] at hsum
  rw [nameShare, boundNames_eq, bindingDefaults_eq, total_append, total_flatMap]
  split_ifs with hname
  · -- A name has neither a default nor parts.
    have hown : n.ownDefault? = none := by simp [ownDefault?, hname]
    have hdefaulting : n.defaultingParts = [] := by simp [defaultingParts, hname]
    rw [hown, hdefaulting]
    have hself := shares_children_le k n
    simp only [Option.toList_none, total_nil, total_cons]
    omega
  · rw [total_flatMap]
    change total (nameShare k) n.namingParts + _ ≤ _
    rcases n.defaultingParts_cases with heq | heq
    · rw [heq]
      omega
    · rw [heq, total_nil]
      omega
termination_by n.size
decreasing_by exact size_lt_of_mem_children (mem_children_of_mem_namingParts hc)

lemma shares_bindingDefaults_le (h : n.FieldsDistinct) (k : Nat) :
    total (share k) n.bindingDefaults ≤ n.share k :=
  Nat.le_trans (Nat.le_add_left _ _) (h.nameShare_add_le k)

lemma FieldsDistinct.shares_parameters_le (h : n.FieldsDistinct) (k : Nat) :
    total (share k) n.parameters + n.fieldShare k "body" ≤ n.share k := by
  have hlist := h.fieldShares_le k ["parameters", "body"] (by decide)
  have hsingle := h.fieldShares_le k ["parameter", "body"] (by decide)
  simp only [fieldShares] at hlist hsingle
  unfold parameters
  cases hlist? : n.field? "parameters" with
  | none => exact hsingle
  | some list =>
    have hchildren := shares_children_le k list
    rw [fieldShare_of_some hlist?] at hlist
    dsimp only
    omega

/-! ### Tidy trees -/

/-- At and below the node, no two fields name the same child, and every switch has a body. -/
structure Tidy (n : Node) : Prop where
  fields : n.FieldsDistinct
  bodies : ∀ m ∈ n.preorder, m.construct = .switch → (m.field? "body").isSome

instance (n : Node) : Decidable n.Tidy :=
  decidable_of_iff (n.FieldsDistinct ∧ ∀ m ∈ n.preorder, m.construct = .switch →
    (m.field? "body").isSome) ⟨fun h => ⟨h.1, h.2⟩, fun h => ⟨h.1, h.2⟩⟩

namespace Tidy

lemma of_mem_preorder (h : n.Tidy) (hm : m ∈ n.preorder) : m.Tidy :=
  ⟨h.fields.of_mem_preorder hm, fun x hx => h.bodies x (mem_preorder_trans hx hm)⟩

lemma of_inside (h : n.Tidy) (hm : m.Inside n) : m.Tidy := h.of_mem_preorder hm.mem_preorder

lemma of_mem_children (h : n.Tidy) (hm : m ∈ n.children) : m.Tidy :=
  h.of_inside (inside_of_mem_children hm)

lemma of_field? (h : n.Tidy) {name : String} (hm : n.field? name = some m) : m.Tidy :=
  h.of_inside (inside_of_field? hm)

end Tidy

end Arbor.Node
