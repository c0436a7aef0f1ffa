import Arbor.Flow.Statement
import Arbor.Node.Below
import Mathlib.Data.List.Flatten
import Mathlib.Data.List.Pairwise
import Mathlib.Tactic.Common

/-!
# The subtree of a node

The nodes at and below a node are those that its pre-order lists. A node is inside another if it
stands at or below one of its children. Whatever a definition takes out of a node, a field, the
defaults of a target or the parameters of a function, is inside the node.
-/

namespace Arbor.Node

/-! ### Pre-order -/

lemma preorderAll_eq (k : Nat) (ts : List Tree) :
    preorderAll k ts = (numbered k ts).flatMap preorder := by
  induction ts generalizing k with
  | nil => rfl
  | cons t ts ih =>
    rw [preorderAll, numbered, List.flatMap_cons, ih]
    rfl

lemma preorder_eq (n : Node) : n.preorder = n :: n.children.flatMap preorder := by
  obtain ⟨k, kind, text, span, children, fields⟩ := n
  rw [preorder, preorderFrom, preorderAll_eq]
  rfl

lemma mem_preorder {m n : Node} :
    m ∈ n.preorder ↔ m = n ∨ ∃ c ∈ n.children, m ∈ c.preorder := by
  rw [preorder_eq, List.mem_cons, List.mem_flatMap]

@[simp] lemma self_mem_preorder (n : Node) : n ∈ n.preorder := by
  rw [mem_preorder]
  exact .inl rfl

lemma mem_preorder_trans {a b c : Node} (hab : a ∈ b.preorder) (hbc : b ∈ c.preorder) :
    a ∈ c.preorder := by
  rcases mem_preorder.1 hbc with rfl | ⟨d, hd, hbd⟩
  · exact hab
  · rw [mem_preorder]
    exact .inr ⟨d, hd, mem_preorder_trans hab hbd⟩
termination_by c.size
decreasing_by exact size_lt_of_mem_children hd

/-! ### Inside -/

/-- The node `m` stands below the node `n`. -/
def Inside (m n : Node) : Prop := ∃ c ∈ n.children, m ∈ c.preorder

lemma Inside.mem_preorder {m n : Node} (h : m.Inside n) : m ∈ n.preorder := by
  rw [Node.mem_preorder]
  exact .inr h

lemma mem_preorder_iff_inside {m n : Node} : m ∈ n.preorder ↔ m = n ∨ m.Inside n :=
  mem_preorder

/-- What is at or below a node inside another is inside the other too. -/
lemma Inside.of_mem_preorder {a b c : Node} (hbc : b.Inside c) (hab : a ∈ b.preorder) :
    a.Inside c := by
  obtain ⟨d, hd, hbd⟩ := hbc
  exact ⟨d, hd, mem_preorder_trans hab hbd⟩

/-- What is inside a node at or below another is inside the other too. -/
lemma Inside.up {a b c : Node} (hab : a.Inside b) (hbc : b ∈ c.preorder) : a.Inside c := by
  rcases mem_preorder_iff_inside.1 hbc with rfl | hbc
  · exact hab
  · exact hbc.of_mem_preorder hab.mem_preorder

lemma Inside.trans {a b c : Node} (hab : a.Inside b) (hbc : b.Inside c) : a.Inside c :=
  hbc.of_mem_preorder hab.mem_preorder

lemma inside_of_mem_children {n c : Node} (h : c ∈ n.children) : c.Inside n :=
  ⟨c, h, c.self_mem_preorder⟩

lemma inside_of_field? {n c : Node} {name : String} (h : n.field? name = some c) : c.Inside n :=
  inside_of_mem_children (mem_children_of_field? h)

/-- The body of a labeled statement is inside it. -/
lemma inside_of_field?_or_getLast? {n c : Node} {name : String}
    (h : (n.field? name).or n.children.getLast? = some c) : c.Inside n := by
  rcases Option.or_eq_some_iff.1 h with h | ⟨-, h⟩
  · exact inside_of_field? h
  · exact inside_of_mem_children (List.mem_of_getLast? h)

lemma field?_getD_mem_preorder (n : Node) (name : String) :
    (n.field? name).getD n ∈ n.preorder := by
  cases h : n.field? name with
  | none => exact n.self_mem_preorder
  | some c => exact (inside_of_field? h).mem_preorder

/-! ### Places -/

lemma map_tree_numbered (k : Nat) (ts : List Tree) : (numbered k ts).map tree = ts := by
  induction ts generalizing k with
  | nil => rfl
  | cons t ts ih => rw [numbered, List.map_cons, ih]

lemma length_numbered (k : Nat) (ts : List Tree) : (numbered k ts).length = ts.length := by
  rw [← List.length_map tree, map_tree_numbered]

lemma size_le_of_mem_preorder {m n : Node} (h : m ∈ n.preorder) : m.size ≤ n.size := by
  rcases mem_preorder.1 h with rfl | ⟨c, hc, h⟩
  · exact Nat.le_refl _
  · have hle := size_le_of_mem_preorder h
    exact Nat.le_trans hle (Nat.le_of_lt (size_lt_of_mem_children hc))
termination_by n.size
decreasing_by exact size_lt_of_mem_children hc

lemma Inside.size_lt {m n : Node} (h : m.Inside n) : m.size < n.size := by
  obtain ⟨c, hc, h⟩ := h
  exact Nat.lt_of_le_of_lt (size_le_of_mem_preorder h) (size_lt_of_mem_children hc)

/-- No node stands below a node at or below itself. -/
lemma Inside.not_mem_preorder {m n : Node} (h : m.Inside n) : n ∉ m.preorder :=
  fun hn => Nat.not_lt.2 (size_le_of_mem_preorder hn) h.size_lt

lemma size_eq (n : Node) : n.size = Tree.sizeAll n.tree.children + 1 := by
  obtain ⟨k, kind, text, span, children, fields⟩ := n
  rw [size, Tree.size]

lemma bounds_of_mem_numbered {k : Nat} {ts : List Tree} {c : Node} (h : c ∈ numbered k ts) :
    k ≤ c.number ∧ c.number + c.size ≤ k + Tree.sizeAll ts := by
  induction ts generalizing k with
  | nil => cases h
  | cons t ts ih =>
    rw [Tree.sizeAll]
    rcases List.mem_cons.1 h with rfl | h
    · exact ⟨Nat.le_refl _, Nat.add_le_add_left (Nat.le_add_right _ _) k⟩
    · have := ih h
      omega

/-- The numbers of the nodes at and below a node follow each other. -/
lemma bounds_of_mem_preorder {m n : Node} (h : m ∈ n.preorder) :
    n.number ≤ m.number ∧ m.number + m.size ≤ n.number + n.size := by
  rcases mem_preorder.1 h with rfl | ⟨c, hc, h⟩
  · exact ⟨Nat.le_refl _, Nat.le_refl _⟩
  · have hbelow := bounds_of_mem_preorder h
    have hchild := bounds_of_mem_numbered hc
    rw [n.size_eq]
    omega
termination_by n.size
decreasing_by exact size_lt_of_mem_children hc

/-- The nodes have no place at or below them in common. -/
def Apart (m n : Node) : Prop := ∀ x ∈ m.preorder, x ∉ n.preorder

lemma Apart.symm {m n : Node} (h : m.Apart n) : n.Apart m := fun x hx hm => h x hm hx

instance : Std.Symm Apart := ⟨fun _ _ => Apart.symm⟩

/-- What is at or below nodes that are apart is apart. -/
lemma Apart.mono {m n m' n' : Node} (h : m.Apart n) (hm : m' ∈ m.preorder) (hn : n' ∈ n.preorder) :
    m'.Apart n' :=
  fun x hx hx' => h x (mem_preorder_trans hx hm) (mem_preorder_trans hx' hn)

lemma Apart.not_inside {m n : Node} (h : m.Apart n) : ¬ m.Inside n :=
  fun hinside => h m m.self_mem_preorder hinside.mem_preorder

lemma apart_of_le {m n : Node} (h : m.number + m.size ≤ n.number) : m.Apart n := by
  intro x hm hn
  have hxm := bounds_of_mem_preorder hm
  have hxn := bounds_of_mem_preorder hn
  have hpos : 0 < x.size := x.tree.size_pos
  omega

lemma pairwise_apart_numbered (k : Nat) (ts : List Tree) : (numbered k ts).Pairwise Apart := by
  induction ts generalizing k with
  | nil => exact .nil
  | cons t ts ih =>
    refine .cons (fun c hc => apart_of_le ?_) (ih _)
    exact (bounds_of_mem_numbered hc).1

lemma pairwise_apart_children (n : Node) : n.children.Pairwise Apart :=
  pairwise_apart_numbered _ _

/-- A place lies at or below one child only. -/
lemma eq_of_mem_children {n c d x : Node} (hc : c ∈ n.children) (hd : d ∈ n.children)
    (hxc : x ∈ c.preorder) (hxd : x ∈ d.preorder) : c = d := by
  by_contra hne
  exact n.pairwise_apart_children.forall hc hd hne x hxc hxd

/-- Of two places in a tree, one lies below the other or they are apart. -/
lemma place_cases {root m n : Node} (hm : m ∈ root.preorder) (hn : n ∈ root.preorder) :
    m = n ∨ m.Inside n ∨ n.Inside m ∨ m.Apart n := by
  rcases mem_preorder_iff_inside.1 hm with rfl | ⟨c, hc, hmc⟩
  · rcases mem_preorder_iff_inside.1 hn with rfl | hn
    · exact .inl rfl
    · exact .inr (.inr (.inl hn))
  · rcases mem_preorder_iff_inside.1 hn with rfl | ⟨d, hd, hnd⟩
    · exact .inr (.inl ⟨c, hc, hmc⟩)
    · by_cases hcd : c = d
      · subst hcd
        exact place_cases hmc hnd
      · have happart : c.Apart d := root.pairwise_apart_children.forall hc hd hcd
        exact .inr (.inr (.inr (happart.mono hmc hnd)))
termination_by root.size
decreasing_by exact size_lt_of_mem_children hc

/-- A place is the child of one place only. -/
lemma eq_of_mem_children_children {root m n c : Node} (hm : m ∈ root.preorder)
    (hn : n ∈ root.preorder) (hcm : c ∈ m.children) (hcn : c ∈ n.children) : m = n := by
  have hbelow {a b : Node} (ha : c ∈ a.children) (hb : c ∈ b.children) : ¬ a.Inside b := by
    rintro ⟨d, hd, had⟩
    have hca : c.Inside d := (inside_of_mem_children ha).up had
    obtain rfl : c = d := eq_of_mem_children hb hd c.self_mem_preorder hca.mem_preorder
    exact hca.not_mem_preorder c.self_mem_preorder
  rcases place_cases hm hn with rfl | hin | hin | happart
  · rfl
  · exact absurd hin (hbelow hcm hcn)
  · exact absurd hin (hbelow hcn hcm)
  · exact absurd (inside_of_mem_children hcn).mem_preorder
      (happart c (inside_of_mem_children hcm).mem_preorder)

/-- Whatever a child lies inside of, its parent lies at or inside of. -/
lemma Inside.parent_mem_preorder {root m n c : Node} (h : c.Inside n) (hm : m ∈ root.preorder)
    (hn : n ∈ root.preorder) (hc : c ∈ m.children) : m ∈ n.preorder := by
  rcases place_cases hm hn with rfl | hin | ⟨d, hd, hnd⟩ | happart
  · exact m.self_mem_preorder
  · exact hin.mem_preorder
  · have hcd : c.Inside d := h.up hnd
    obtain rfl : c = d := eq_of_mem_children hc hd c.self_mem_preorder hcd.mem_preorder
    exact absurd c.self_mem_preorder hcd.not_mem_preorder
  · exact absurd h.mem_preorder (happart c (inside_of_mem_children hc).mem_preorder)

lemma pairwise_le_numbered (k : Nat) (ts : List Tree) :
    (numbered k ts).Pairwise fun m n => m.number + m.size ≤ n.number := by
  induction ts generalizing k with
  | nil => exact .nil
  | cons t ts ih => exact .cons (fun c hc => (bounds_of_mem_numbered hc).1) (ih _)

/-- The number of a place tells which child it lies at or below. -/
lemma eq_of_bounds {n c d : Node} {k : Nat} (hc : c ∈ n.children) (hd : d ∈ n.children)
    (hck : c.number ≤ k ∧ k < c.number + c.size) (hdk : d.number ≤ k ∧ k < d.number + d.size) :
    c = d := by
  have hpairs : n.children.Pairwise fun c d => c.number + c.size ≤ d.number :=
    pairwise_le_numbered _ _
  obtain ⟨i, hi, rfl⟩ := List.getElem_of_mem hc
  obtain ⟨j, hj, rfl⟩ := List.getElem_of_mem hd
  rcases Nat.lt_trichotomy i j with hlt | rfl | hlt
  · have hle := List.pairwise_iff_getElem.1 hpairs i j hi hj hlt
    omega
  · rfl
  · have hle := List.pairwise_iff_getElem.1 hpairs j i hj hi hlt
    omega

/-- The number of a place tells whether it lies at or below a node. -/
lemma mem_preorder_of_bounds {root m n : Node} (hm : m ∈ root.preorder) (hn : n ∈ root.preorder)
    (h : n.number ≤ m.number ∧ m.number < n.number + n.size) : m ∈ n.preorder := by
  rcases mem_preorder.1 hn with rfl | ⟨d, hd, hnd⟩
  · exact hm
  · have hd' := bounds_of_mem_numbered hd
    have hnd' := bounds_of_mem_preorder hnd
    rcases mem_preorder.1 hm with rfl | ⟨c, hc, hmc⟩
    · omega
    · have hmc' := bounds_of_mem_preorder hmc
      have hpos : 0 < m.size := m.tree.size_pos
      obtain rfl : c = d := eq_of_bounds (k := m.number) hc hd (by omega) (by omega)
      exact mem_preorder_of_bounds hmc hnd h
termination_by root.size
decreasing_by exact size_lt_of_mem_children hc

/-- Two places of a tree have different numbers. -/
lemma eq_of_number_eq {root m n : Node} (hm : m ∈ root.preorder) (hn : n ∈ root.preorder)
    (h : m.number = n.number) : m = n := by
  have hpos : 0 < n.size := n.tree.size_pos
  rcases mem_preorder.1 (mem_preorder_of_bounds hm hn (by omega)) with rfl | ⟨c, hc, hmc⟩
  · rfl
  · have hc' := (bounds_of_mem_numbered hc).1
    have hmc' := (bounds_of_mem_preorder hmc).1
    omega

mutual

lemma map_number_preorderFrom (k : Nat) (t : Tree) :
    (preorderFrom k t).map number = List.range' k t.size := by
  match t with
  | ⟨kind, text, span, children, fields⟩ =>
    rw [preorderFrom, List.map_cons, map_number_preorderAll, Tree.size, List.range'_succ]

lemma map_number_preorderAll (k : Nat) (ts : List Tree) :
    (preorderAll k ts).map number = List.range' k (Tree.sizeAll ts) := by
  match ts with
  | [] => rfl
  | t :: ts =>
    rw [preorderAll, List.map_append, map_number_preorderFrom, map_number_preorderAll,
      List.range'_append_1, Tree.sizeAll]

end

lemma pairwise_number_preorder (n : Node) :
    n.preorder.Pairwise fun a b => a.number < b.number := by
  rw [← List.pairwise_map, preorder, map_number_preorderFrom]
  exact List.pairwise_lt_range'

/-- At and below the node, no two names of fields stand for the same child. -/
def FieldsDistinct (n : Node) : Prop :=
  ∀ m ∈ n.preorder, ∀ a b i, m.tree.fields.get? a = some i → m.tree.fields.get? b = some i → a = b

lemma FieldsDistinct.of_mem_preorder {m n : Node} (h : n.FieldsDistinct) (hm : m ∈ n.preorder) :
    m.FieldsDistinct :=
  fun x hx => h x (mem_preorder_trans hx hm)

/-- Whether the fields are distinct can be told from the entries of their tables. -/
lemma fieldsDistinct_iff {n : Node} :
    n.FieldsDistinct ↔ ∀ m ∈ n.preorder, m.tree.fields.entries.Pairwise fun e e' => e.2 ≠ e'.2 := by
  refine forall₂_congr fun m _ => ⟨fun h => ?_, fun h a b i ha hb => ?_⟩
  · refine m.tree.fields.sorted.imp_of_mem fun {e e'} he he' hlt heq => ?_
    have hsame := h e.1 e'.1 e.2 (Table.mem_entries_iff.1 he) (heq ▸ Table.mem_entries_iff.1 he')
    exact String.lt_irrefl _ (hsame ▸ hlt)
  · have hsymm : Std.Symm fun e e' : String × Nat => e.2 ≠ e'.2 := ⟨fun _ _ hne => hne.symm⟩
    by_contra hne
    exact h.forall (Table.mem_entries_iff.2 ha) (Table.mem_entries_iff.2 hb)
      (fun heq => hne (congrArg Prod.fst heq)) rfl

instance (n : Node) : Decidable n.FieldsDistinct := decidable_of_iff' _ fieldsDistinct_iff

/-- Children under different names are apart. -/
lemma FieldsDistinct.apart {n c d : Node} (h : n.FieldsDistinct) {a b : String} (hne : a ≠ b)
    (ha : n.field? a = some c) (hb : n.field? b = some d) : c.Apart d := by
  obtain ⟨i, hi, hc⟩ := Option.bind_eq_some_iff.1 ha
  obtain ⟨j, hj, hd⟩ := Option.bind_eq_some_iff.1 hb
  have hij : i ≠ j := by
    rintro rfl
    exact hne (h n n.self_mem_preorder a b i hi hj)
  obtain ⟨hilt, rfl⟩ := List.getElem?_eq_some_iff.1 hc
  obtain ⟨hjlt, rfl⟩ := List.getElem?_eq_some_iff.1 hd
  have hpairs := List.pairwise_iff_getElem.1 n.pairwise_apart_children
  rcases Nat.lt_or_gt_of_ne hij with hlt | hlt
  · exact hpairs i j hilt hjlt hlt
  · exact (hpairs j i hjlt hilt hlt).symm

/-! ### What definitions take out of nodes -/

lemma boundNames_eq (n : Node) : n.boundNames =
    if n.targetForm = .name then [n] else n.namingParts.flatMap boundNames := by
  rw [boundNames]
  simp

lemma bindingDefaults_eq (n : Node) : n.bindingDefaults =
    n.ownDefault?.toList ++ n.defaultingParts.flatMap bindingDefaults := by
  rw [bindingDefaults]
  simp

lemma inside_of_mem_bindingDefaults {n d : Node} (h : d ∈ n.bindingDefaults) : d.Inside n := by
  rw [bindingDefaults_eq] at h
  rcases List.mem_append.1 h with h | h
  · exact inside_of_mem_children (mem_children_of_ownDefault? (Option.mem_toList.1 h))
  · obtain ⟨c, hc, h⟩ := List.mem_flatMap.1 h
    have hinside := inside_of_mem_children (mem_children_of_mem_defaultingParts hc)
    exact (inside_of_mem_bindingDefaults h).trans hinside
termination_by n.size
decreasing_by exact hinside.size_lt

lemma boundNames_sublist_preorder (n : Node) : n.boundNames.Sublist n.preorder := by
  rw [boundNames_eq, preorder_eq]
  split_ifs
  · exact List.singleton_sublist.2 List.mem_cons_self
  · have hnames : (n.namingParts.flatMap boundNames).Sublist (n.namingParts.flatMap preorder) :=
      .flatMap_right _ fun c hc => boundNames_sublist_preorder c
    exact .cons n (hnames.trans (n.namingParts_sublist.flatMap _))
termination_by n.size
decreasing_by exact size_lt_of_mem_children (mem_children_of_mem_namingParts hc)

lemma mem_preorder_of_mem_boundNames {n b : Node} (h : b ∈ n.boundNames) : b ∈ n.preorder :=
  n.boundNames_sublist_preorder.subset h

lemma pairwise_apart_toList (c : Option Node) : c.toList.Pairwise Apart := by
  cases c <;> simp

lemma pairwise_apart_defaultingParts (n : Node) : n.defaultingParts.Pairwise Apart := by
  rcases n.defaultingParts_cases with heq | heq <;> rw [heq]
  · exact n.pairwise_apart_children.sublist n.namingParts_sublist
  · exact .nil

/-- The default of a target does not stand in the target that it wraps. -/
lemma FieldsDistinct.apart_ownDefault? {n c d : Node} (h : n.FieldsDistinct)
    (hd : n.ownDefault? = some d) (hc : c ∈ n.defaultingParts) : d.Apart c := by
  unfold ownDefault? at hd
  unfold defaultingParts at hc
  generalize n.targetForm = form at hd hc
  cases form with
  | defaulted | annotated => exact h.apart (by decide) hd (Option.mem_toList.1 hc)
  | name | pair | parameter | group | sequence | other => cases hd

lemma FieldsDistinct.pairwise_apart_bindingDefaults {n : Node} (h : n.FieldsDistinct) :
    n.bindingDefaults.Pairwise Apart := by
  rw [bindingDefaults_eq, List.pairwise_append, List.pairwise_flatMap]
  refine ⟨pairwise_apart_toList _, ⟨?_, ?_⟩, ?_⟩
  · intro c hc
    have hinside := inside_of_mem_children (mem_children_of_mem_defaultingParts hc)
    exact (h.of_mem_preorder hinside.mem_preorder).pairwise_apart_bindingDefaults
  · refine n.pairwise_apart_defaultingParts.imp fun {c c'} happart x hx y hy => ?_
    exact happart.mono (inside_of_mem_bindingDefaults hx).mem_preorder
      (inside_of_mem_bindingDefaults hy).mem_preorder
  · intro d hd y hy
    obtain ⟨c, hc, hy⟩ := List.mem_flatMap.1 hy
    exact (h.apart_ownDefault? (Option.mem_toList.1 hd) hc).mono d.self_mem_preorder
      (inside_of_mem_bindingDefaults hy).mem_preorder
termination_by n.size
decreasing_by exact hinside.size_lt

lemma pairwise_apart_parameters (n : Node) : n.parameters.Pairwise Apart := by
  rw [parameters]
  split
  · exact pairwise_apart_children _
  · exact pairwise_apart_toList _

lemma inside_of_mem_parameters {n p : Node} (h : p ∈ n.parameters) : p.Inside n := by
  unfold parameters at h
  cases hlist : n.field? "parameters" with
  | none =>
    rw [hlist] at h
    exact inside_of_field? (Option.mem_toList.1 h)
  | some list =>
    rw [hlist] at h
    exact (inside_of_mem_children h).trans (inside_of_field? hlist)

lemma unwrappedFrom_mem_preorder (k : Nat) (t : Tree) :
    unwrappedFrom k t ∈ (Node.mk k t).preorder := by
  match t with
  | ⟨kind, text, span, [], fields⟩ => exact self_mem_preorder _
  | ⟨kind, text, span, c :: cs, fields⟩ =>
    rw [unwrappedFrom]
    split_ifs
    · rw [mem_preorder]
      exact .inr ⟨⟨k + 1, c⟩, List.mem_cons_self, unwrappedFrom_mem_preorder (k + 1) c⟩
    · exact self_mem_preorder _

lemma unwrapped_mem_preorder (n : Node) : n.unwrapped ∈ n.preorder :=
  unwrappedFrom_mem_preorder n.number n.tree

lemma inside_of_mem_switchCases {n c : Node} (h : c ∈ Flow.Walker.switchCases n) : c.Inside n := by
  have hc := inside_of_mem_children (List.mem_filter.1 h).1
  exact hc.up (n.field?_getD_mem_preorder "body")

/-! ### Nodes below -/

lemma map_val_below (n : Node) : n.below.map (·.1) = n.children := by
  simp [below]

lemma map_val_belowField? (n : Node) (name : String) :
    (n.belowField? name).map (·.1) = n.field? name := by
  rw [belowField?]
  split
  next c h => exact h.symm
  next h => exact h.symm

lemma field?_of_mem_belowField? {n : Node} {name : String} {c : Below n}
    (h : c ∈ n.belowField? name) : n.field? name = some c.1 := by
  rw [← n.map_val_belowField?, h, Option.map_some]

end Arbor.Node

namespace Arbor.Below

variable {n : Node}

lemma map_val_children (c : Below n) : c.children.map (·.1) = c.1.children := by
  rw [children, List.map_map]
  exact c.1.map_val_below

lemma map_val_field? (c : Below n) (name : String) :
    (c.field? name).map (·.1) = c.1.field? name := by
  rw [field?, Option.map_map]
  exact c.1.map_val_belowField? name

lemma map_val_bindingDefaults (c : Below n) :
    c.bindingDefaults.map (·.1) = c.1.bindingDefaults := by
  simp [bindingDefaults]

end Arbor.Below

namespace Arbor.Node

lemma map_val_belowParameters (n : Node) : n.belowParameters.map (·.1) = n.parameters := by
  rw [belowParameters, parameters, ← n.map_val_belowField? "parameters"]
  cases n.belowField? "parameters" with
  | none =>
    rw [← n.map_val_belowField? "parameter"]
    cases n.belowField? "parameter" with
    | none => rfl
    | some p => rfl
  | some list => exact list.map_val_children

end Arbor.Node
