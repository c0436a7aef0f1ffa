import Arbor.Comparison.Account
import Arbor.Proofs.Subtree
import Mathlib.Data.List.Basic
import Mathlib.Tactic.Common

/-!
# Paths in two trees

A path of child indices leads to a subtree, and its text tells it from all other paths. Two trees
are compared at the paths that lead to a node in both and do not pass a node that is left out, for
its depth or for a kind that is ignored.
-/

namespace Arbor

/-! ### The subtree at a path -/

namespace Node

lemma map_tree_getElem?_children (n : Node) (i : Nat) :
    n.children[i]?.map tree = n.tree.children[i]? := by
  rw [← List.getElem?_map, children, map_tree_numbered]

/-- The number of a node does not matter for the trees below it. -/
lemma map_tree_follow?_congr {m n : Node} (h : m.tree = n.tree) (p : List Nat) :
    (m.follow? p).map tree = (n.follow? p).map tree := by
  induction p generalizing m n with
  | nil => exact congrArg some h
  | cons i p ih =>
    have hi : m.children[i]?.map tree = n.children[i]?.map tree := by
      rw [map_tree_getElem?_children, map_tree_getElem?_children, h]
    rw [follow?, follow?]
    cases hc : m.children[i]? with
    | none =>
      rw [hc, Option.map_none] at hi
      rw [Option.map_eq_none_iff.1 hi.symm]
    | some c =>
      rw [hc, Option.map_some] at hi
      obtain ⟨d, hd, hdc⟩ := Option.map_eq_some_iff.1 hi.symm
      rw [hd]
      exact ih hdc.symm

end Node

namespace Tree

/-- The subtree to which child indices lead. -/
def at? (t : Tree) (p : List Nat) : Option Tree :=
  ((Node.root t).follow? p).map Node.tree

@[simp] lemma at?_nil (t : Tree) : t.at? [] = some t := rfl

@[simp] lemma at?_cons (t : Tree) (i : Nat) (p : List Nat) :
    t.at? (i :: p) = t.children[i]?.bind (·.at? p) := by
  have hi : t.children[i]? = (Node.root t).children[i]?.map Node.tree :=
    ((Node.root t).map_tree_getElem?_children i).symm
  rw [at?, Node.follow?, hi, Option.map_bind, Option.bind_map]
  exact Option.bind_congr fun c _ => Node.map_tree_follow?_congr (m := c) (n := .root c.tree) rfl p

lemma at?_cons_eq_some_iff {t u : Tree} {i : Nat} {p : List Nat} :
    t.at? (i :: p) = some u ↔ ∃ c, t.children[i]? = some c ∧ c.at? p = some u := by
  rw [at?_cons, Option.bind_eq_some_iff]

end Tree

namespace Comparison

/-! ### The text of a path -/

lemma toList_renderPath (p : List Nat) :
    (renderPath p).toList = ['.'].intercalate (p.map (Nat.toDigits 10)) := by
  have h : ∀ n : Nat, (toString n).toList = Nat.toDigits 10 n := fun n => by
    rw [Nat.toString_eq_ofList_toDigits, String.toList_ofList]
  rw [renderPath, String.toList_intercalate, List.map_map]
  exact congrArg _ (List.map_congr_left fun n _ => h n)

/-- A path that is not empty is read back from its text by cutting it at the points. -/
lemma splitOn_renderPath {p : List Nat} (h : p ≠ []) :
    (renderPath p).toList.splitOn '.' = p.map (Nat.toDigits 10) := by
  rw [toList_renderPath]
  refine List.splitOn_intercalate '.' ?_ (by simpa using h)
  intro l hl hpoint
  obtain ⟨n, _, rfl⟩ := List.mem_map.1 hl
  exact absurd (Nat.isDigit_of_mem_toDigits (by decide) (by decide) hpoint) (by decide)

lemma toDigits_injective : Function.Injective (Nat.toDigits 10) := by
  intro m n h
  rw [← Nat.ofDigitChars_ten_toDigits (n := m), h, Nat.ofDigitChars_ten_toDigits]

/-- Different paths have different texts. -/
lemma renderPath_injective : Function.Injective renderPath := by
  have hempty : ∀ p, renderPath p = renderPath [] → p = [] := by
    intro p h
    by_contra hp
    have hsplit := splitOn_renderPath hp
    rw [h, show (renderPath []).toList = [] from rfl, List.splitOn_nil] at hsplit
    obtain ⟨n, _, hn⟩ := List.mem_map.1 (hsplit ▸ List.mem_singleton.2 rfl)
    exact Nat.toDigits_ne_nil hn
  intro p q h
  by_cases hp : p = []
  · subst hp
    exact (hempty q h.symm).symm
  · by_cases hq : q = []
    · subst hq
      exact hempty p h
    · refine List.map_injective_iff.2 toDigits_injective ?_
      rw [← splitOn_renderPath hp, ← splitOn_renderPath hq, h]

/-! ### Compared paths -/

/-- A path leads to the nodes `x` and `y` in two trees, whose roots have some depth, and they are
compared: neither they nor the nodes on the way to them are too deep or of an ignored kind. -/
structure Compared (o : Options) (depth : Nat) (a b : Tree) (p : List Nat) (x y : Tree) : Prop where
  left : a.at? p = some x
  right : b.at? p = some y
  shallow : ∀ q, q <+: p → ∀ limit, o.maxDepth = some limit → depth + q.length ≤ limit
  unignored : ∀ q, q <+: p → ∀ u, a.at? q = some u ∨ b.at? q = some u → u.kind ∉ o.ignoredKinds

variable {o : Options} {depth : Nat} {a b x y : Tree} {p : List Nat}

lemma passesOver_eq_false_iff :
    o.passesOver depth a b = false ↔
      (∀ limit, o.maxDepth = some limit → depth ≤ limit) ∧
      a.kind ∉ o.ignoredKinds ∧ b.kind ∉ o.ignoredKinds := by
  simp only [Options.passesOver, Bool.or_eq_false_iff, List.contains_eq_mem,
    decide_eq_false_iff_not, and_assoc]
  refine and_congr_left fun _ => ?_
  cases o.maxDepth <;> simp

lemma Compared.passesOver_eq_false (h : Compared o depth a b p x y) :
    o.passesOver depth a b = false := by
  have hnil := List.nil_prefix (l := p)
  exact passesOver_eq_false_iff.2 ⟨h.shallow [] hnil, h.unignored [] hnil a (.inl a.at?_nil),
    h.unignored [] hnil b (.inr b.at?_nil)⟩

lemma compared_nil_iff :
    Compared o depth a b [] x y ↔ o.passesOver depth a b = false ∧ x = a ∧ y = b := by
  constructor
  · intro h
    exact ⟨h.passesOver_eq_false, (Option.some.inj h.left).symm, (Option.some.inj h.right).symm⟩
  · rintro ⟨h, rfl, rfl⟩
    obtain ⟨hdepth, ha, hb⟩ := passesOver_eq_false_iff.1 h
    refine ⟨rfl, rfl, ?_, ?_⟩
    · intro q hq
      rw [List.prefix_nil.1 hq]
      exact hdepth
    · intro q hq u hu
      rw [List.prefix_nil.1 hq] at hu
      rcases hu with hu | hu
      · exact Option.some.inj hu ▸ ha
      · exact Option.some.inj hu ▸ hb

/-- The paths below an index are those that are compared in the two children. -/
lemma compared_cons_iff {i : Nat} :
    Compared o depth a b (i :: p) x y ↔
      o.passesOver depth a b = false ∧ ∃ c d, a.children[i]? = some c ∧ b.children[i]? = some d ∧
        Compared o (depth + 1) c d p x y := by
  constructor
  · intro h
    obtain ⟨c, hc, hx⟩ := Tree.at?_cons_eq_some_iff.1 h.left
    obtain ⟨d, hd, hy⟩ := Tree.at?_cons_eq_some_iff.1 h.right
    refine ⟨h.passesOver_eq_false, c, d, hc, hd, hx, hy, ?_, ?_⟩
    · intro q hq limit hlimit
      have := h.shallow (i :: q) (List.prefix_cons_inj i |>.2 hq) limit hlimit
      rw [List.length_cons] at this
      omega
    · intro q hq u hu
      refine h.unignored (i :: q) (List.prefix_cons_inj i |>.2 hq) u ?_
      rwa [Tree.at?_cons, Tree.at?_cons, hc, hd]
  · rintro ⟨h, c, d, hc, hd, hcd⟩
    obtain ⟨hdepth, ha, hb⟩ := passesOver_eq_false_iff.1 h
    refine ⟨Tree.at?_cons_eq_some_iff.2 ⟨c, hc, hcd.left⟩,
      Tree.at?_cons_eq_some_iff.2 ⟨d, hd, hcd.right⟩, ?_, ?_⟩
    · intro q hq limit hlimit
      rcases List.prefix_cons_iff.1 hq with rfl | ⟨q, rfl, hqp⟩
      · exact hdepth limit hlimit
      · have := hcd.shallow q hqp limit hlimit
        rw [List.length_cons]
        omega
    · intro q hq u hu
      rcases List.prefix_cons_iff.1 hq with rfl | ⟨q, rfl, hqp⟩
      · rcases hu with hu | hu
        · exact Option.some.inj hu ▸ ha
        · exact Option.some.inj hu ▸ hb
      · rw [Tree.at?_cons, Tree.at?_cons, hc, hd] at hu
        exact hcd.unignored q hqp u hu

end Comparison

end Arbor
