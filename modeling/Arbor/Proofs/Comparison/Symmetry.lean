import Arbor.Proofs.Comparison.Children

/-!
# Comparison is symmetric

Two trees are compared in the same way in either order. The similarity and the counts are the same,
whatever numbers the similarity is measured with, and the differences stand in the same order at the
same places, each seen from the other side.
-/

namespace Arbor.Comparison

/-! ### Differences seen from the other side -/

/-- The kind of a difference when the two trees change places. -/
def Kind.swap : Kind → Kind
  | type left right => type right left
  | text left right => text right left
  | count left right => count right left
  | missing kind => extra kind
  | extra kind => missing kind

/-- The two sides that the detail of a difference shows, if it shows two. -/
def Kind.sides? : Kind → Option (String × String)
  | type left right => some (left, right)
  | text left right => some (quoted left, quoted right)
  | count left right => some (toString left, toString right)
  | missing _ => none
  | extra _ => none

/-- The detail of a difference puts its sides in their order; the detail of a node that stands alone
is the same from either side. -/
lemma Kind.detail_swap (k : Kind) :
    (∃ x y, k.sides? = some (x, y) ∧ k.detail = x ++ " vs " ++ y ∧
      k.swap.detail = y ++ " vs " ++ x) ∨
    (k.sides? = none ∧ k.swap.detail = k.detail) := by
  cases k with
  | type left right => exact .inl ⟨left, right, rfl, rfl, rfl⟩
  | text left right => exact .inl ⟨quoted left, quoted right, rfl, rfl, rfl⟩
  | count left right => exact .inl ⟨toString left, toString right, rfl, rfl, rfl⟩
  | missing kind => exact .inr ⟨rfl, rfl⟩
  | extra kind => exact .inr ⟨rfl, rfl⟩

/-- A difference when the two trees change places. -/
def Difference.swap (d : Difference) : Difference :=
  ⟨d.kind.swap, d.path, d.right, d.left⟩

variable {α : Type} {s : Scale α} {o : Options}

namespace Account

/-- An account when the two trees change places. -/
def swap (x : Account α) : Account α :=
  { x with differences := x.differences.map Difference.swap }

lemma swap_skipped : (skipped s).swap = skipped s := rfl

lemma swap_empty : (empty s).swap = empty s := rfl

lemma swap_add (x y : Account α) : (x.add s y).swap = x.swap.add s y.swap := by
  simp only [swap, add, List.map_append]

lemma swap_unpaired (x : Account α) (d : Difference) :
    (x.unpaired d).swap = x.swap.unpaired d.swap := by
  simp only [swap, unpaired, List.map_append, List.map_cons, List.map_nil]

lemma identical_swap (x : Account α) : x.swap.identical = x.identical := by
  simp only [identical, swap, List.isEmpty_map]

end Account

lemma swap_combine (width : Nat) (own children : Account α) :
    (combine s width own children).swap = combine s width own.swap children.swap := by
  simp only [combine, Account.swap, Account.add, List.map_append]

/-! ### Two nodes -/

lemma passesOver_comm (o : Options) (depth : Nat) (a b : Tree) :
    o.passesOver depth b a = o.passesOver depth a b := by
  rw [Options.passesOver, Options.passesOver, Bool.or_right_comm]

/-- A difference that is found under a symmetric condition is found from the other side too. -/
lemma map_swap_ite {P Q : Prop} [Decidable P] [Decidable Q] (h : Q ↔ P) (k : Kind) :
    (if Q then none else some k.swap) = (if P then none else some k).map Kind.swap := by
  by_cases hP : P
  · rw [if_pos hP, if_pos (h.2 hP), Option.map_none]
  · rw [if_neg hP, if_neg (mt h.1 hP), Option.map_some]

lemma typeDifference?_comm (a b : Tree) :
    typeDifference? b a = (typeDifference? a b).map Kind.swap :=
  map_swap_ite eq_comm (.type a.kind b.kind)

lemma textDifference?_comm (a b : Tree) :
    textDifference? o b a = (textDifference? o a b).map Kind.swap := by
  refine map_swap_ite ?_ (.text (ownText a) (ownText b))
  simp only [Bool.or_eq_true, decide_eq_true_eq]
  exact or_congr_right eq_comm

lemma countDifference?_comm (a b : Tree) :
    countDifference? b a = (countDifference? a b).map Kind.swap :=
  map_swap_ite eq_comm (.count a.children.length b.children.length)

lemma compareNodes_comm (path : List Nat) (a b : Tree) :
    compareNodes s o path b a = (compareNodes s o path a b).swap := by
  simp only [compareNodes, Account.swap, typeDifference?_comm a b, textDifference?_comm a b,
    countDifference?_comm a b, Option.isSome_map, Option.isNone_map, Option.toList_map,
    ← List.map_append, List.map_map]
  rfl

/-! ### Two trees -/

lemma addChild_comm {path : List Nat} {as bs : List Tree} {i : Nat}
    (h : ∀ a b, as[i]? = some a → bs[i]? = some b →
      compareAt s o (path ++ [i]) b a = (compareAt s o (path ++ [i]) a b).swap)
    (x : Account α) :
    addChild s o path bs as x.swap i = (addChild s o path as bs x i).swap := by
  rw [addChild, addChild]
  cases ha : as[i]? with
  | some a =>
    cases hb : bs[i]? with
    | some b =>
      dsimp only
      rw [h a b ha hb, Account.swap_add]
    | none => exact (Account.swap_unpaired x (missingAt path i a)).symm
  | none =>
    cases hb : bs[i]? with
    | some b => exact (Account.swap_unpaired x (extraAt path i b)).symm
    | none => rfl

lemma compareChildren_comm {path : List Nat} {a b : Tree}
    (h : ∀ i c d, a.children[i]? = some c → b.children[i]? = some d →
      compareAt s o (path ++ [i]) d c = (compareAt s o (path ++ [i]) c d).swap) :
    compareChildren s o path b a = (compareChildren s o path a b).swap := by
  rw [compareChildren, compareChildren, width, width, Nat.max_comm]
  conv_lhs => rw [← Account.swap_empty]
  exact List.foldl_hom Account.swap fun x i => addChild_comm (h i) x

/-- Comparing in the other order gives the account seen from the other side. -/
lemma compareAt_comm (path : List Nat) (a b : Tree) :
    compareAt s o path b a = (compareAt s o path a b).swap := by
  refine compareAt_induction
    (motive := fun path a b x => compareAt s o path b a = x.swap) ?_ ?_ path a b
  · intro path a b h
    rw [compareAt_eq, passesOver_comm, if_pos h, Account.swap_skipped]
  · intro path a b h ih
    rw [compareAt_eq, passesOver_comm, if_neg (Bool.eq_false_iff.1 h), compareNodes_comm,
      compareChildren_comm ih, swap_combine, width, width, Nat.max_comm]

/-- The comparison of two trees in the other order has the same verdict, similarity and counts. Its
differences are the same in the same order, seen from the other side: missing and extra children
change places, and so do the spans and the two sides of each detail. -/
theorem compare_comm (o : Options) (a b : Tree) :
    let x := compare o a b
    let y := compare o b a
    y.identical = x.identical ∧ y.similarity = x.similarity ∧ y.compared = x.compared ∧
    y.matching = x.matching ∧ y.different = x.different ∧
    y.differences = x.differences.map Difference.swap ∧
    ∀ d ∈ x.differences,
      (∃ left right, d.kind.sides? = some (left, right) ∧
        d.kind.detail = left ++ " vs " ++ right ∧
        d.swap.kind.detail = right ++ " vs " ++ left) ∨
      (d.kind.sides? = none ∧ d.swap.kind.detail = d.kind.detail) := by
  intro x y
  have h : y = x.swap := compareAt_comm [] a b
  rw [h]
  exact ⟨x.identical_swap, rfl, rfl, rfl, rfl, rfl, fun d _ => d.kind.detail_swap⟩

end Arbor.Comparison
