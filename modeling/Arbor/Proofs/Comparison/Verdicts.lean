import Arbor.Proofs.Comparison.Differences
import Mathlib.Algebra.Order.Field.Rat
import Mathlib.Data.List.TFAE
import Mathlib.Tactic.Linarith
import Mathlib.Tactic.NormNum
import Mathlib.Tactic.TFAE

/-!
# The verdicts of a comparison agree

An account holds a similarity, a list of differences and counts of nodes, each kept by itself while
the trees are walked. They tell the same: measured without rounding the similarity is one just in
case no difference is listed, and just in case no node is counted as different.
-/

namespace Arbor.Comparison

/-- Similarity without rounding. -/
def Scale.exact : Scale ℚ where
  zero := 0
  one := 1
  typePenalty := 1 / 2
  textPenalty := 4 / 5
  add := (· + ·)
  mul := (· * ·)
  divNat x n := x / n

variable {α : Type} {s : Scale α} {o : Options} {path : List Nat} {a b : Tree}

/-! ### Counts and differences -/

namespace Account

/-- The counts of an account agree with each other and with its differences. -/
structure Balanced (x : Account α) : Prop where
  total : x.compared = x.matching + x.different
  different_eq_zero_iff : x.different = 0 ↔ x.differences = []

lemma balanced_empty : (empty s).Balanced := ⟨rfl, by simp [empty]⟩

lemma balanced_skipped : (skipped s).Balanced := ⟨rfl, by simp [skipped]⟩

lemma Balanced.add {x y : Account α} (hx : x.Balanced) (hy : y.Balanced) :
    (x.add s y).Balanced := by
  constructor
  · rw [compared_add, matching_add, different_add, hx.total, hy.total]
    omega
  · rw [different_add, differences_add, Nat.add_eq_zero_iff, List.append_eq_nil_iff,
      hx.different_eq_zero_iff, hy.different_eq_zero_iff]

lemma Balanced.unpaired {x : Account α} (hx : x.Balanced) (d : Difference) :
    (x.unpaired d).Balanced := by
  constructor
  · rw [compared_unpaired, matching_unpaired, different_unpaired, hx.total]
    omega
  · simp

end Account

lemma balanced_compareChildren
    (h : ∀ i c d, a.children[i]? = some c → b.children[i]? = some d →
      (compareAt s o (path ++ [i]) c d).Balanced) :
    (compareChildren s o path a b).Balanced :=
  compareChildren_run (Q := fun _ x => x.Balanced) Account.balanced_empty
    (fun i _ c d hc hd hx => hx.add (h i c d hc hd)) (fun _ _ _ _ _ hx => hx.unpaired _)
    (fun _ _ _ _ _ hx => hx.unpaired _)

/-- Nodes with different numbers of children have a child that stands alone. -/
lemma length_eq_of_differences_eq_nil (h : (compareChildren s o path a b).differences = []) :
    a.children.length = b.children.length := by
  rw [differences_compareChildren, List.flatMap_eq_nil_iff] at h
  by_contra hne
  rcases Nat.lt_or_gt_of_ne hne with hlt | hlt
  · have hi := h _ (List.mem_range.2 (lt_max_of_lt_right hlt))
    rw [childDifferences, List.getElem?_eq_none (Nat.le_refl _), List.getElem?_eq_getElem hlt] at hi
    cases hi
  · have hi := h _ (List.mem_range.2 (lt_max_of_lt_left hlt))
    rw [childDifferences, List.getElem?_eq_none (Nat.le_refl _), List.getElem?_eq_getElem hlt] at hi
    cases hi

lemma total_compareNodes :
    (compareNodes s o path a b).compared =
      (compareNodes s o path a b).matching + (compareNodes s o path a b).different := by
  simp only [compareNodes]
  split_ifs <;> rfl

/-- A different number of children is listed, but not counted. -/
lemma differences_compareNodes_eq_nil_iff :
    (compareNodes s o path a b).differences = [] ↔
      (compareNodes s o path a b).different = 0 ∧ a.children.length = b.children.length := by
  simp only [compareNodes, List.map_eq_nil_iff, List.append_eq_nil_iff, Option.toList_eq_nil_iff,
    countDifference?]
  cases typeDifference? a b <;> cases textDifference? o a b <;> simp

lemma balanced_compareAt (s : Scale α) (o : Options) (path : List Nat) (a b : Tree) :
    (compareAt s o path a b).Balanced := by
  refine compareAt_induction (motive := fun _ _ _ x => x.Balanced) ?_ ?_ path a b
  · intro path a b _
    exact Account.balanced_skipped
  · intro path a b _ ih
    have hchildren := balanced_compareChildren ih
    constructor
    · rw [compared_combine, matching_combine, different_combine, total_compareNodes,
        hchildren.total]
      omega
    · rw [different_combine, differences_combine, Nat.add_eq_zero_iff, List.append_eq_nil_iff,
        differences_compareNodes_eq_nil_iff, hchildren.different_eq_zero_iff]
      -- a different number of children leaves the nodes matching, but then a child stands alone
      constructor
      · rintro ⟨hown, hnil⟩
        exact ⟨⟨hown, length_eq_of_differences_eq_nil hnil⟩, hnil⟩
      · rintro ⟨⟨hown, _⟩, hnil⟩
        exact ⟨hown, hnil⟩

/-! ### Counts and similarity -/

namespace Account

/-- The similarity of an account of `n` pairs, measured without rounding, lies between none and
all, and is all just in case no node is counted as different. -/
structure Weighs (n : Nat) (x : Account ℚ) : Prop where
  nonneg : 0 ≤ x.similarity
  le : x.similarity ≤ n
  eq_iff : x.similarity = n ↔ x.different = 0

lemma weighs_empty : (empty .exact).Weighs 0 :=
  ⟨le_refl 0, by simp [empty, Scale.exact], by simp [empty, Scale.exact]⟩

lemma weighs_skipped : (skipped .exact).Weighs 1 :=
  ⟨zero_le_one, by simp [skipped, Scale.exact], by simp [skipped, Scale.exact]⟩

lemma Weighs.add {x y : Account ℚ} {m n : Nat} (hx : x.Weighs m) (hy : y.Weighs n) :
    (x.add .exact y).Weighs (m + n) := by
  have hsum : (x.add .exact y).similarity = x.similarity + y.similarity := rfl
  refine ⟨hsum ▸ add_nonneg hx.nonneg hy.nonneg, ?_, ?_⟩
  · rw [hsum, Nat.cast_add]
    exact add_le_add hx.le hy.le
  · rw [hsum, Nat.cast_add, add_eq_add_iff_eq_and_eq hx.le hy.le, hx.eq_iff, hy.eq_iff,
      different_add, Nat.add_eq_zero_iff]

lemma Weighs.unpaired {x : Account ℚ} {n : Nat} (hx : x.Weighs n) (d : Difference) :
    (x.unpaired d).Weighs (n + 1) := by
  have hsame : (x.unpaired d).similarity = x.similarity := rfl
  have hle := hx.le
  refine ⟨hsame ▸ hx.nonneg, ?_, ?_⟩
  · rw [hsame, Nat.cast_succ]
    linarith
  · rw [hsame, Nat.cast_succ, different_unpaired]
    constructor
    · intro h
      linarith
    · intro h
      cases h

end Account

lemma weighs_compareChildren
    (h : ∀ i c d, a.children[i]? = some c → b.children[i]? = some d →
      (compareAt .exact o (path ++ [i]) c d).Weighs 1) :
    (compareChildren .exact o path a b).Weighs (width a b) :=
  compareChildren_run (Q := fun n x => x.Weighs n) Account.weighs_empty
    (fun i _ c d hc hd hx => hx.add (h i c d hc hd)) (fun _ _ _ _ _ hx => hx.unpaired _)
    (fun _ _ _ _ _ hx => hx.unpaired _)

lemma similarity_compareNodes_pos : 0 < (compareNodes .exact o path a b).similarity := by
  simp only [compareNodes, Scale.exact]
  split_ifs <;> norm_num

lemma weighs_compareNodes : (compareNodes .exact o path a b).Weighs 1 := by
  refine ⟨similarity_compareNodes_pos.le, ?_, ?_⟩
  · simp only [compareNodes, Scale.exact]
    split_ifs <;> norm_num
  · simp only [compareNodes, Scale.exact]
    cases typeDifference? a b <;> cases textDifference? o a b <;> norm_num

/-- Two nodes with their children are wholly similar just in case the nodes are and each of the
children is: none of the factors is greater than one. -/
lemma weighs_combine {own children : Account ℚ} {n : Nat} (hpos : 0 < own.similarity)
    (hown : own.Weighs 1) (hchildren : children.Weighs n) :
    (combine .exact n own children).Weighs 1 := by
  rcases Nat.eq_zero_or_pos n with rfl | hn
  · -- without children the similarity is that of the nodes
    have hsame : (combine .exact 0 own children).similarity = own.similarity := rfl
    have hnone : children.different = 0 := by
      rw [← hchildren.eq_iff]
      exact le_antisymm hchildren.le (by simpa using hchildren.nonneg)
    refine ⟨hsame ▸ hown.nonneg, hsame ▸ hown.le, ?_⟩
    rw [hsame, hown.eq_iff, different_combine, hnone, Nat.add_zero]
  · have hmean : (combine .exact n own children).similarity =
        own.similarity * (children.similarity / n) := if_neg (Nat.ne_of_gt hn)
    have hn' : (0 : ℚ) < n := Nat.cast_pos.2 hn
    have hle : own.similarity ≤ 1 := by simpa using hown.le
    have hmean_nonneg : 0 ≤ children.similarity / n := div_nonneg hchildren.nonneg hn'.le
    have hmean_le : children.similarity / n ≤ 1 := (div_le_one₀ hn').2 hchildren.le
    refine ⟨hmean ▸ mul_nonneg hown.nonneg hmean_nonneg, ?_, ?_⟩
    · rw [hmean, Nat.cast_one]
      exact mul_le_one₀ hle hmean_nonneg hmean_le
    · have hsplit := mul_eq_mul_iff_eq_and_eq_of_pos hle hmean_le hpos one_pos
      have heq := hown.eq_iff
      rw [one_mul] at hsplit
      rw [Nat.cast_one] at heq
      rw [hmean, Nat.cast_one, hsplit, heq, div_eq_one_iff_eq hn'.ne', hchildren.eq_iff,
        different_combine, Nat.add_eq_zero_iff]

lemma weighs_compareAt (o : Options) (path : List Nat) (a b : Tree) :
    (compareAt .exact o path a b).Weighs 1 := by
  refine compareAt_induction (motive := fun _ _ _ x => x.Weighs 1) ?_ ?_ path a b
  · intro path a b _
    exact Account.weighs_skipped
  · intro path a b _ ih
    exact weighs_combine similarity_compareNodes_pos weighs_compareNodes (weighs_compareChildren ih)

/-! ### The verdicts -/

/-- Which differences are listed does not depend on how similarity is measured. -/
lemma differences_eq_nil_congr {β : Type} (s : Scale α) (t : Scale β) (o : Options)
    (path : List Nat) (a b : Tree) :
    (compareAt s o path a b).differences = [] ↔ (compareAt t o path a b).differences = [] := by
  simp only [List.eq_nil_iff_forall_not_mem, mem_differences_iff]

/-- The similarity without rounding lies between zero and one, every node compared is counted either
as matching or as different, and the verdicts agree: the trees are identical, no difference is
listed, no node is counted as different, and the similarity without rounding is one. -/
theorem verdicts_agree (o : Options) (a b : Tree) :
    let x := compare o a b
    let similarity := (compareAt .exact o [] a b).similarity
    (0 ≤ similarity ∧ similarity ≤ 1) ∧
    x.compared = x.matching + x.different ∧
    [x.identical = true, x.differences = [], x.different = 0, similarity = 1].TFAE := by
  intro x similarity
  have hbalanced : x.Balanced := balanced_compareAt .float o [] a b
  have hexact := balanced_compareAt .exact o [] a b
  have hweighs := weighs_compareAt o [] a b
  refine ⟨⟨hweighs.nonneg, by simpa using hweighs.le⟩, hbalanced.total, ?_⟩
  tfae_have 1 ↔ 2 := List.isEmpty_iff
  tfae_have 2 ↔ 3 := hbalanced.different_eq_zero_iff.symm
  tfae_have 2 ↔ 4 := calc
    x.differences = [] ↔ (compareAt .exact o [] a b).differences = [] :=
      differences_eq_nil_congr .float .exact o [] a b
    _ ↔ (compareAt .exact o [] a b).different = 0 := hexact.different_eq_zero_iff.symm
    _ ↔ similarity = (1 : Nat) := hweighs.eq_iff.symm
    _ ↔ similarity = 1 := by rw [Nat.cast_one]
  tfae_finish

end Arbor.Comparison
