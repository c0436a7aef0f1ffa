import Arbor.Proofs.Comparison.Children
import Arbor.Proofs.Comparison.Paths
import Mathlib.Data.Finset.Card

/-!
# The differences of two trees

The differences that a comparison finds are exactly those between the two nodes at each compared
path: in kind, in their own text, in the number of children, and one for each child that stands
alone. They are listed in pre-order of their paths and, at one path, in the order just given. The
number of nodes compared is that of the compared paths and of the children that stand alone.
-/

namespace Arbor.Comparison

/-! ### Two nodes -/

/-- The differences between two nodes at a path. -/
inductive NodesDiffer (o : Options) (x y : Tree) (p : List Nat) : Difference → Prop
  | type (h : x.kind ≠ y.kind) :
    NodesDiffer o x y p ⟨.type x.kind y.kind, p, some x.span, some y.span⟩
  | text (hon : o.ignoreText = false) (h : ownText x ≠ ownText y) :
    NodesDiffer o x y p ⟨.text (ownText x) (ownText y), p, some x.span, some y.span⟩
  | count (h : x.children.length ≠ y.children.length) :
    NodesDiffer o x y p
      ⟨.count x.children.length y.children.length, p, some x.span, some y.span⟩
  | missing {i : Nat} {c : Tree} (hx : x.children[i]? = some c) (hy : y.children[i]? = none) :
    NodesDiffer o x y p ⟨.missing c.kind, p ++ [i], some c.span, none⟩
  | extra {i : Nat} {c : Tree} (hx : x.children[i]? = none) (hy : y.children[i]? = some c) :
    NodesDiffer o x y p ⟨.extra c.kind, p ++ [i], none, some c.span⟩

/-- The place of a kind of difference among those at one path. -/
def Kind.rank : Kind → Nat
  | type _ _ => 0
  | text _ _ => 1
  | count _ _ => 2
  | missing _ => 3
  | extra _ => 4

/-- Whether a difference is that of a node without a counterpart. -/
def Kind.isUnpaired : Kind → Bool
  | missing _ | extra _ => true
  | _ => false

/-- A difference stands before another: at a path that comes earlier in pre-order, or at the same
path with a kind that comes earlier. -/
def Difference.Precedes (d e : Difference) : Prop :=
  d.path < e.path ∨ (d.path = e.path ∧ d.kind.rank < e.kind.rank)

variable {α : Type} {s : Scale α} {o : Options} {path : List Nat} {a b : Tree} {d : Difference}

lemma mem_differences_compareNodes :
    d ∈ (compareNodes s o path a b).differences ↔
      ∃ k, (k ∈ typeDifference? a b ∨ k ∈ textDifference? o a b ∨ k ∈ countDifference? a b) ∧
        ⟨k, path, some a.span, some b.span⟩ = d := by
  simp only [compareNodes, List.mem_map, List.mem_append, Option.mem_toList, Option.mem_def,
    or_assoc]

lemma path_eq_of_mem_compareNodes (h : d ∈ (compareNodes s o path a b).differences) :
    d.path = path := by
  obtain ⟨k, _, rfl⟩ := mem_differences_compareNodes.1 h
  rfl

/-- Two nodes differ by themselves or in a child that stands alone. -/
lemma nodesDiffer_iff :
    NodesDiffer o a b path d ↔
      d ∈ (compareNodes s o path a b).differences ∨
      (∃ i c, a.children[i]? = some c ∧ b.children[i]? = none ∧ d = missingAt path i c) ∨
      (∃ i c, a.children[i]? = none ∧ b.children[i]? = some c ∧ d = extraAt path i c) := by
  rw [mem_differences_compareNodes]
  constructor
  · intro h
    cases h with
    | type h => exact .inl ⟨_, .inl (by rw [typeDifference?, if_neg h]; rfl), rfl⟩
    | text hon h =>
      refine .inl ⟨_, .inr (.inl ?_), rfl⟩
      rw [textDifference?, if_neg (by simp [hon, h])]
      rfl
    | count h => exact .inl ⟨_, .inr (.inr (by rw [countDifference?, if_neg h]; rfl)), rfl⟩
    | missing hx hy => exact .inr (.inl ⟨_, _, hx, hy, rfl⟩)
    | extra hx hy => exact .inr (.inr ⟨_, _, hx, hy, rfl⟩)
  · rintro (⟨k, hk | hk | hk, rfl⟩ | ⟨i, c, hx, hy, rfl⟩ | ⟨i, c, hx, hy, rfl⟩)
    · obtain ⟨h, ⟨⟩⟩ := Option.ite_none_left_eq_some.1 hk
      exact .type h
    · obtain ⟨h, ⟨⟩⟩ := Option.ite_none_left_eq_some.1 hk
      simp only [Bool.or_eq_true, decide_eq_true_eq, not_or, Bool.not_eq_true] at h
      exact .text h.1 h.2
    · obtain ⟨h, ⟨⟩⟩ := Option.ite_none_left_eq_some.1 hk
      exact .count h
    · exact .missing hx hy
    · exact .extra hx hy

lemma NodesDiffer.prefix_path (h : NodesDiffer o a b path d) : path <+: d.path := by
  cases h with
  | type | text | count => exact List.prefix_refl _
  | missing | extra => exact List.prefix_append _ _

/-! ### The children -/

/-- The differences that are found under an index. -/
def childDifferences (s : Scale α) (o : Options) (path : List Nat) (a b : Tree) (i : Nat) :
    List Difference :=
  match a.children[i]?, b.children[i]? with
  | some c, some d => (compareAt s o (path ++ [i]) c d).differences
  | some c, none => [missingAt path i c]
  | none, some d => [extraAt path i d]
  | none, none => []

lemma differences_compareChildren :
    (compareChildren s o path a b).differences =
      (List.range (width a b)).flatMap (childDifferences s o path a b) := by
  have hstep : ∀ i, (List.range (i + 1)).flatMap (childDifferences s o path a b) =
      (List.range i).flatMap (childDifferences s o path a b) ++
        childDifferences s o path a b i := by
    intro i
    rw [List.range_succ, List.flatMap_append, List.flatMap_singleton]
  refine compareChildren_run
    (Q := fun n x => x.differences = (List.range n).flatMap (childDifferences s o path a b))
    rfl ?_ ?_ ?_
  · intro i x c d hc hd hx
    rw [hstep, ← hx, childDifferences, hc, hd, Account.differences_add]
  · intro i x c hc hd hx
    rw [hstep, ← hx, childDifferences, hc, hd, Account.differences_unpaired]
  · intro i x d hc hd hx
    rw [hstep, ← hx, childDifferences, hc, hd, Account.differences_unpaired]

lemma mem_childDifferences {i : Nat} :
    d ∈ childDifferences s o path a b i ↔
      (∃ c c', a.children[i]? = some c ∧ b.children[i]? = some c' ∧
        d ∈ (compareAt s o (path ++ [i]) c c').differences) ∨
      (∃ c, a.children[i]? = some c ∧ b.children[i]? = none ∧ d = missingAt path i c) ∨
      (∃ c, a.children[i]? = none ∧ b.children[i]? = some c ∧ d = extraAt path i c) := by
  rw [childDifferences]
  cases a.children[i]? <;> cases b.children[i]? <;> simp

/-- The differences of two nodes and of all below them are those of the nodes and those of the
pairs of children. -/
lemma mem_differences_combine :
    d ∈ (combine s (width a b) (compareNodes s o path a b)
        (compareChildren s o path a b)).differences ↔
      NodesDiffer o a b path d ∨
      ∃ i c c', a.children[i]? = some c ∧ b.children[i]? = some c' ∧
        d ∈ (compareAt s o (path ++ [i]) c c').differences := by
  have hchildren : d ∈ (compareChildren s o path a b).differences ↔
      ∃ i, d ∈ childDifferences s o path a b i := by
    rw [differences_compareChildren, List.mem_flatMap]
    refine exists_congr fun i => and_iff_right_of_imp fun h => ?_
    rw [List.mem_range, width, lt_max_iff]
    rcases mem_childDifferences.1 h with ⟨c, _, hc, _⟩ | ⟨c, hc, _⟩ | ⟨c, _, hc, _⟩
    · exact .inl (List.getElem?_eq_some_iff.1 hc).1
    · exact .inl (List.getElem?_eq_some_iff.1 hc).1
    · exact .inr (List.getElem?_eq_some_iff.1 hc).1
  rw [differences_combine, List.mem_append, hchildren, nodesDiffer_iff (s := s)]
  simp only [mem_childDifferences, exists_or]
  exact (or_congr_right or_comm).trans or_assoc.symm

/-! ### All compared paths -/

/-- The differences of two trees are those of the nodes at the compared paths. -/
lemma mem_differences_iff :
    d ∈ (compareAt s o path a b).differences ↔
      ∃ p x y, Compared o path.length a b p x y ∧ NodesDiffer o x y (path ++ p) d := by
  refine compareAt_induction (motive := fun path a b z => d ∈ z.differences ↔
      ∃ p x y, Compared o path.length a b p x y ∧ NodesDiffer o x y (path ++ p) d) ?_ ?_ path a b
  · intro path a b hover
    constructor
    · intro h
      cases h
    · rintro ⟨p, x, y, hp, _⟩
      rw [hp.passesOver_eq_false] at hover
      cases hover
  · intro path a b hover ih
    -- the empty path leads to the nodes themselves, any other into a pair of their children
    rw [mem_differences_combine]
    constructor
    · rintro (h | ⟨i, c, c', hc, hc', h⟩)
      · exact ⟨[], a, b, compared_nil_iff.2 ⟨hover, rfl, rfl⟩, by rwa [List.append_nil]⟩
      · obtain ⟨p, x, y, hp, hd⟩ := (ih i c c' hc hc').1 h
        rw [List.length_append] at hp
        rw [List.append_assoc] at hd
        exact ⟨i :: p, x, y, compared_cons_iff.2 ⟨hover, c, c', hc, hc', hp⟩, hd⟩
    · rintro ⟨p, x, y, hp, hd⟩
      cases p with
      | nil =>
        obtain ⟨_, rfl, rfl⟩ := compared_nil_iff.1 hp
        rw [List.append_nil] at hd
        exact .inl hd
      | cons i p =>
        obtain ⟨_, c, c', hc, hc', hp⟩ := compared_cons_iff.1 hp
        refine .inr ⟨i, c, c', hc, hc', (ih i c c' hc hc').2 ⟨p, x, y, ?_, ?_⟩⟩
        · rwa [List.length_append]
        · rwa [List.append_assoc]

lemma prefix_path_of_mem (h : d ∈ (compareAt s o path a b).differences) : path <+: d.path := by
  obtain ⟨p, x, y, _, hd⟩ := mem_differences_iff.1 h
  exact (List.prefix_append path p).trans hd.prefix_path

/-! ### The order of the differences -/

lemma prefix_path_of_mem_childDifferences {i : Nat} (h : d ∈ childDifferences s o path a b i) :
    path ++ [i] <+: d.path := by
  rcases mem_childDifferences.1 h with ⟨c, c', _, _, h⟩ | ⟨c, _, _, rfl⟩ | ⟨c, _, _, rfl⟩
  · exact prefix_path_of_mem h
  · exact List.prefix_refl _
  · exact List.prefix_refl _

lemma lt_of_prefix_concat {i : Nat} {p : List Nat} (h : path ++ [i] <+: p) : path < p := by
  obtain ⟨q, rfl⟩ := h
  rw [List.append_assoc]
  conv_lhs => rw [← List.append_nil path]
  exact List.append_left_lt (List.nil_lt_cons _ _)

lemma lt_of_prefix_concat_of_lt {i j : Nat} {p q : List Nat} (hij : i < j)
    (hp : path ++ [i] <+: p) (hq : path ++ [j] <+: q) : p < q := by
  obtain ⟨u, rfl⟩ := hp
  obtain ⟨v, rfl⟩ := hq
  rw [List.append_assoc, List.append_assoc]
  exact List.append_left_lt (List.cons_lt_cons_iff.2 (.inl hij))

lemma pairwise_compareNodes :
    (compareNodes s o path a b).differences.Pairwise Difference.Precedes := by
  simp only [compareNodes, typeDifference?, textDifference?, countDifference?]
  split_ifs <;> simp [Difference.Precedes, Kind.rank]

lemma pairwise_childDifferences {i : Nat}
    (h : ∀ c c', a.children[i]? = some c → b.children[i]? = some c' →
      (compareAt s o (path ++ [i]) c c').differences.Pairwise Difference.Precedes) :
    (childDifferences s o path a b i).Pairwise Difference.Precedes := by
  rw [childDifferences]
  cases hc : a.children[i]? with
  | some c =>
    cases hc' : b.children[i]? with
    | some c' => exact h c c' hc hc'
    | none => exact List.pairwise_singleton _ _
  | none =>
    cases hc' : b.children[i]? with
    | some c' => exact List.pairwise_singleton _ _
    | none => exact .nil

lemma pairwise_differences :
    (compareAt s o path a b).differences.Pairwise Difference.Precedes := by
  refine compareAt_induction
    (motive := fun _ _ _ x => x.differences.Pairwise Difference.Precedes) ?_ ?_ path a b
  · intro path a b _
    exact .nil
  · intro path a b _ ih
    rw [differences_combine, differences_compareChildren, List.pairwise_append,
      List.pairwise_flatMap]
    refine ⟨pairwise_compareNodes, ⟨?_, ?_⟩, ?_⟩
    · intro i _
      exact pairwise_childDifferences (ih i)
    · -- the paths under two indices part at the index
      refine List.pairwise_lt_range.imp fun {i j} hij d hd e he => .inl ?_
      exact lt_of_prefix_concat_of_lt hij (prefix_path_of_mem_childDifferences hd)
        (prefix_path_of_mem_childDifferences he)
    · intro d hd e he
      obtain ⟨i, _, he⟩ := List.mem_flatMap.1 he
      rw [Difference.Precedes, path_eq_of_mem_compareNodes hd]
      exact .inl (lt_of_prefix_concat (prefix_path_of_mem_childDifferences he))

/-! ### The number of nodes compared -/

namespace Account

/-- The paths of a kind are finitely many, and an account counts one node for each of them and one
for each node without a counterpart. -/
def Counts (z : Account α) (C : List Nat → Prop) : Prop :=
  ∃ P : Finset (List Nat), (∀ p, p ∈ P ↔ C p) ∧
    z.compared = P.card + z.differences.countP (·.kind.isUnpaired)

variable {z w : Account α} {C D : List Nat → Prop}

lemma Counts.congr (h : z.Counts C) (hCD : ∀ p, C p ↔ D p) : z.Counts D := by
  obtain ⟨P, hP, hcard⟩ := h
  exact ⟨P, fun p => (hP p).trans (hCD p), hcard⟩

lemma counts_empty (hC : ∀ p, ¬ C p) : (empty s).Counts C :=
  ⟨∅, fun p => by simp [hC p], rfl⟩

lemma counts_skipped (hC : ∀ p, ¬ C p) : (skipped s).Counts C :=
  ⟨∅, fun p => by simp [hC p], rfl⟩

/-- The paths of one more child start with an index that those of the children before do not. -/
lemma Counts.add (hz : z.Counts C) (hw : w.Counts D) {i : Nat} (hnew : ∀ q, ¬ C (i :: q)) :
    (z.add s w).Counts fun p => C p ∨ ∃ q, p = i :: q ∧ D q := by
  obtain ⟨P, hP, hcard⟩ := hz
  obtain ⟨R, hR, hcard'⟩ := hw
  have hdisjoint : Disjoint P (R.map ⟨List.cons i, List.cons_injective⟩) := by
    rw [Finset.disjoint_right]
    intro p hp
    obtain ⟨q, _, rfl⟩ := Finset.mem_map.1 hp
    rw [hP]
    exact hnew q
  refine ⟨P ∪ R.map ⟨List.cons i, List.cons_injective⟩, fun p => ?_, ?_⟩
  · rw [Finset.mem_union, hP, Finset.mem_map]
    refine or_congr_right ⟨?_, ?_⟩
    · rintro ⟨q, hq, rfl⟩
      exact ⟨q, rfl, (hR q).1 hq⟩
    · rintro ⟨q, rfl, hq⟩
      exact ⟨q, (hR q).2 hq, rfl⟩
  · rw [Finset.card_union_of_disjoint hdisjoint, Finset.card_map, compared_add, hcard, hcard',
      differences_add, List.countP_append]
    omega

lemma Counts.unpaired (hz : z.Counts C) {d : Difference} (hd : d.kind.isUnpaired = true) :
    (z.unpaired d).Counts C := by
  obtain ⟨P, hP, hcard⟩ := hz
  refine ⟨P, hP, ?_⟩
  rw [compared_unpaired, hcard, differences_unpaired, List.countP_append,
    List.countP_singleton, if_pos hd, Nat.add_assoc]

end Account

lemma compared_compareNodes : (compareNodes s o path a b).compared = 1 := rfl

lemma countP_isUnpaired_compareNodes :
    (compareNodes s o path a b).differences.countP (·.kind.isUnpaired) = 0 := by
  simp only [compareNodes, typeDifference?, textDifference?, countDifference?]
  split_ifs <;> simp [Kind.isUnpaired]

lemma Account.Counts.combine {z : Account α} {C : List Nat → Prop} (hz : z.Counts C)
    (hroot : ¬ C []) (n : Nat) :
    (combine s n (compareNodes s o path a b) z).Counts fun p => p = [] ∨ C p := by
  obtain ⟨P, hP, hcard⟩ := hz
  rw [← hP] at hroot
  refine ⟨insert [] P, fun p => by rw [Finset.mem_insert, hP], ?_⟩
  rw [Finset.card_insert_of_notMem hroot, compared_combine, differences_combine, hcard,
    List.countP_append, countP_isUnpaired_compareNodes, compared_compareNodes]
  omega

/-- A path is compared in a pair of children under one of the first indices. -/
def ComparedBelow (o : Options) (depth : Nat) (a b : Tree) (n : Nat) (p : List Nat) : Prop :=
  ∃ i < n, ∃ q, p = i :: q ∧ ∃ c c', a.children[i]? = some c ∧ b.children[i]? = some c' ∧
    ∃ x y, Compared o (depth + 1) c c' q x y

section

variable {depth n : Nat} {p : List Nat}

lemma comparedBelow_succ_iff :
    ComparedBelow o depth a b (n + 1) p ↔
      ComparedBelow o depth a b n p ∨ ∃ q, p = n :: q ∧ ∃ c c', a.children[n]? = some c ∧
        b.children[n]? = some c' ∧ ∃ x y, Compared o (depth + 1) c c' q x y := by
  constructor
  · rintro ⟨i, hi, h⟩
    rcases Nat.lt_succ_iff_lt_or_eq.1 hi with hi | rfl
    · exact .inl ⟨i, hi, h⟩
    · exact .inr h
  · rintro (⟨i, hi, h⟩ | h)
    · exact ⟨i, Nat.lt_succ_of_lt hi, h⟩
    · exact ⟨n, Nat.lt_succ_self n, h⟩

lemma comparedBelow_width_iff (hover : o.passesOver depth a b = false) :
    p = [] ∨ ComparedBelow o depth a b (width a b) p ↔ ∃ x y, Compared o depth a b p x y := by
  constructor
  · rintro (rfl | ⟨i, _, q, rfl, c, c', hc, hc', x, y, h⟩)
    · exact ⟨a, b, compared_nil_iff.2 ⟨hover, rfl, rfl⟩⟩
    · exact ⟨x, y, compared_cons_iff.2 ⟨hover, c, c', hc, hc', h⟩⟩
  · rintro ⟨x, y, h⟩
    cases p with
    | nil => exact .inl rfl
    | cons i q =>
      obtain ⟨_, c, c', hc, hc', h⟩ := compared_cons_iff.1 h
      have hi : i < width a b := lt_max_of_lt_left (List.getElem?_eq_some_iff.1 hc).1
      exact .inr ⟨i, hi, q, rfl, c, c', hc, hc', x, y, h⟩

end

lemma counts_compareChildren
    (h : ∀ i c c', a.children[i]? = some c → b.children[i]? = some c' →
      (compareAt s o (path ++ [i]) c c').Counts fun p =>
        ∃ x y, Compared o (path.length + 1) c c' p x y) :
    (compareChildren s o path a b).Counts (ComparedBelow o path.length a b (width a b)) := by
  refine compareChildren_run
    (Q := fun n z => z.Counts (ComparedBelow o path.length a b n)) ?_ ?_ ?_ ?_
  · refine Account.counts_empty ?_
    rintro p ⟨i, hi, _⟩
    exact Nat.not_lt_zero i hi
  · intro i z c c' hc hc' hz
    have hnew : ∀ q, ¬ ComparedBelow o path.length a b i (i :: q) := by
      rintro q ⟨j, hj, r, hr, _⟩
      exact Nat.ne_of_gt hj (List.cons.inj hr).1
    refine (hz.add (h i c c' hc hc') hnew).congr fun p => ?_
    simp [comparedBelow_succ_iff, hc, hc']
  · intro i z c _ hnone hz
    refine (hz.unpaired rfl).congr fun p => ?_
    simp [comparedBelow_succ_iff, hnone]
  · intro i z c hnone _ hz
    refine (hz.unpaired rfl).congr fun p => ?_
    simp [comparedBelow_succ_iff, hnone]

/-- One node is counted for each compared path and for each child that stands alone. -/
lemma counts_compareAt (s : Scale α) (o : Options) (path : List Nat) (a b : Tree) :
    (compareAt s o path a b).Counts fun p => ∃ x y, Compared o path.length a b p x y := by
  refine compareAt_induction (motive := fun path a b z =>
    z.Counts fun p => ∃ x y, Compared o path.length a b p x y) ?_ ?_ path a b
  · intro path a b hover
    refine Account.counts_skipped ?_
    rintro p ⟨x, y, h⟩
    rw [h.passesOver_eq_false] at hover
    cases hover
  · intro path a b hover ih
    simp only [List.length_append, List.length_singleton] at ih
    have hroot : ¬ ComparedBelow o path.length a b (width a b) [] := by
      rintro ⟨i, _, q, h, _⟩
      cases h
    exact ((counts_compareChildren ih).combine hroot _).congr fun p =>
      comparedBelow_width_iff hover

/-- A difference is listed just in case it is one between the nodes at a compared path. The list is
in pre-order of the paths and, at one path, in the order of the kinds, so it holds each difference
once. As many nodes are compared as there are compared paths and nodes without a counterpart. The
text of a path stands for that path only. -/
theorem differences_exact (o : Options) (a b : Tree) :
    let z := compare o a b
    (∀ d, d ∈ z.differences ↔ ∃ p x y, Compared o 0 a b p x y ∧ NodesDiffer o x y p d) ∧
    z.differences.Pairwise Difference.Precedes ∧
    (∃ P : Finset (List Nat), (∀ p, p ∈ P ↔ ∃ x y, Compared o 0 a b p x y) ∧
      z.compared = P.card + z.differences.countP (·.kind.isUnpaired)) ∧
    Function.Injective renderPath := by
  intro z
  exact ⟨fun d => mem_differences_iff, pairwise_differences,
    counts_compareAt .float o [] a b, renderPath_injective⟩

end Arbor.Comparison
