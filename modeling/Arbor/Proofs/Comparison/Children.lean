import Arbor.Comparison.Account
import Mathlib.Tactic.Common

/-!
# Comparing the children by their indices

The children of two nodes are taken in turn: at each index there is a child on both sides, on the
left only or on the right only. An account of the children is built by one step for each index, so
what every step keeps holds of the account of all of them, and what holds of two nodes if it holds
of their children holds of two trees.
-/

namespace Arbor.Comparison

variable {α : Type} (s : Scale α) (o : Options)

/-- The number of indices under which one of two nodes has a child. -/
def width (a b : Tree) : Nat := max a.children.length b.children.length

/-- The difference that a child without a counterpart on the right makes. -/
def missingAt (path : List Nat) (i : Nat) (c : Tree) : Difference :=
  ⟨.missing c.kind, path ++ [i], some c.span, none⟩

/-- The difference that a child without a counterpart on the left makes. -/
def extraAt (path : List Nat) (i : Nat) (d : Tree) : Difference :=
  ⟨.extra d.kind, path ++ [i], none, some d.span⟩

/-- Adds what there is under an index to an account of the children before it. -/
def addChild (path : List Nat) (as bs : List Tree) (x : Account α) (i : Nat) : Account α :=
  match as[i]?, bs[i]? with
  | some a, some b => x.add s (compareAt s o (path ++ [i]) a b)
  | some a, none => x.unpaired (missingAt path i a)
  | none, some b => x.unpaired (extraAt path i b)
  | none, none => x

/-- The account of the children of two nodes. -/
def compareChildren (path : List Nat) (a b : Tree) : Account α :=
  (List.range (width a b)).foldl (addChild s o path a.children b.children) (.empty s)

/-! ### Counts and differences of joined accounts -/

section

variable {s} (n : Nat) (x y own children : Account α) (d : Difference)

namespace Account

@[simp] lemma differences_add : (x.add s y).differences = x.differences ++ y.differences := rfl

@[simp] lemma compared_add : (x.add s y).compared = x.compared + y.compared := rfl

@[simp] lemma matching_add : (x.add s y).matching = x.matching + y.matching := rfl

@[simp] lemma different_add : (x.add s y).different = x.different + y.different := rfl

@[simp] lemma differences_unpaired : (x.unpaired d).differences = x.differences ++ [d] := rfl

@[simp] lemma compared_unpaired : (x.unpaired d).compared = x.compared + 1 := rfl

@[simp] lemma matching_unpaired : (x.unpaired d).matching = x.matching := rfl

@[simp] lemma different_unpaired : (x.unpaired d).different = x.different + 1 := rfl

end Account

@[simp] lemma differences_combine :
    (combine s n own children).differences = own.differences ++ children.differences := rfl

@[simp] lemma compared_combine :
    (combine s n own children).compared = own.compared + children.compared := rfl

@[simp] lemma matching_combine :
    (combine s n own children).matching = own.matching + children.matching := rfl

@[simp] lemma different_combine :
    (combine s n own children).different = own.different + children.different := rfl

end

/-! ### One step for each index -/

lemma compareAll_nil_nil (path : List Nat) (i : Nat) (x : Account α) :
    compareAll s o path i x [] [] = x := by
  rw [compareAll, addExtra]

/-- One step of the comparison of what is left of two lists. -/
lemma compareAll_drop_step (path : List Nat) {as bs : List Tree} {i : Nat}
    (h : i < max as.length bs.length) (x : Account α) :
    compareAll s o path i x (as.drop i) (bs.drop i) =
      compareAll s o path (i + 1) (addChild s o path as bs x i) (as.drop (i + 1))
        (bs.drop (i + 1)) := by
  rcases Nat.lt_or_ge i as.length with ha | ha <;> rcases Nat.lt_or_ge i bs.length with hb | hb
  · rw [List.drop_eq_getElem_cons ha, List.drop_eq_getElem_cons hb, compareAll, addChild,
      List.getElem?_eq_getElem ha, List.getElem?_eq_getElem hb]
  · rw [List.drop_eq_getElem_cons ha, List.drop_eq_nil_of_le hb,
      List.drop_eq_nil_of_le (Nat.le_succ_of_le hb), compareAll, addChild,
      List.getElem?_eq_getElem ha, List.getElem?_eq_none hb]
    rfl
  · rw [List.drop_eq_nil_of_le ha, List.drop_eq_getElem_cons hb,
      List.drop_eq_nil_of_le (Nat.le_succ_of_le ha), compareAll, compareAll, addExtra, addChild,
      List.getElem?_eq_none ha, List.getElem?_eq_getElem hb]
    rfl
  · omega

lemma compareAll_drop (path : List Nat) (as bs : List Tree) (i n : Nat) (x : Account α)
    (h : i + n = max as.length bs.length) :
    compareAll s o path i x (as.drop i) (bs.drop i) =
      (List.range' i n).foldl (addChild s o path as bs) x := by
  induction n generalizing i x with
  | zero =>
    rw [List.drop_eq_nil_of_le (by omega), List.drop_eq_nil_of_le (by omega), compareAll_nil_nil,
      List.range'_zero, List.foldl_nil]
  | succ n ih =>
    rw [compareAll_drop_step s o path (by omega), ih (i + 1) _ (by omega), List.range'_succ,
      List.foldl_cons]

lemma compareAll_children (path : List Nat) (a b : Tree) :
    compareAll s o path 0 (.empty s) a.children b.children = compareChildren s o path a b := by
  have h := compareAll_drop s o path a.children b.children 0 (width a b) (.empty s)
    (Nat.zero_add _)
  rwa [List.drop_zero, List.drop_zero, ← List.range_eq_range'] at h

/-- Two trees are compared by their roots and by their children, unless they are passed over. -/
lemma compareAt_eq (path : List Nat) (a b : Tree) :
    compareAt s o path a b =
      if o.passesOver path.length a b then .skipped s
      else combine s (width a b) (compareNodes s o path a b) (compareChildren s o path a b) := by
  obtain ⟨kind, text, span, children, fields⟩ := a
  rw [compareAt, compareAll_children s o path ⟨kind, text, span, children, fields⟩ b]
  rfl

/-! ### What the steps keep -/

variable {s o}

/-- What holds of the empty account and is kept by each step holds of the account of the
children. -/
lemma compareChildren_run {path : List Nat} {a b : Tree} {Q : Nat → Account α → Prop}
    (empty : Q 0 (.empty s))
    (paired : ∀ i x c d, a.children[i]? = some c → b.children[i]? = some d → Q i x →
      Q (i + 1) (x.add s (compareAt s o (path ++ [i]) c d)))
    (missing : ∀ i x c, a.children[i]? = some c → b.children[i]? = none → Q i x →
      Q (i + 1) (x.unpaired (missingAt path i c)))
    (extra : ∀ i x d, a.children[i]? = none → b.children[i]? = some d → Q i x →
      Q (i + 1) (x.unpaired (extraAt path i d))) :
    Q (width a b) (compareChildren s o path a b) := by
  suffices h : ∀ n ≤ width a b,
      Q n ((List.range n).foldl (addChild s o path a.children b.children) (.empty s)) from
    h _ (Nat.le_refl _)
  intro n hn
  induction n with
  | zero => exact empty
  | succ n ih =>
    have hq := ih (by omega)
    rw [List.range_succ, List.foldl_append, List.foldl_cons, List.foldl_nil, addChild]
    cases ha : a.children[n]? with
    | some c =>
      cases hb : b.children[n]? with
      | some d => exact paired n _ c d ha hb hq
      | none => exact missing n _ c ha hb hq
    | none =>
      cases hb : b.children[n]? with
      | some d => exact extra n _ d ha hb hq
      | none =>
        -- one of the two nodes has a child under every index below the width
        rw [List.getElem?_eq_none_iff] at ha hb
        rw [width] at hn
        omega

/-- Induction over two trees at once: what holds of trees that are passed over, and of two nodes
whenever it holds of their paired children, holds of all trees. -/
theorem compareAt_induction {motive : List Nat → Tree → Tree → Account α → Prop}
    (skipped : ∀ path a b, o.passesOver path.length a b = true → motive path a b (.skipped s))
    (combined : ∀ path a b, o.passesOver path.length a b = false →
      (∀ i c d, a.children[i]? = some c → b.children[i]? = some d →
        motive (path ++ [i]) c d (compareAt s o (path ++ [i]) c d)) →
      motive path a b (combine s (width a b) (compareNodes s o path a b)
        (compareChildren s o path a b)))
    (path : List Nat) (a b : Tree) : motive path a b (compareAt s o path a b) := by
  rw [compareAt_eq]
  split_ifs with h
  · exact skipped path a b h
  · refine combined path a b (Bool.not_eq_true _ ▸ h) ?_
    intro i c d hc _
    exact compareAt_induction skipped combined (path ++ [i]) c d
termination_by a.size
decreasing_by exact Tree.size_lt_of_mem (List.mem_of_getElem? hc)

end Arbor.Comparison
