import Arbor.Proofs.Pattern.Scores
import Mathlib.Algebra.Order.Field.Rat
import Mathlib.Tactic.NormNum

/-!
# Weaker patterns score no lower

A pattern is weakened by giving up demands, by asking for fewer or allowing more children, and by
looking for its parts further down, and this at any places inside it. What is satisfied stays
satisfied: a node that meets the demands meets the weaker ones, and a candidate that matches a part
is still a candidate and still matches. So the share of the parts that are satisfied can only grow.
-/

namespace Arbor

/-- A demand of the first is given up in the second or stays as it is; less is asked of the number
of children. -/
structure Demands.Weakened (d d' : Demands) : Prop where
  kind : d'.kind = none ∨ d'.kind = d.kind
  text : d'.text = none ∨ d'.text = d.text
  minChildren : ∀ k' ∈ d'.minChildren, ∃ k ∈ d.minChildren, k' ≤ k
  maxChildren : ∀ k' ∈ d'.maxChildren, ∃ k ∈ d.maxChildren, k ≤ k'
  predicate : d'.predicate = none ∨ d'.predicate = d.predicate

namespace Demands

lemma admits_iff {d : Demands} {n : Node} :
    d.admits n = true ↔ (∀ kind ∈ d.kind, kind = n.kind) ∧
      (∀ matcher ∈ d.text, matcher.accepts n.text = true) ∧
      (∀ k ∈ d.minChildren, k ≤ n.children.length) ∧
      (∀ k ∈ d.maxChildren, n.children.length ≤ k) ∧
      ∀ holds ∈ d.predicate, holds n = true := by
  simp [admits, Option.all_eq_true, and_assoc]

/-- A demand that is given up or stays is met if it was met before. -/
lemma forall_of_dropped {α : Type} {x x' : Option α} (h : x' = none ∨ x' = x) {P : α → Prop}
    (hx : ∀ a ∈ x, P a) : ∀ a ∈ x', P a := by
  rcases h with rfl | rfl
  · intro a ha
    cases ha
  · exact hx

/-- What meets the demands meets weaker ones. -/
lemma Weakened.admits {d d' : Demands} (h : d.Weakened d') {n : Node} (hn : d.admits n = true) :
    d'.admits n = true := by
  rw [admits_iff] at hn ⊢
  obtain ⟨hkind, htext, hmin, hmax, hpredicate⟩ := hn
  refine ⟨forall_of_dropped h.kind hkind, forall_of_dropped h.text htext, fun k' hk' => ?_,
    fun k' hk' => ?_, forall_of_dropped h.predicate hpredicate⟩
  · obtain ⟨k, hk, hle⟩ := h.minChildren k' hk'
    exact Nat.le_trans hle (hmin k hk)
  · obtain ⟨k, hk, hle⟩ := h.maxChildren k' hk'
    exact Nat.le_trans (hmax k hk) hle

end Demands

namespace Pattern

/-- The second pattern is the first with weaker demands, with parts that are looked for further
down, or both, at any places in it. The captures may be others. -/
inductive Weakened : Pattern → Pattern → Prop where
  | intro {p p' : Pattern} (demands : p.demands.Weakened p'.demands)
    (deep : p.deep = true → p'.deep = true) (length : p'.parts.length = p.parts.length)
    (parts : ∀ (i : Nat) (q q' : Pattern), p.parts[i]? = some q → p'.parts[i]? = some q' →
      Weakened q q') :
    Weakened p p'

/-! ### Candidates and parts -/

lemma mem_candidates_of_deep {p p' : Pattern} (h : p.deep = true → p'.deep = true) {n m : Node}
    (hm : m ∈ p.candidates n) : m ∈ p'.candidates n := by
  have hinside := inside_of_mem_candidates hm
  rw [candidates] at hm ⊢
  cases hdeep : p.deep with
  | true =>
    rw [h hdeep, if_pos rfl]
    exact Node.mem_descendants.2 hinside
  | false =>
    rw [hdeep] at hm
    split_ifs
    · exact Node.mem_descendants.2 hinside
    · exact hm

open Classical in
/-- If every part of a list stays satisfied in the other list, at least as many are satisfied. -/
lemma countP_matchedBy_le {cs cs' : List Node} {ps ps' : List Pattern}
    (hlength : ps'.length = ps.length)
    (h : ∀ (i : Nat) (q q' : Pattern), ps[i]? = some q → ps'[i]? = some q' →
      q.MatchedBy cs → q'.MatchedBy cs') :
    ps.countP (MatchedBy · cs) ≤ ps'.countP (MatchedBy · cs') := by
  induction ps generalizing ps' with
  | nil => exact Nat.zero_le _
  | cons q ps ih =>
    cases ps' with
    | nil => cases hlength
    | cons q' ps' =>
      have hrest := ih (Nat.succ.inj hlength) fun i => h (i + 1)
      have hfirst := h 0 q q' rfl rfl
      rw [List.countP_cons, List.countP_cons]
      by_cases hq : q.MatchedBy cs
      · simpa [hq, hfirst hq] using hrest
      · simp only [hq, decide_false, Bool.false_eq_true, if_false, Nat.add_zero]
        exact Nat.le_trans hrest (Nat.le_add_right _ _)

/-! ### Shares -/

lemma Score.share_nonneg (s : Score) : 0 ≤ s.share :=
  div_nonneg (Nat.cast_nonneg _) (Nat.cast_nonneg _)

lemma share_of_not_admits {p : Pattern} {n : Node} (h : ¬ p.demands.admits n = true) :
    (score n p).share = 0 := by
  rw [score_of_not_admits h]
  simp [Score.share, Score.failed]

lemma share_of_admits {p : Pattern} {n : Node} (h : p.demands.admits n = true) :
    (score n p).share = (p.found n).share := by
  rw [score_of_admits h, Score.share, Score.satisfied_named, Score.total_named, Score.share]

lemma share_found_of_parts_eq_nil {p : Pattern} {n : Node} (h : p.parts = []) :
    (p.found n).share = 1 := by
  rw [found_of_parts_eq_nil h]
  simp [Score.share, Score.full]

open Classical in
lemma share_found {p : Pattern} {n : Node} (h : p.parts ≠ []) :
    (p.found n).share
      = (p.parts.countP (MatchedBy · (p.candidates n)) : ℚ) / p.parts.length := by
  rw [Score.share, satisfied_found h, total_found h]

/-- No more parts are satisfied than there are. -/
lemma share_le_one (n : Node) (p : Pattern) : (score n p).share ≤ 1 := by
  by_cases hadmits : p.demands.admits n = true
  · rw [share_of_admits hadmits]
    by_cases hparts : p.parts = []
    · exact (share_found_of_parts_eq_nil hparts).le
    · rw [share_found hparts]
      exact div_le_one_of_le₀ (Nat.cast_le.2 List.countP_le_length) (Nat.cast_nonneg _)
  · rw [share_of_not_admits hadmits]
    exact zero_le_one

/-- A weaker pattern gives every node at least the same share: its parts are as many, and each part
that was satisfied still is. -/
lemma Weakened.share_le {p p' : Pattern} (h : Weakened p p') (n : Node) :
    (score n p).share ≤ (score n p').share := by
  induction h generalizing n with
  | @intro p p' hdemands hdeep hlength _ ih =>
    by_cases hadmits : p.demands.admits n = true
    · rw [share_of_admits hadmits, share_of_admits (hdemands.admits hadmits)]
      by_cases hparts : p.parts = []
      · have hparts' : p'.parts = [] := by
          rw [← List.length_eq_zero_iff, hlength, hparts, List.length_nil]
        rw [share_found_of_parts_eq_nil hparts, share_found_of_parts_eq_nil hparts']
      · have hparts' : p'.parts ≠ [] := by
          rwa [← List.length_pos_iff, hlength, List.length_pos_iff]
        have hstays (i : Nat) (q q' : Pattern) (hq : p.parts[i]? = some q)
            (hq' : p'.parts[i]? = some q') :
            q.MatchedBy (p.candidates n) → q'.MatchedBy (p'.candidates n) := by
          rintro ⟨c, hc, hmatch⟩
          refine ⟨c, mem_candidates_of_deep hdeep hc, ?_⟩
          rw [Score.isMatch_iff (total_score_pos _ _)] at hmatch ⊢
          exact hmatch.trans_le (ih i q q' hq hq' c)
        have hcount := countP_matchedBy_le hlength hstays
        rw [share_found hparts, share_found hparts', hlength]
        exact div_le_div_of_nonneg_right (Nat.cast_le.2 hcount) (Nat.cast_nonneg _)
    · rw [share_of_not_admits hadmits]
      exact Score.share_nonneg _

/-- Weakening a pattern anywhere inside it never lowers the share of its parts that a node
satisfies, which lies between zero and one, and never loses a match. -/
theorem share_le_of_weakened {p p' : Pattern} (h : Weakened p p') (n : Node) :
    0 ≤ (score n p).share ∧ (score n p).share ≤ (score n p').share ∧ (score n p').share ≤ 1 ∧
      ((score n p).isMatch = true → (score n p').isMatch = true) := by
  refine ⟨Score.share_nonneg _, h.share_le n, share_le_one n p', fun hmatch => ?_⟩
  rw [Score.isMatch_iff (total_score_pos _ _)] at hmatch ⊢
  exact hmatch.trans_le (h.share_le n)

/-- A call of a name with a text among its arguments. -/
def callWithText : Node :=
  .root ⟨"call_expression", "f('s')", .zero, [.leaf "identifier" "f",
    ⟨"arguments", "('s')", .zero, [.leaf "string" "'s'"], ∅⟩], ∅⟩

/-- A call with a certain name, a text and a number as its children. -/
def strictCall : Pattern where
  demands := { kind := some "call_expression", minChildren := some 2 }
  parts := [
    { demands := { kind := some "identifier", text := some (.exact "f") } },
    { demands := { kind := some "string" } },
    { demands := { kind := some "number", maxChildren := some 0 } }]

/-- A node with some name, a text and a node of few children anywhere below it. -/
def looseCall : Pattern where
  demands := { minChildren := some 1 }
  parts := [
    { demands := { kind := some "identifier" }, capture := some "name" },
    { demands := { kind := some "string" } },
    { demands := { maxChildren := some 1 } }]
  deep := true

/-- The call satisfies a third of the stricter pattern and all of the looser one. -/
theorem share_le_of_weakened_call :
    Weakened strictCall looseCall ∧ (score callWithText strictCall).share = 1 / 3 ∧
      (score callWithText looseCall).share = 1 ∧
      (score callWithText strictCall).share ≤ (score callWithText looseCall).share := by
  have hleaf {d d' : Demands} {capture capture' : Option String} (h : d.Weakened d') :
      Weakened { demands := d, capture } { demands := d', capture := capture' } :=
    .intro h id rfl fun i q q' hq _ => by cases hq
  have hweak : Weakened strictCall looseCall := by
    refine .intro ⟨.inl rfl, .inl rfl, ?_, ?_, .inl rfl⟩ (fun _ => rfl) rfl ?_
    · rintro k' ⟨⟩
      exact ⟨2, rfl, by decide⟩
    · rintro k' ⟨⟩
    · rintro (_ | _ | _ | i) q q' ⟨⟩ ⟨⟩
      · exact hleaf ⟨.inr rfl, .inl rfl, by rintro k' ⟨⟩, by rintro k' ⟨⟩, .inl rfl⟩
      · exact hleaf ⟨.inr rfl, .inl rfl, by rintro k' ⟨⟩, by rintro k' ⟨⟩, .inl rfl⟩
      · refine hleaf ⟨.inl rfl, .inl rfl, by rintro k' ⟨⟩, ?_, .inl rfl⟩
        rintro k' ⟨⟩
        exact ⟨0, rfl, by decide⟩
  have hstrict : (score callWithText strictCall).satisfied = 1 ∧
      (score callWithText strictCall).total = 3 := by decide +kernel
  have hloose : (score callWithText looseCall).satisfied = 3 ∧
      (score callWithText looseCall).total = 3 := by decide +kernel
  refine ⟨hweak, ?_, ?_, (share_le_of_weakened hweak callWithText).2.1⟩
  · rw [Score.share, hstrict.1, hstrict.2]
    norm_num
  · rw [Score.share, hloose.1, hloose.2]
    norm_num

end Pattern

end Arbor
