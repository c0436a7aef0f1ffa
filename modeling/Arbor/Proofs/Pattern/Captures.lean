import Arbor.Proofs.Pattern.Scores

/-!
# What a match captures

A pattern and the patterns nested in it may give names to the nodes that match them. A name in the
captures of a match always stands for a node that matches a pattern of this name, at or below the
node in question, and nothing is captured where nothing matches. The own name of a pattern is bound
to the node itself, and the name of a part is bound as soon as some candidate matches the part.
-/

namespace Arbor.Pattern

/-- The pattern is the other one or nested in it at any depth. -/
inductive NestedIn (q : Pattern) : Pattern → Prop where
  | refl : NestedIn q q
  | part {p r : Pattern} : r ∈ p.parts → NestedIn q r → NestedIn q p

variable {p : Pattern} {n m : Node} {name : String}

/-! ### One level -/

/-- A name that the parts capture was captured before, or some candidate for a part matches and has
captured it. -/
lemma of_get?_captures_scoreParts {cs : List Node} {ps : List Pattern} {s : Score}
    (h : (scoreParts cs ps s).captures.get? name = some m) :
    s.captures.get? name = some m ∨ ∃ q ∈ ps, ∃ c ∈ cs, (score c q).isMatch = true ∧
      (score c q).captures.get? name = some m := by
  induction ps generalizing s with
  | nil => exact .inl h
  | cons q ps ih =>
    rw [scoreParts] at h
    rcases ih h with hfirst | ⟨r, hr, hrest⟩
    · rw [Score.get?_captures_addPart, Option.or_eq_some_iff] at hfirst
      rcases hfirst with hbest | ⟨-, hbefore⟩
      · obtain ⟨b, hb, hname⟩ := Option.bind_eq_some_iff.1 hbest
        obtain ⟨hmem, hmatch⟩ := Score.of_best?_eq_some hb
        obtain ⟨c, hc, rfl⟩ := List.mem_map.1 hmem
        exact .inr ⟨q, List.mem_cons_self, c, hc, hmatch, hname⟩
      · exact .inl hbefore
    · exact .inr ⟨r, List.mem_cons_of_mem q hr, hrest⟩

/-- A name that is bound stays bound. -/
lemma exists_get?_captures_scoreParts {cs : List Node} (ps : List Pattern) {s : Score}
    (h : ∃ m, s.captures.get? name = some m) :
    ∃ m, (scoreParts cs ps s).captures.get? name = some m := by
  induction ps generalizing s with
  | nil => exact h
  | cons q ps ih =>
    rw [scoreParts]
    apply ih
    rw [Score.get?_captures_addPart]
    cases (Score.best? (cs.map fun c => score c q)).bind (·.captures.get? name) with
    | none => exact h
    | some c => exact ⟨c, rfl⟩

/-- The own name of a pattern that a node matches stands for the node. -/
lemma get?_captures_self (hmatch : (score n p).isMatch = true) (hname : p.capture = some name) :
    (score n p).captures.get? name = some n := by
  by_cases hadmits : p.demands.admits n = true
  · rw [score_of_admits hadmits] at hmatch ⊢
    rw [Score.isMatch_named] at hmatch
    rw [Score.get?_captures_named hmatch, if_pos hname]
  · rw [score_of_not_admits hadmits] at hmatch
    cases hmatch

/-- The name of a part is bound as soon as some candidate matches the part: the best candidate is
captured under it, if no later part captures another node. -/
lemma exists_get?_captures_of_matchedBy {cs : List Node} {ps : List Pattern} {q : Pattern}
    (hq : q ∈ ps) (hname : q.capture = some name) (hmatched : q.MatchedBy cs) (s : Score) :
    ∃ m, (scoreParts cs ps s).captures.get? name = some m := by
  induction ps generalizing s with
  | nil => cases hq
  | cons r ps ih =>
    rw [scoreParts]
    rcases List.mem_cons.1 hq with rfl | hq
    · apply exists_get?_captures_scoreParts
      obtain ⟨c, hc, hmatch⟩ := hmatched
      have hsome : (Score.best? (cs.map fun c => score c q)).isSome = true :=
        Score.best?_isSome_iff.2 ⟨score c q, List.mem_map.2 ⟨c, hc, rfl⟩, hmatch⟩
      obtain ⟨b, hb⟩ := Option.isSome_iff_exists.1 hsome
      obtain ⟨hmem, hbest⟩ := Score.of_best?_eq_some hb
      obtain ⟨d, -, rfl⟩ := List.mem_map.1 hmem
      refine ⟨d, ?_⟩
      rw [Score.get?_captures_addPart, hb, Option.bind_some, get?_captures_self hbest hname]
      rfl
    · exact ih hq _

/-- A score without a match has captured nothing. -/
lemma captures_of_not_isMatch (h : (score n p).isMatch = false) : (score n p).captures = ∅ := by
  by_cases hadmits : p.demands.admits n = true
  · rw [score_of_admits hadmits] at h ⊢
    rw [Score.isMatch_named] at h
    rw [Score.captures_named_of_not_isMatch h]
    by_cases hparts : p.parts = []
    · rw [found_of_parts_eq_nil hparts] at h
      cases h
    · apply Table.eq_empty_of_get?
      intro name
      rw [Option.eq_none_iff_forall_ne_some]
      intro m hm
      -- what is captured comes from a candidate that matches, and then a part is satisfied
      rw [found, if_neg (by simpa using hparts)] at hm
      rcases of_get?_captures_scoreParts hm with hempty | ⟨q, hq, c, hc, hmatch, -⟩
      · cases hempty
      · have hzero : (p.found n).satisfied = 0 := by simpa [Score.isMatch] using h
        rw [satisfied_found hparts, List.countP_eq_zero] at hzero
        simp only [decide_eq_true_eq] at hzero
        exact hzero q hq ⟨c, hc, hmatch⟩
  · rw [score_of_not_admits hadmits]
    rfl

/-! ### All levels -/

/-- A captured node stands at or below the node in question and matches a nested pattern of the name
under which it is captured. -/
lemma of_get?_captures (p : Pattern) {n m : Node} {name : String}
    (h : (score n p).captures.get? name = some m) :
    m ∈ n.preorder ∧ ∃ q, q.NestedIn p ∧ q.capture = some name ∧ (score m q).isMatch = true := by
  induction p using parts_induction generalizing n with
  | step p ih =>
    have hmatch : (score n p).isMatch = true := by
      by_contra hfail
      rw [captures_of_not_isMatch (Bool.eq_false_iff.2 hfail)] at h
      cases h
    by_cases hadmits : p.demands.admits n = true
    · have hfound := hmatch
      rw [score_of_admits hadmits, Score.isMatch_named] at hfound
      rw [score_of_admits hadmits, Score.get?_captures_named hfound] at h
      split_ifs at h with hown
      · obtain rfl := Option.some.inj h
        exact ⟨n.self_mem_preorder, p, .refl, hown, hmatch⟩
      · rw [found] at h
        split_ifs at h
        · cases h
        · rcases of_get?_captures_scoreParts h with hempty | ⟨q, hq, c, hc, -, hname⟩
          · cases hempty
          · obtain ⟨hm, r, hr, hrest⟩ := ih q hq hname
            have hbelow := (inside_of_mem_candidates hc).of_mem_preorder hm
            exact ⟨hbelow.mem_preorder, r, .part hq hr, hrest⟩
    · rw [score_of_not_admits hadmits] at h
      cases h

/-- Nothing is captured without a match. Every captured node is the node itself or one below it, and
matches a pattern of the name under which it is captured, the given one or one nested in it. In a
match, the own name of the pattern stands for the node, and the name of every part that some
candidate matches is bound. -/
theorem captures_sound_complete (n : Node) (p : Pattern) :
    ((score n p).share = 0 → (score n p).captures = ∅) ∧
    (∀ name m, (score n p).captures.get? name = some m →
      (m = n ∨ m ∈ n.descendants) ∧
      ∃ q, NestedIn q p ∧ q.capture = some name ∧ 0 < (score m q).share) ∧
    (0 < (score n p).share →
      (∀ name, p.capture = some name → (score n p).captures.get? name = some n) ∧
      ∀ q ∈ p.parts, ∀ name, q.capture = some name →
        (∃ c ∈ p.candidates n, 0 < (score c q).share) →
        ∃ m, (score n p).captures.get? name = some m) := by
  have hpositive (m : Node) (q : Pattern) : 0 < (score m q).share ↔ (score m q).isMatch = true :=
    (Score.isMatch_iff (total_score_pos m q)).symm
  simp only [hpositive]
  refine ⟨fun hzero => ?_, fun name m h => ?_, fun hmatch => ⟨fun name => ?_, ?_⟩⟩
  · apply captures_of_not_isMatch
    rw [← Bool.not_eq_true, ← hpositive, hzero]
    exact lt_irrefl 0
  · obtain ⟨hm, hnested⟩ := of_get?_captures p h
    rw [Node.mem_descendants]
    exact ⟨Node.mem_preorder_iff_inside.1 hm, hnested⟩
  · exact get?_captures_self hmatch
  · intro q hq name hname hmatched
    have hparts : p.parts ≠ [] := List.ne_nil_of_mem hq
    by_cases hadmits : p.demands.admits n = true
    · rw [score_of_admits hadmits] at hmatch ⊢
      rw [Score.isMatch_named] at hmatch
      rw [Score.get?_captures_named hmatch]
      split_ifs
      · exact ⟨n, rfl⟩
      · rw [found, if_neg (by simpa using hparts)]
        exact exists_get?_captures_of_matchedBy hq hname hmatched _
    · rw [score_of_not_admits hadmits] at hmatch
      cases hmatch

end Arbor.Pattern
