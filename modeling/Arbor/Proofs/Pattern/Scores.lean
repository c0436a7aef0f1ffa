import Arbor.Proofs.Pattern.Search
import Arbor.Proofs.Walks

/-!
# Scores and the parts of a pattern

The score of a node counts the parts of the pattern that some candidate below the node matches, in
whole or in part, and gathers what the best candidate for each part has captured. Here the loop over
the parts is taken apart: what one part adds to the count and to the captures, and what all of them
add together.
-/

namespace Arbor

/-! ### Tables -/

namespace Table

variable {α : Type} (t s : Table α)

lemma get?_foldl_insert {es : List (String × α)} (hes : es.Pairwise fun a b => a.1 < b.1)
    (name : String) : (es.foldl (fun t e => t.insert e.1 e.2) t).get? name =
      (es.lookup name).or (t.get? name) := by
  induction es generalizing t with
  | nil => rfl
  | cons e es ih =>
    obtain ⟨key, value⟩ := e
    obtain ⟨hfirst, hrest⟩ := List.pairwise_cons.1 hes
    rw [List.foldl_cons, ih _ hrest, get?_insert, List.lookup_cons]
    by_cases hname : name = key
    · subst hname
      -- the name stands before all others, so no later entry replaces this one
      have hnone : es.lookup name = none := by
        rw [List.lookup_eq_none_iff]
        intro e he
        simpa using fun heq => String.lt_irrefl _ (heq ▸ hfirst e he)
      simp [hnone]
    · have hne : (name == key) = false := by simpa using hname
      simp [hname, hne]

lemma get?_union (name : String) : (t.union s).get? name = (s.get? name).or (t.get? name) :=
  get?_foldl_insert t s.sorted name

lemma eq_empty_of_get? (h : ∀ name, t.get? name = none) : t = ∅ := by
  have hentries : t.entries = [] := by
    rw [List.eq_nil_iff_forall_not_mem]
    rintro ⟨name, value⟩ he
    rw [mem_entries_iff, h name] at he
    cases he
  exact Table.ext hentries

end Table

namespace Pattern

/-- What passes from the parts of a pattern to the pattern holds of all patterns. -/
lemma parts_induction {P : Pattern → Prop} (step : ∀ p, (∀ q ∈ p.parts, P q) → P p)
    (p : Pattern) : P p := by
  match p with
  | ⟨demands, parts, deep, capture⟩ =>
    have hlt (q : Pattern) (hq : q ∈ parts) :
        sizeOf q < sizeOf (⟨demands, parts, deep, capture⟩ : Pattern) := by
      have hmem := List.sizeOf_lt_of_mem hq
      rw [Pattern.mk.sizeOf_spec]
      omega
    exact step _ fun q hq => parts_induction step q
termination_by sizeOf p
decreasing_by exact hlt q hq

/-- The nodes among which the parts of a pattern are looked for. -/
def candidates (p : Pattern) (n : Node) : List Node :=
  if p.deep then n.descendants else n.children

lemma inside_of_mem_candidates {p : Pattern} {n m : Node} (h : m ∈ p.candidates n) :
    m.Inside n := by
  rw [candidates] at h
  split_ifs at h
  · exact Node.mem_descendants.1 h
  · exact Node.inside_of_mem_children h

/-! ### The best of several scores -/

namespace Score

variable {s b : Score} {scores : List Score}

/-- The choice between the best score so far and another. -/
def better? (best : Option Score) (s : Score) : Option Score :=
  if best.elim 0 satisfied < s.satisfied then some s else best

lemma best?_eq_foldl (scores : List Score) : best? scores = scores.foldl better? none := rfl

/-- The best of some scores is one of them, and it matches. -/
lemma of_best?_eq_some (h : best? scores = some b) : b ∈ scores ∧ b.isMatch = true := by
  have hrun (scores : List Score) (best : Option Score) (h : scores.foldl better? best = some b) :
      best = some b ∨ (b ∈ scores ∧ b.isMatch = true) := by
    induction scores generalizing best with
    | nil => exact .inl h
    | cons s scores ih =>
      rcases ih _ h with hbest | ⟨hmem, hmatch⟩
      · rw [better?] at hbest
        split_ifs at hbest with hlt
        · obtain rfl := Option.some.inj hbest
          exact .inr ⟨List.mem_cons_self, decide_eq_true (Nat.zero_lt_of_lt hlt)⟩
        · exact .inl hbest
      · exact .inr ⟨List.mem_cons_of_mem s hmem, hmatch⟩
  rcases hrun scores none h with hnone | hfound
  · cases hnone
  · exact hfound

/-- There is a best one among scores of which one matches. -/
lemma best?_isSome_iff : (best? scores).isSome = true ↔ ∃ s ∈ scores, s.isMatch = true := by
  constructor
  · intro h
    obtain ⟨b, hb⟩ := Option.isSome_iff_exists.1 h
    exact ⟨b, of_best?_eq_some hb⟩
  · rintro ⟨s, hs, hmatch⟩
    have hkept (scores : List Score) (best : Option Score) (h : best.isSome = true) :
        (scores.foldl better? best).isSome = true := by
      induction scores generalizing best with
      | nil => exact h
      | cons s scores ih =>
        apply ih
        rw [better?]
        split_ifs
        · rfl
        · exact h
    obtain ⟨before, after, rfl⟩ := List.append_of_mem hs
    rw [best?_eq_foldl, List.foldl_append, List.foldl_cons]
    apply hkept
    cases hbest : before.foldl better? none with
    | none =>
      have hlt : 0 < s.satisfied := of_decide_eq_true hmatch
      simp [better?, hlt]
    | some b =>
      rw [better?]
      split_ifs <;> rfl

/-- A further part counts if some candidate matches it. -/
lemma satisfied_addPart (s : Score) (scores : List Score) :
    (s.addPart scores).satisfied =
      s.satisfied + if ∃ c ∈ scores, c.isMatch = true then 1 else 0 := by
  simp only [← best?_isSome_iff]
  rw [addPart]
  cases best? scores <;> rfl

/-- A name stands for what the best candidate for the further part has captured under it, or else
for what it stood for. -/
lemma get?_captures_addPart (s : Score) (scores : List Score) (name : String) :
    (s.addPart scores).captures.get? name =
      ((best? scores).bind (·.captures.get? name)).or (s.captures.get? name) := by
  rw [addPart]
  cases best? scores with
  | none => rfl
  | some b => exact Table.get?_union ..

lemma satisfied_named (s : Score) (capture : Option String) (n : Node) :
    (s.named capture n).satisfied = s.satisfied := by
  unfold named
  split
  · split_ifs <;> rfl
  · rfl

lemma isMatch_named (s : Score) (capture : Option String) (n : Node) :
    (s.named capture n).isMatch = s.isMatch := by
  rw [isMatch, satisfied_named, isMatch]

lemma captures_named_of_not_isMatch (h : s.isMatch = false) (capture : Option String) (n : Node) :
    (s.named capture n).captures = s.captures := by
  cases capture with
  | none => rfl
  | some own =>
    rw [named, h]
    rfl

/-- The name of a match stands for the node, and other names for what they stood for. -/
lemma get?_captures_named (h : s.isMatch = true) (capture : Option String) (n : Node)
    (name : String) : (s.named capture n).captures.get? name =
      if capture = some name then some n else s.captures.get? name := by
  cases capture with
  | none => rfl
  | some own =>
    rw [named, h, if_pos rfl, Table.get?_insert]
    simp [eq_comm]

end Score

/-! ### The score of a node -/

/-- What the parts of a pattern give a node that meets the demands. -/
def found (p : Pattern) (n : Node) : Score :=
  if p.parts.isEmpty then .full else scoreParts (p.candidates n) p.parts ⟨0, 0, .empty⟩

variable {p : Pattern} {n : Node}

lemma score_of_admits (h : p.demands.admits n = true) :
    score n p = (p.found n).named p.capture n := by
  obtain ⟨demands, parts, deep, capture⟩ := p
  rw [score, if_pos h]
  rfl

lemma score_of_not_admits (h : ¬ p.demands.admits n = true) : score n p = .failed := by
  obtain ⟨demands, parts, deep, capture⟩ := p
  rw [score, if_neg h]

/-- Some candidate matches the pattern. -/
def MatchedBy (q : Pattern) (cs : List Node) : Prop := ∃ c ∈ cs, (score c q).isMatch = true

open Classical in
/-- The parts that count are those which some candidate matches. -/
lemma satisfied_scoreParts (cs : List Node) (ps : List Pattern) (s : Score) :
    (scoreParts cs ps s).satisfied = s.satisfied + ps.countP (MatchedBy · cs) := by
  induction ps generalizing s with
  | nil => rfl
  | cons q ps ih =>
    have hmatched : (∃ r ∈ cs.map (score · q), r.isMatch = true) ↔ MatchedBy q cs := by
      simp [MatchedBy]
    rw [scoreParts, ih, Score.satisfied_addPart, List.countP_cons, Nat.add_assoc,
      Nat.add_comm (List.countP _ ps)]
    simp only [hmatched, decide_eq_true_eq]

open Classical in
lemma satisfied_found (h : p.parts ≠ []) :
    (p.found n).satisfied = p.parts.countP (MatchedBy · (p.candidates n)) := by
  have hempty : p.parts.isEmpty = false := by simpa using h
  rw [found, hempty, if_neg Bool.false_ne_true, satisfied_scoreParts, Nat.zero_add]

lemma total_found (h : p.parts ≠ []) : (p.found n).total = p.parts.length := by
  have hempty : p.parts.isEmpty = false := by simpa using h
  rw [found, hempty, if_neg Bool.false_ne_true, total_scoreParts, Nat.zero_add]

lemma found_of_parts_eq_nil (h : p.parts = []) : p.found n = .full := by
  rw [found, h, List.isEmpty_nil, if_pos rfl]

end Pattern

end Arbor
