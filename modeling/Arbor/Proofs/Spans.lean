import Arbor.Proofs.Subtree

/-!
# Spans that nest

In a tree whose spans nest, two nodes that reach over one position stand one below the other. So the
nodes over a position all lie on one way down from the root. The walk to the node at a position
takes the first child over it and never turns back, and it ends at the last node of that way.
-/

namespace Arbor

/-! ### Spans -/

namespace Span

lemma encloses_refl (s : Span) : s.encloses s = true := by
  have hle (p : Position) : p ≤ p := Position.le_iff.2 (.inr ⟨rfl, Nat.le_refl _⟩)
  simp only [encloses, hle, decide_true, Bool.and_self]

lemma encloses_trans {s t u : Span} (hst : s.encloses t = true) (htu : t.encloses u = true) :
    s.encloses u = true := by
  simp only [encloses, Bool.and_eq_true, decide_eq_true_eq, Position.le_iff] at hst htu ⊢
  omega

lemma contains_of_encloses {s t : Span} (h : s.encloses t = true) {p : Position}
    (hp : t.contains p = true) : s.contains p = true := by
  simp only [encloses, contains, Bool.and_eq_true, decide_eq_true_eq, Position.le_iff,
    Position.lt_iff] at h hp ⊢
  omega

lemma contains_start {s : Span} (h : s.start < s.stop) : s.contains s.start = true := by
  have hle : s.start ≤ s.start := Position.le_iff.2 (.inr ⟨rfl, Nat.le_refl _⟩)
  simp only [contains, hle, h, decide_true, Bool.and_self]

/-- Two spans share no position. -/
def Disjoint (s t : Span) : Prop := ∀ p, s.contains p = true → t.contains p = false

lemma disjoint_of_le {s t : Span} (h : s.stop ≤ t.start) : s.Disjoint t := by
  intro p hp
  by_contra ht
  rw [Bool.not_eq_false] at ht
  simp only [contains, Bool.and_eq_true, decide_eq_true_eq, Position.le_iff,
    Position.lt_iff] at h hp ht
  omega

end Span

namespace Node

/-! ### Trees -/

/-- The span of each node at and below `root` reaches over those of its children. -/
def SpansWithin (root : Node) : Prop :=
  ∀ n ∈ root.preorder, ∀ c ∈ n.children, n.span.encloses c.span = true

instance (root : Node) : Decidable root.SpansWithin :=
  inferInstanceAs (Decidable (∀ n ∈ root.preorder, ∀ c ∈ n.children, n.span.encloses c.span = true))

lemma SpansWithin.of_mem_preorder {root n : Node} (h : root.SpansWithin) (hn : n ∈ root.preorder) :
    n.SpansWithin :=
  fun m hm => h m (mem_preorder_trans hm hn)

/-- A node reaches over every node below it. -/
lemma SpansWithin.encloses {root n : Node} (h : root.SpansWithin) (hn : n ∈ root.preorder) :
    root.span.encloses n.span = true := by
  rcases mem_preorder.1 hn with rfl | ⟨c, hc, hnc⟩
  · exact n.span.encloses_refl
  · have hcroot := (inside_of_mem_children hc).mem_preorder
    exact Span.encloses_trans (h root root.self_mem_preorder c hc)
      ((h.of_mem_preorder hcroot).encloses hnc)
termination_by root.size
decreasing_by exact size_lt_of_mem_children hc

/-- The span of a node reaches over those of its children, and these share no position. -/
structure SpansNest (root : Node) : Prop where
  within : ∀ n ∈ root.preorder, ∀ c ∈ n.children, n.span.encloses c.span = true
  disjoint : ∀ n ∈ root.preorder, n.children.Pairwise fun c d => c.span.Disjoint d.span

lemma SpansNest.of_mem_preorder {root n : Node} (h : root.SpansNest) (hn : n ∈ root.preorder) :
    n.SpansNest :=
  ⟨SpansWithin.of_mem_preorder h.within hn, fun m hm => h.disjoint m (mem_preorder_trans hm hn)⟩

/-- A node reaches over every position that a node below it reaches over. -/
lemma SpansNest.contains {root n : Node} (h : root.SpansNest) (hn : n ∈ root.preorder)
    {p : Position} (hp : n.span.contains p = true) : root.span.contains p = true :=
  Span.contains_of_encloses (SpansWithin.encloses h.within hn) hp

/-- Two nodes that reach over one position stand one below the other. -/
lemma SpansNest.mem_preorder_or {root m n : Node} (h : root.SpansNest) (hm : m ∈ root.preorder)
    (hn : n ∈ root.preorder) {p : Position} (hmp : m.span.contains p = true)
    (hnp : n.span.contains p = true) :
    m ∈ n.preorder ∨ n ∈ m.preorder := by
  rcases mem_preorder.1 hm with rfl | ⟨c, hc, hmc⟩
  · exact .inr hn
  · rcases mem_preorder.1 hn with rfl | ⟨d, hd, hnd⟩
    · exact .inl hm
    · have hcnest := h.of_mem_preorder (inside_of_mem_children hc).mem_preorder
      have hdnest := h.of_mem_preorder (inside_of_mem_children hd).mem_preorder
      by_cases hcd : c = d
      · subst hcd
        exact hcnest.mem_preorder_or hmc hnd hmp hnp
      · have hsymm : Std.Symm fun c d : Node => c.span.Disjoint d.span := by
          refine ⟨fun c d hcd q hq => ?_⟩
          by_contra hc
          rw [Bool.not_eq_false] at hc
          rw [hcd q hc] at hq
          cases hq
        have hapart := (h.disjoint root root.self_mem_preorder).forall hc hd hcd p
          (hcnest.contains hmc hmp)
        rw [hdnest.contains hnd hnp] at hapart
        cases hapart
termination_by root.size
decreasing_by exact (inside_of_mem_children hc).size_lt

/-! ### The node at a position -/

section

variable (p : Position)

lemma deepestAmong?_eq (k : Nat) (ts : List Tree) :
    deepestAmong? p k ts =
      ((numbered k ts).find? (·.span.contains p)).map fun c => deepestFrom p c.number c.tree := by
  induction ts generalizing k with
  | nil => rfl
  | cons t ts ih =>
    rw [deepestAmong?, numbered, List.find?_cons]
    cases h : t.span.contains p with
    | true => simp [span, h]
    | false => simpa [span, h] using ih _

/-- One step of the walk: it goes on with the first child over the position, and without such a
child it ends. -/
lemma deepestFrom_cases (n : Node) :
    (∀ c ∈ n.children, c.span.contains p = false) ∧ deepestFrom p n.number n.tree = n ∨
    ∃ c ∈ n.children, c.span.contains p = true ∧
      deepestFrom p n.number n.tree = deepestFrom p c.number c.tree := by
  have hstep : deepestFrom p n.number n.tree =
      ((n.children.find? (·.span.contains p)).map fun c =>
        deepestFrom p c.number c.tree).getD n := by
    obtain ⟨k, kind, text, span, children, fields⟩ := n
    rw [deepestFrom, deepestAmong?_eq]
    rfl
  rw [hstep]
  cases hfind : n.children.find? (·.span.contains p) with
  | none =>
    refine .inl ⟨fun c hc => ?_, rfl⟩
    exact Bool.eq_false_iff.2 (List.find?_eq_none.1 hfind c hc)
  | some c =>
    have hcp : c.span.contains p = true :=
      List.find?_some (p := fun c : Node => c.span.contains p) hfind
    exact .inr ⟨c, List.mem_of_find?_eq_some hfind, hcp, rfl⟩

/-- The walk ends at a node below which no child lies over the position. -/
lemma deepestFrom_ends (n : Node) (hp : n.span.contains p = true) :
    let m := deepestFrom p n.number n.tree
    m ∈ n.preorder ∧ m.span.contains p = true ∧ ∀ c ∈ m.children, c.span.contains p = false := by
  rcases deepestFrom_cases p n with ⟨hnone, heq⟩ | ⟨c, hc, hcp, heq⟩
  · rw [heq]
    exact ⟨n.self_mem_preorder, hp, hnone⟩
  · rw [heq]
    obtain ⟨hmem, hmp, hnone⟩ := deepestFrom_ends c hcp
    exact ⟨mem_preorder_trans hmem (inside_of_mem_children hc).mem_preorder, hmp, hnone⟩
termination_by n.size
decreasing_by exact size_lt_of_mem_children hc

end

/-- The node where the walk ends lies at or below every node over the position. -/
lemma SpansNest.mem_preorder_of_ends {root m x : Node} (h : root.SpansNest)
    (hm : m ∈ root.preorder) {p : Position} (hmp : m.span.contains p = true)
    (hnone : ∀ c ∈ m.children, c.span.contains p = false) (hx : x ∈ root.preorder)
    (hxp : x.span.contains p = true) : m ∈ x.preorder := by
  rcases h.mem_preorder_or hx hm hxp hmp with hxm | hmx
  · rcases mem_preorder.1 hxm with rfl | ⟨c, hc, hxc⟩
    · exact x.self_mem_preorder
    · have hcroot := mem_preorder_trans (inside_of_mem_children hc).mem_preorder hm
      have hcp := (h.of_mem_preorder hcroot).contains hxc hxp
      rw [hnone c hc] at hcp
      cases hcp
  · exact hmx

/-- In a tree whose spans nest, a node is found at a position iff the root reaches over it, and the
node that is found is the one over the position that lies at or below all others: each node over
the position is that node or one of its ancestors. -/
theorem atPosition_deepest {root : Node} (h : root.SpansNest) (p : Position) :
    (root.atPosition? p = none ↔ root.span.contains p = false) ∧
    ∀ m, root.atPosition? p = some m ↔
      m ∈ root.preorder ∧ m.span.contains p = true ∧
        ∀ x ∈ root.preorder, x.span.contains p = true → x = m ∨ m.Inside x := by
  unfold atPosition?
  cases hp : root.span.contains p with
  | false =>
    refine ⟨by simp, fun m => ⟨nofun, ?_⟩⟩
    rintro ⟨hm, hmp, -⟩
    rw [h.contains hm hmp] at hp
    cases hp
  | true =>
    obtain ⟨hmem, hcontains, hnone⟩ := deepestFrom_ends p root hp
    have hdeepest x (hx : x ∈ root.preorder) (hxp : x.span.contains p = true) :=
      mem_preorder_iff_inside.1 (h.mem_preorder_of_ends hmem hcontains hnone hx hxp)
    refine ⟨by simp, fun m => ?_⟩
    rw [if_pos rfl, Option.some.injEq]
    constructor
    · rintro rfl
      exact ⟨hmem, hcontains, fun x hx hxp => (hdeepest x hx hxp).imp_left Eq.symm⟩
    · rintro ⟨hm, hmp, hall⟩
      -- Two nodes that each lie at or below the other are the same.
      rcases hall _ hmem hcontains with heq | hbelow
      · exact heq
      · rcases hdeepest m hm hmp with heq | habove
        · exact heq
        · exact absurd habove.mem_preorder hbelow.not_mem_preorder

/-- A statement that fills the whole program: a call, an empty node behind it, and the closing
sign. -/
def callStatement : Node :=
  let call : Tree := ⟨"call_expression", "f()", ⟨⟨0, 0⟩, ⟨0, 3⟩⟩,
    [⟨"identifier", "f", ⟨⟨0, 0⟩, ⟨0, 1⟩⟩, [], ∅⟩], ∅⟩
  let empty : Tree := ⟨"missing", "", ⟨⟨0, 3⟩, ⟨0, 3⟩⟩, [], ∅⟩
  let sign : Tree := ⟨";", ";", ⟨⟨0, 3⟩, ⟨0, 4⟩⟩, [], ∅⟩
  .root ⟨"program", "f();", ⟨⟨0, 0⟩, ⟨0, 4⟩⟩,
    [⟨"expression_statement", "f();", ⟨⟨0, 0⟩, ⟨0, 4⟩⟩, [call, empty, sign], ∅⟩], ∅⟩

/-- At the closing sign, the node that is found is the sign and not the empty node in front of it;
it lies below the two nodes over the position. Behind the statement nothing is found. -/
theorem atPosition_callStatement :
    (∃ m, callStatement.atPosition? ⟨0, 3⟩ = some m ∧ m.number = 5 ∧
      ∀ x ∈ callStatement.preorder, x.span.contains ⟨0, 3⟩ = true → x = m ∨ m.Inside x) ∧
    callStatement.atPosition? ⟨0, 4⟩ = none := by
  have hspans : callStatement.SpansNest := by
    refine ⟨by decide +kernel, fun n hn => ?_⟩
    have hordered : ∀ n ∈ callStatement.preorder,
        n.children.Pairwise fun c d => c.span.stop ≤ d.span.start := by
      decide +kernel
    exact (hordered n hn).imp Span.disjoint_of_le
  obtain ⟨-, hfound⟩ := atPosition_deepest hspans ⟨0, 3⟩
  obtain ⟨hnone, -⟩ := atPosition_deepest hspans ⟨0, 4⟩
  obtain ⟨-, -, hdeepest⟩ := (hfound _).1 rfl
  exact ⟨⟨_, rfl, by decide +kernel, hdeepest⟩, hnone.2 (by decide +kernel)⟩

end Node

end Arbor
