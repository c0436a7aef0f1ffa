import Arbor.Proofs.Comparison.Differences

/-!
# Differences in what is left out

A comparison may leave out what lies too deep and what is of an ignored kind. Two nodes that are
left out are not looked at, so no difference between them is listed. A child without a counterpart
is listed by the nodes above it, which do not ask whether it would be left out. So the differences
at places that are left out are those of such children: the ones just below the deepest level, and
the ones of an ignored kind.
-/

namespace Arbor

lemma Tree.at?_append (t : Tree) (p q : List Nat) : t.at? (p ++ q) = (t.at? p).bind (·.at? q) := by
  induction p generalizing t with
  | nil => rfl
  | cons i p ih =>
    rw [List.cons_append, at?_cons, at?_cons, Option.bind_assoc]
    exact Option.bind_congr fun c _ => ih c

lemma Tree.at?_concat {t u : Tree} {p : List Nat} (h : t.at? p = some u) (i : Nat) :
    t.at? (p ++ [i]) = u.children[i]? := by
  rw [at?_append, h, Option.bind_some, at?_cons]
  exact Option.bind_fun_some _

namespace Comparison

/-- The place of a difference is left out: it is too deep, or one of the trees has a node of an
ignored kind there. -/
def Difference.LeftOut (o : Options) (a b : Tree) (d : Difference) : Prop :=
  (∃ limit, o.maxDepth = some limit ∧ limit < d.path.length) ∨
  ∃ u, (a.at? d.path = some u ∨ b.at? d.path = some u) ∧ u.kind ∈ o.ignoredKinds

/-- The difference is that of the child `c` at the index `i`, which only one of two nodes has. -/
def IsLone (x y : Tree) (p : List Nat) (i : Nat) (c : Tree) (d : Difference) : Prop :=
  (x.children[i]? = some c ∧ y.children[i]? = none ∧ d = missingAt p i c) ∨
  (x.children[i]? = none ∧ y.children[i]? = some c ∧ d = extraAt p i c)

variable {o : Options} {a b x y c : Tree} {p : List Nat} {i : Nat} {d : Difference}

/-- A place that is compared is not left out. -/
lemma Compared.not_leftOut (h : Compared o 0 a b p x y) (hd : d.path = p) : ¬ d.LeftOut o a b := by
  rintro (⟨limit, hlimit, hdeep⟩ | ⟨u, hu, hkind⟩)
  · have hshallow := h.shallow p (List.prefix_refl p) limit hlimit
    rw [hd] at hdeep
    omega
  · rw [hd] at hu
    exact h.unignored p (List.prefix_refl p) u hu hkind

lemma IsLone.path (h : IsLone x y p i c d) : d.path = p ++ [i] := by
  rcases h with ⟨-, -, rfl⟩ | ⟨-, -, rfl⟩ <;> rfl

lemma IsLone.nodesDiffer (h : IsLone x y p i c d) : NodesDiffer o x y p d := by
  rcases h with ⟨hx, hy, rfl⟩ | ⟨hx, hy, rfl⟩
  · exact .missing hx hy
  · exact .extra hx hy

/-- At the place of a child without a counterpart, there is this child and no other node. -/
lemma IsLone.at?_iff (h : IsLone x y p i c d) (hcompared : Compared o 0 a b p x y) (u : Tree) :
    a.at? d.path = some u ∨ b.at? d.path = some u ↔ c = u := by
  rw [h.path, Tree.at?_concat hcompared.left, Tree.at?_concat hcompared.right]
  rcases h with ⟨hx, hy, -⟩ | ⟨hx, hy, -⟩ <;> simp [hx, hy]

/-- The child of two compared nodes is left out if they are at the deepest level or if its own kind
is ignored. -/
lemma IsLone.leftOut_iff (h : IsLone x y p i c d) (hcompared : Compared o 0 a b p x y) :
    d.LeftOut o a b ↔ o.maxDepth = some p.length ∨ c.kind ∈ o.ignoredKinds := by
  refine or_congr ?_ ?_
  · have hlength : d.path.length = p.length + 1 := by
      rw [h.path, List.length_append, List.length_singleton]
    have hshallow := hcompared.shallow p (List.prefix_refl p)
    rw [hlength]
    constructor
    · rintro ⟨limit, hlimit, hdeep⟩
      have hle := hshallow limit hlimit
      rw [hlimit, Option.some.injEq]
      omega
    · intro hlimit
      exact ⟨p.length, hlimit, Nat.lt_succ_self _⟩
  · simp only [h.at?_iff hcompared, exists_eq_left']

/-- The differences listed at places that are left out are those of children without a counterpart,
under two compared nodes, that lie just below the deepest level or are of an ignored kind. No
difference between two nodes of both trees is among them, and none lies further down. -/
theorem differences_leftOut_iff (o : Options) (a b : Tree) (d : Difference) :
    d ∈ (compare o a b).differences ∧ d.LeftOut o a b ↔
      ∃ p x y, Compared o 0 a b p x y ∧ ∃ i c, IsLone x y p i c d ∧
        (o.maxDepth = some p.length ∨ c.kind ∈ o.ignoredKinds) := by
  rw [compare, mem_differences_iff]
  constructor
  · rintro ⟨⟨p, x, y, hcompared, hd⟩, hout⟩
    refine ⟨p, x, y, hcompared, ?_⟩
    cases hd with
    | type | text | count => exact absurd hout (hcompared.not_leftOut rfl)
    | @missing i c hx hy =>
      have hlone : IsLone x y p i c (missingAt p i c) := .inl ⟨hx, hy, rfl⟩
      exact ⟨i, c, hlone, (hlone.leftOut_iff hcompared).1 hout⟩
    | @extra i c hx hy =>
      have hlone : IsLone x y p i c (extraAt p i c) := .inr ⟨hx, hy, rfl⟩
      exact ⟨i, c, hlone, (hlone.leftOut_iff hcompared).1 hout⟩
  · rintro ⟨p, x, y, hcompared, i, c, hlone, hout⟩
    exact ⟨⟨p, x, y, hcompared, hlone.nodesDiffer⟩, (hlone.leftOut_iff hcompared).2 hout⟩

/-- Arguments in brackets, with a comment behind them if wanted. -/
def argumentsWith (comment : Bool) : Tree :=
  ⟨"arguments", if comment then "(x/*c*/)" else "(x)", ⟨⟨0, 1⟩, ⟨0, if comment then 9 else 4⟩⟩,
    [⟨"identifier", "x", ⟨⟨0, 2⟩, ⟨0, 3⟩⟩, [], ∅⟩] ++
      if comment then [⟨"comment", "/*c*/", ⟨⟨0, 3⟩, ⟨0, 8⟩⟩, [], ∅⟩] else [], ∅⟩

/-- A comment that only one of two trees has is listed, although comments are ignored, and also
although it lies below the deepest level. -/
theorem differences_argumentsWith_comment :
    let d : Difference := ⟨.extra "comment", [1], none, some ⟨⟨0, 3⟩, ⟨0, 8⟩⟩⟩
    let a := argumentsWith false
    let b := argumentsWith true
    (∃ o : Options, o.maxDepth = none ∧ o.ignoredKinds = ["comment"] ∧
      d ∈ (compare o a b).differences ∧ d.LeftOut o a b) ∧
    ∃ o : Options, o.maxDepth = some 0 ∧ o.ignoredKinds = [] ∧
      d ∈ (compare o a b).differences ∧ d.LeftOut o a b := by
  intro d a b
  refine ⟨⟨{ ignoredKinds := ["comment"] }, rfl, rfl, by decide +kernel, .inr ?_⟩,
    ⟨{ maxDepth := some 0 }, rfl, rfl, by decide +kernel, .inl ⟨0, rfl, Nat.one_pos⟩⟩⟩
  exact ⟨⟨"comment", "/*c*/", ⟨⟨0, 3⟩, ⟨0, 8⟩⟩, [], ∅⟩, .inr rfl, List.mem_singleton.2 rfl⟩

end Comparison

end Arbor
