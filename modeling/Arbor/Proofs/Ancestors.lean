import Arbor.Proofs.Spans

/-!
# Ancestors

The search for the ancestors of a node goes down from a root and leaves out the children whose span
does not reach over that of the node. Several children may reach over it without holding the node;
the search comes back from these with nothing, since a place lies below one child only. Where spans
nest, the child that holds the node is never left out, so the search finds the one way from the node
up to the root.
-/

namespace Arbor.Node

/-- The nodes from the parent of a node up to `n`. -/
inductive Lineage (n : Node) : Node → List Node → Prop
  | parent {c : Node} (hc : c ∈ n.children) : Lineage n c [n]
  | up {c p : Node} {as : List Node} (hc : c ∈ p.children) (h : Lineage n p as) :
    Lineage n c (p :: as)

namespace Lineage

variable {root n m c a : Node} {as bs : List Node}

lemma inside (h : Lineage n c as) : c.Inside n := by
  induction h with
  | parent hc => exact inside_of_mem_children hc
  | up hc _ ih => exact (inside_of_mem_children hc).trans ih

/-- A lineage goes on at its upper end. -/
lemma concat (h : Lineage m c as) (hm : m ∈ n.children) : Lineage n c (as ++ [n]) := by
  induction h with
  | parent hc => exact .up hc (.parent hm)
  | up hc _ ih => exact .up hc ih

/-- A node has one lineage only. -/
lemma unique (h : Lineage n c as) (h' : Lineage n c bs) : as = bs := by
  have hn := n.self_mem_preorder
  induction h generalizing bs with
  | parent hc =>
    cases h' with
    | parent => rfl
    | up hc' h' =>
      obtain rfl := eq_of_mem_children_children hn h'.inside.mem_preorder hc hc'
      exact absurd hn h'.inside.not_mem_preorder
  | up hc h ih =>
    cases h' with
    | parent hc' =>
      obtain rfl := eq_of_mem_children_children hn h.inside.mem_preorder hc' hc
      exact absurd hn h.inside.not_mem_preorder
    | up hc' h' =>
      obtain rfl :=
        eq_of_mem_children_children h.inside.mem_preorder h'.inside.mem_preorder hc hc'
      rw [ih h']

/-- The lineage of a node holds the nodes that it lies below. -/
lemma mem_iff (h : Lineage n c as) : a ∈ as ↔ a ∈ n.preorder ∧ c.Inside a := by
  have hn := n.self_mem_preorder
  induction h with
  | parent hc =>
    rw [List.mem_singleton]
    constructor
    · rintro rfl
      exact ⟨hn, inside_of_mem_children hc⟩
    · rintro ⟨ha, hin⟩
      rcases mem_preorder_iff_inside.1 (hin.parent_mem_preorder hn ha hc) with rfl | hna
      · rfl
      · exact absurd ha hna.not_mem_preorder
  | up hc h ih =>
    refine List.mem_cons.trans ((or_congr_right ih).trans ⟨?_, ?_⟩)
    · rintro (rfl | ⟨ha, hin⟩)
      · exact ⟨h.inside.mem_preorder, inside_of_mem_children hc⟩
      · exact ⟨ha, (inside_of_mem_children hc).trans hin⟩
    · rintro ⟨ha, hin⟩
      have hp := hin.parent_mem_preorder h.inside.mem_preorder ha hc
      exact (mem_preorder_iff_inside.1 hp).imp Eq.symm fun hpa => ⟨ha, hpa⟩

end Lineage

/-! ### The search -/

lemma pathAmong?_eq (target : Node) (k : Nat) (ts : List Tree) :
    pathAmong? target k ts = (numbered k ts).findSome? fun c =>
      if c.span.encloses target.span then pathFrom? target c.number c.tree else none := by
  induction ts generalizing k with
  | nil => rfl
  | cons t ts ih =>
    rw [pathAmong?, numbered, List.findSome?_cons, ih, show (Node.mk k t).span = t.span from rfl]
    by_cases hspan : t.span.encloses target.span = true
    · rw [if_pos hspan, if_pos hspan]
      cases pathFrom? target k t <;> rfl
    · rw [if_neg hspan, if_neg hspan]

/-- One step of the search. -/
lemma pathFrom?_eq (target n : Node) : pathFrom? target n.number n.tree =
    if n.number = target.number then some [n]
    else (n.children.findSome? fun c =>
      if c.span.encloses target.span then pathFrom? target c.number c.tree else none).map
        (n :: ·) := by
  obtain ⟨k, kind, text, span, children, fields⟩ := n
  rw [pathFrom?, pathAmong?_eq]
  rfl

/-- Where the node is not below, the search comes back with nothing. -/
lemma pathFrom?_eq_none {target n : Node}
    (h : target.number < n.number ∨ n.number + n.size ≤ target.number) :
    pathFrom? target n.number n.tree = none := by
  have hpos : 0 < n.size := n.tree.size_pos
  rw [pathFrom?_eq, if_neg (by omega), Option.map_eq_none_iff, List.findSome?_eq_none_iff]
  intro c hc
  have hbounds := bounds_of_mem_preorder (inside_of_mem_children hc).mem_preorder
  rw [ite_eq_right_iff]
  exact fun _ => pathFrom?_eq_none (by omega)
termination_by n.size
decreasing_by exact size_lt_of_mem_children hc

/-- A child that holds the node answers for its parent, if its span reaches over the node. -/
lemma pathFrom?_of_child {target n c : Node} (hc : c ∈ n.children) (ht : target ∈ c.preorder)
    (hspan : c.span.encloses target.span = true) :
    pathFrom? target n.number n.tree = (pathFrom? target c.number c.tree).map (n :: ·) := by
  have hbounds := bounds_of_mem_preorder ht
  have hbelow := bounds_of_mem_numbered hc
  have hpos : 0 < target.size := target.tree.size_pos
  -- The other children hold no place at or below `c`.
  have hothers {d : Node} (hd : d ∈ n.children) (hne : d ≠ c) :
      pathFrom? target d.number d.tree = none := by
    refine pathFrom?_eq_none ?_
    by_contra hin
    exact hne (eq_of_bounds (k := target.number) hd hc (by omega) (by omega))
  rw [pathFrom?_eq, if_neg (by omega)]
  congr 1
  cases hfind : n.children.findSome? fun c =>
      if c.span.encloses target.span then pathFrom? target c.number c.tree else none with
  | none =>
    have hnone := List.findSome?_eq_none_iff.1 hfind c hc
    rw [if_pos hspan] at hnone
    exact hnone.symm
  | some way =>
    obtain ⟨d, hd, hfound⟩ := List.exists_of_findSome?_eq_some hfind
    obtain rfl : d = c := by
      by_contra hne
      rw [hothers hd hne, ite_self] at hfound
      cases hfound
    rw [if_pos hspan] at hfound
    exact hfound.symm

/-- Where spans nest, the search finds the way to every node. -/
lemma pathFrom?_of_inside {target n : Node} (hspans : n.SpansWithin) (ht : target.Inside n) :
    ∃ as, Lineage n target as ∧
      pathFrom? target n.number n.tree = some (as.reverse ++ [target]) := by
  obtain ⟨c, hc, htc⟩ := ht
  have hcspans := hspans.of_mem_preorder (inside_of_mem_children hc).mem_preorder
  rw [pathFrom?_of_child hc htc (hcspans.encloses htc)]
  rcases mem_preorder_iff_inside.1 htc with rfl | htc
  · refine ⟨[n], .parent hc, ?_⟩
    rw [pathFrom?_eq, if_pos rfl]
    rfl
  · obtain ⟨as, has, hpath⟩ := pathFrom?_of_inside hcspans htc
    refine ⟨as ++ [n], has.concat hc, ?_⟩
    rw [hpath, List.reverse_append]
    rfl
termination_by n.size
decreasing_by exact size_lt_of_mem_children hc

/-! ### The search with one path

Instead of handing ways back, the search may keep one path to where it stands: it puts each node on
the path, and takes it off again when the node is not found below. -/

mutual

/-- Searches a tree with the path that leads to it, innermost node first. The answer says whether
the node was found. -/
def searchFrom (target : Node) (k : Nat) : Tree → List Node → Bool × List Node
  | t@⟨_, _, _, children, _⟩, path =>
    if k = target.number then (true, ⟨k, t⟩ :: path)
    else
      match searchAmong target (k + 1) children (⟨k, t⟩ :: path) with
      | (true, path) => (true, path)
      | (false, path) => (false, path.tail)

/-- Searches several trees below the end of the path. -/
def searchAmong (target : Node) (k : Nat) : List Tree → List Node → Bool × List Node
  | [], path => (false, path)
  | t :: ts, path =>
    if t.span.encloses target.span then
      match searchFrom target k t path with
      | (true, path) => (true, path)
      | (false, path) => searchAmong target (k + t.size) ts path
    else searchAmong target (k + t.size) ts path

end

/-- What is on a path after a search. -/
def pathAfter (path : List Node) : Option (List Node) → Bool × List Node
  | some way => (true, way.reverse ++ path)
  | none => (false, path)

mutual

/-- A search that finds nothing leaves the path as it was. -/
lemma searchFrom_eq (target : Node) (k : Nat) (t : Tree) (path : List Node) :
    searchFrom target k t path = pathAfter path (pathFrom? target k t) := by
  match t with
  | ⟨kind, text, span, children, fields⟩ =>
    rw [searchFrom, pathFrom?, searchAmong_eq]
    split_ifs
    · rfl
    · cases pathAmong? target (k + 1) children with
      | none => rfl
      | some way => simp [pathAfter]

lemma searchAmong_eq (target : Node) (k : Nat) (ts : List Tree) (path : List Node) :
    searchAmong target k ts path = pathAfter path (pathAmong? target k ts) := by
  match ts with
  | [] => rfl
  | t :: ts =>
    rw [searchAmong, pathAmong?, searchFrom_eq]
    split_ifs
    · cases pathFrom? target k t with
      | none => exact searchAmong_eq target (k + t.size) ts path
      | some way => rfl
    · exact searchAmong_eq target (k + t.size) ts path

end

/-- What the search with one path gives: the path without the node itself if it was found. -/
def ancestorsBySearch (n target : Node) : List Node :=
  match searchFrom target n.number n.tree [] with
  | (true, path) => path.tail
  | (false, _) => []

lemma ancestorsBySearch_eq (n target : Node) : n.ancestorsBySearch target = n.ancestors target := by
  rw [ancestorsBySearch, ancestors, searchFrom_eq]
  cases pathFrom? target n.number n.tree with
  | none => rfl
  | some way => simp [pathAfter]

/-! ### The ancestors of a node -/

/-- Where spans nest, the ancestors of a node below `n` are the nodes from its parent up to `n`,
each the parent of the one before it: all nodes at or below `n` that the node lies below. The node
`n` itself has none, nor has a node that is not below `n`. A search with one path, put right after
each failure, finds the same. -/
theorem ancestors_nested {root n target : Node} (hn : n ∈ root.preorder)
    (ht : target ∈ root.preorder) (hspans : n.SpansWithin) :
    (target.Inside n →
      (∀ as, n.ancestors target = as ↔ Lineage n target as) ∧
      ∀ a, a ∈ n.ancestors target ↔ a ∈ n.preorder ∧ target.Inside a) ∧
    (target = n ∨ target ∉ n.preorder → n.ancestors target = []) ∧
    n.ancestorsBySearch target = n.ancestors target := by
  refine ⟨fun hin => ?_, fun hout => ?_, ancestorsBySearch_eq n target⟩
  · obtain ⟨as, has, hpath⟩ := pathFrom?_of_inside hspans hin
    have hancestors : n.ancestors target = as := by
      rw [ancestors, hpath, Option.getD_some, List.dropLast_concat, List.reverse_reverse]
    rw [hancestors]
    refine ⟨fun bs => ⟨?_, has.unique⟩, fun a => has.mem_iff⟩
    rintro rfl
    exact has
  · rcases hout with rfl | hout
    · rw [ancestors, pathFrom?_eq, if_pos rfl]
      rfl
    · have hnone : pathFrom? target n.number n.tree = none := by
        refine pathFrom?_eq_none ?_
        by_contra hin
        exact hout (mem_preorder_of_bounds ht hn (by omega))
      rw [ancestors, hnone]
      rfl

/-- Two statements of one span, each around an empty node at its start. -/
def statementsOnSpot : Node :=
  let empty : Tree := ⟨"empty", "", ⟨⟨0, 0⟩, ⟨0, 0⟩⟩, [], ∅⟩
  let statement : Tree := ⟨"statement", "x", ⟨⟨0, 0⟩, ⟨0, 1⟩⟩, [empty], ∅⟩
  .root ⟨"program", "x", ⟨⟨0, 0⟩, ⟨0, 1⟩⟩, [statement, statement], ∅⟩

/-- The second empty node is found below the second statement, although the first statement and the
first empty node reach over it as well. Below the first statement it has no ancestors. -/
theorem ancestors_statementsOnSpot :
    ∃ first second target, statementsOnSpot.children = [first, second] ∧
      second.children = [target] ∧ first.span.encloses target.span = true ∧
      statementsOnSpot.ancestors target = [second, statementsOnSpot] ∧
      first.ancestors target = [] := by
  have hshape : ∃ first second target, statementsOnSpot.children = [first, second] ∧
      second.children = [target] ∧ first.span.encloses target.span = true :=
    ⟨_, _, _, rfl, rfl, by decide +kernel⟩
  obtain ⟨first, second, target, hchildren, htarget, hspan⟩ := hshape
  have hroot := statementsOnSpot.self_mem_preorder
  have hspans : statementsOnSpot.SpansWithin := by decide +kernel
  have hfirst : first.Inside statementsOnSpot := inside_of_mem_children (by simp [hchildren])
  have hsecond : second ∈ statementsOnSpot.children := by simp [hchildren]
  have hparent : target ∈ second.children := by simp [htarget]
  have hin : target.Inside statementsOnSpot :=
    (inside_of_mem_children hparent).trans (inside_of_mem_children hsecond)
  have happart : first.Apart second := by
    have hpairs := statementsOnSpot.pairwise_apart_children
    rw [hchildren] at hpairs
    exact List.pairwise_pair.1 hpairs
  have hout : target ∉ first.preorder := fun ht =>
    happart target ht (inside_of_mem_children hparent).mem_preorder
  refine ⟨first, second, target, hchildren, htarget, hspan, ?_, ?_⟩
  · obtain ⟨hfound, -⟩ := (ancestors_nested hroot hin.mem_preorder hspans).1 hin
    exact (hfound _).2 (.up hparent (.parent hsecond))
  · have hfirstSpans := hspans.of_mem_preorder hfirst.mem_preorder
    exact (ancestors_nested hfirst.mem_preorder hin.mem_preorder hfirstSpans).2.1 (.inr hout)

end Arbor.Node
