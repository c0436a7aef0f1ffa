import Arbor.Proofs.Comparison.Symmetry
import Arbor.Proofs.Comparison.Verdicts

/-!
# Being identical

Two trees are identical if the nodes at each compared path agree. As long as no kinds are ignored
this is an equivalence of trees, for agreeing nodes have as many children, so that a path within the
depth that leads to a node in one tree leads to a node in the other. With itself a tree is always
identical, and without options all its nodes are compared.
-/

namespace Arbor.Comparison

variable {α : Type} {s : Scale α} {o : Options} {path p : List Nat} {depth : Nat}
  {a b c x y z : Tree}

/-! ### Nodes that agree -/

/-- Two nodes agree in all that is compared. -/
structure NodesAgree (o : Options) (x y : Tree) : Prop where
  kind : x.kind = y.kind
  text : o.ignoreText = false → ownText x = ownText y
  count : x.children.length = y.children.length

lemma NodesAgree.refl (o : Options) (x : Tree) : NodesAgree o x x := ⟨rfl, fun _ => rfl, rfl⟩

lemma NodesAgree.trans (hxy : NodesAgree o x y) (hyz : NodesAgree o y z) : NodesAgree o x z :=
  ⟨hxy.kind.trans hyz.kind, fun h => (hxy.text h).trans (hyz.text h), hxy.count.trans hyz.count⟩

/-- The nodes at all compared paths agree. -/
def Agree (o : Options) (depth : Nat) (a b : Tree) : Prop :=
  ∀ p x y, Compared o depth a b p x y → NodesAgree o x y

lemma passesOver_of_ignoredKinds_eq_nil (hkinds : o.ignoredKinds = [])
    (hdepth : ∀ limit, o.maxDepth = some limit → depth ≤ limit) :
    o.passesOver depth a b = false := by
  rw [passesOver_eq_false_iff, hkinds]
  exact ⟨hdepth, List.not_mem_nil, List.not_mem_nil⟩

/-- Where no kinds are ignored, a path within the depth that leads to a node in one of two trees
that agree leads to a node in the other. -/
lemma Agree.exists_compared (hkinds : o.ignoredKinds = []) (h : Agree o depth a b)
    (hdepth : ∀ limit, o.maxDepth = some limit → depth + p.length ≤ limit) (hx : a.at? p = some x) :
    ∃ y, Compared o depth a b p x y := by
  induction p generalizing depth a b with
  | nil =>
    have hroot := passesOver_of_ignoredKinds_eq_nil (a := a) (b := b) hkinds hdepth
    exact ⟨b, compared_nil_iff.2 ⟨hroot, (Option.some.inj hx).symm, rfl⟩⟩
  | cons i p ih =>
    simp only [List.length_cons] at hdepth
    have hroot := passesOver_of_ignoredKinds_eq_nil (a := a) (b := b) hkinds
      fun limit hlimit => Nat.le_of_add_right_le (hdepth limit hlimit)
    obtain ⟨c, hc, hx⟩ := Tree.at?_cons_eq_some_iff.1 hx
    -- the roots agree, so the other one has a child under the same index
    have hcount := (h [] a b (compared_nil_iff.2 ⟨hroot, rfl, rfl⟩)).count
    have hlt := (List.getElem?_eq_some_iff.1 hc).1
    rw [hcount] at hlt
    have hd := List.getElem?_eq_getElem hlt
    have hbelow : Agree o (depth + 1) c b.children[i] := by
      intro q x y hq
      exact h (i :: q) x y (compared_cons_iff.2 ⟨hroot, c, _, hc, hd, hq⟩)
    have hdepth' : ∀ limit, o.maxDepth = some limit → depth + 1 + p.length ≤ limit := by
      intro limit hlimit
      have := hdepth limit hlimit
      omega
    obtain ⟨y, hy⟩ := ih hbelow hdepth' hx
    exact ⟨y, compared_cons_iff.2 ⟨hroot, c, _, hc, hd, hy⟩⟩

lemma Agree.trans (hkinds : o.ignoredKinds = []) (hab : Agree o 0 a b) (hbc : Agree o 0 b c) :
    Agree o 0 a c := by
  intro p x z hp
  obtain ⟨y, hy⟩ := hab.exists_compared hkinds (hp.shallow p (List.prefix_refl p)) hp.left
  have hyz : Compared o 0 b c p y z := by
    refine ⟨hy.right, hp.right, hp.shallow, fun q _ u _ => ?_⟩
    rw [hkinds]
    exact List.not_mem_nil
  exact (hab p x y hy).trans (hbc p y z hyz)

/-! ### A tree and itself -/

lemma Agree.refl (o : Options) (depth : Nat) (t : Tree) : Agree o depth t t := by
  intro p x y hp
  obtain rfl : x = y := Option.some.inj (hp.left.symm.trans hp.right)
  exact .refl o x

end Arbor.Comparison
