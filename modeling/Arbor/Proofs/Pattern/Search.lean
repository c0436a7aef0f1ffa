import Arbor.Pattern.Search
import Arbor.Proofs.Subtree
import Mathlib.Algebra.Order.Field.Basic
import Mathlib.Algebra.Order.Field.Rat
import Mathlib.Data.List.Basic

/-!
# What a search finds

A search walks over a tree in pre-order, leaves out what stands below a hit if it is told to, and
ends as soon as it has as many hits as it may report. What it finds can be said without the walk:
the hits of the pre-order, without those that stand below another hit if these are not asked for,
and of them the first ones.
-/

namespace Arbor.Pattern

/-! ### Confidence -/

namespace Score

/-- The share of the parts that are satisfied, as an exact number. -/
def share (s : Score) : ℚ := s.satisfied / s.total

lemma total_addPart (s : Score) (candidates : List Score) :
    (s.addPart candidates).total = s.total + 1 := by
  unfold addPart
  split <;> rfl

lemma total_named (s : Score) (capture : Option String) (n : Node) :
    (s.named capture n).total = s.total := by
  unfold named
  split
  · split_ifs <;> rfl
  · rfl

lemma isMatch_iff {s : Score} (h : 0 < s.total) : s.isMatch = true ↔ 0 < s.share := by
  have htotal : (0 : ℚ) < s.total := Nat.cast_pos.2 h
  rw [isMatch, decide_eq_true_iff, share, div_pos_iff_of_pos_right htotal, Nat.cast_pos]

end Score

lemma total_scoreParts (candidates : List Node) (ps : List Pattern) (s : Score) :
    (scoreParts candidates ps s).total = s.total + ps.length := by
  induction ps generalizing s with
  | nil => rfl
  | cons p ps ih =>
    rw [scoreParts, ih, Score.total_addPart, List.length_cons]
    omega

lemma total_score_pos (n : Node) (p : Pattern) : 0 < (score n p).total := by
  obtain ⟨demands, parts, deep, capture⟩ := p
  rw [score]
  by_cases hadmits : demands.admits n
  · rw [if_pos hadmits]
    dsimp only
    rw [Score.total_named]
    by_cases hparts : parts.isEmpty
    · rw [if_pos hparts]
      exact Nat.one_pos
    · rw [if_neg hparts, total_scoreParts]
      have hlength : 0 < parts.length := List.length_pos_iff.2 (by simpa using hparts)
      omega
  · rw [if_neg hadmits]
    exact Nat.one_pos

/-! ### Hits -/

/-- The node is within the bounds of a search, matches, and matches well enough. -/
structure IsHit (p : Pattern) (o : Options) (n : Node) : Prop where
  start : ∀ q ∈ o.start, q ≤ n.span.start
  stop : ∀ q ∈ o.stop, n.span.stop ≤ q
  positive : 0 < (score n p).share
  above : ¬ (score n p).confidence ≤ o.minConfidence

/-- What is reported on a hit. -/
def hitOf (p : Pattern) (n : Node) : Hit := ⟨n, score n p, n.span⟩

lemma Options.admits_iff {o : Options} {s : Span} :
    o.admits s = true ↔ (∀ q ∈ o.start, q ≤ s.start) ∧ ∀ q ∈ o.stop, s.stop ≤ q := by
  simp [Options.admits, Option.all_eq_true]

lemma hit?_eq_some {p : Pattern} {o : Options} {n : Node} (h : IsHit p o n) :
    p.hit? o n = some (p.hitOf n) := by
  have hadmits : o.admits n.span = true := Options.admits_iff.2 ⟨h.start, h.stop⟩
  have hmatch := (Score.isMatch_iff (total_score_pos n p)).2 h.positive
  simp [hit?, hadmits, hmatch, h.above, hitOf]

lemma hit?_eq_none {p : Pattern} {o : Options} {n : Node} (h : ¬ IsHit p o n) :
    p.hit? o n = none := by
  unfold hit?
  split_ifs with hadmits
  · dsimp only
    split_ifs with hlow
    · rfl
    · obtain ⟨hstart, hstop⟩ := Options.admits_iff.1 hadmits
      simp only [Bool.or_eq_true, decide_eq_true_eq, Bool.not_eq_true', not_or,
        Bool.not_eq_false] at hlow
      have hpositive := (Score.isMatch_iff (total_score_pos n p)).1 hlow.2
      exact absurd ⟨hstart, hstop, hpositive, hlow.1⟩ h
  · rfl

/-! ### The walk -/

/-- What a search does at a node. -/
def visitor (p : Pattern) (o : Options) (m : Node) (_ : Nat) (found : Array Hit) :
    Visit × Array Hit :=
  match p.hit? o m with
  | none => (.descend, found)
  | some h =>
    (if o.isReached (found.push h).size then .stop
      else if o.includeNested then .descend else .skip, found.push h)

lemma find_eq_traverse (p : Pattern) (o : Options) (n : Node) :
    p.find o n = if o.isReached 0 then [] else (n.traverse (p.visitor o) #[]).toList := rfl

mutual

/-- The hits of a tree numbered from `k` on, as a search without a limit comes to them. -/
def hitsFrom (p : Pattern) (o : Options) (k : Nat) : Tree → List Hit
  | t@⟨_, _, _, children, _⟩ =>
    match p.hit? o ⟨k, t⟩ with
    | none => hitsAll p o (k + 1) children
    | some h => h :: if o.includeNested then hitsAll p o (k + 1) children else []

/-- The hits of several trees numbered from `k` on. -/
def hitsAll (p : Pattern) (o : Options) (k : Nat) : List Tree → List Hit
  | [] => []
  | t :: ts => hitsFrom p o k t ++ hitsAll p o (k + t.size) ts

end

/-- As many of the items as a search may report. -/
def Options.cut {α : Type} (o : Options) (xs : List α) : List α :=
  match o.limit with
  | some limit => xs.take limit
  | none => xs

namespace Options

variable {α : Type} {o : Options}

@[simp] lemma cut_nil : o.cut ([] : List α) = [] := by
  unfold cut
  split <;> simp

lemma cut_eq_self {xs : List α} (h : o.isReached xs.length = false) : o.cut xs = xs := by
  unfold cut
  split
  next limit hlimit =>
    simp only [isReached, hlimit, Option.any_some, decide_eq_false_iff_not] at h
    exact List.take_of_length_le (by omega)
  next => rfl

lemma cut_append_of_isReached {xs : List α} (h : o.isReached xs.length = true) (ys : List α) :
    o.cut (xs ++ ys) = o.cut xs := by
  unfold cut
  split
  next limit hlimit =>
    simp only [isReached, hlimit, Option.any_some, decide_eq_true_eq] at h
    exact List.take_append_of_le_length h
  next hlimit => simp [isReached, hlimit] at h

lemma isReached_mono {m n : Nat} (h : o.isReached m = true) (hle : m ≤ n) :
    o.isReached n = true := by
  unfold isReached at h ⊢
  cases hlimit : o.limit with
  | none =>
    rw [hlimit] at h
    exact h
  | some limit =>
    rw [hlimit] at h
    simp only [Option.any_some, decide_eq_true_eq] at h ⊢
    exact Nat.le_trans h hle

end Options

/-- A walk that has found some hits comes to further hits `xs`: it finds as many of them as it may
report, and goes on if it may report more. -/
structure Collects (o : Options) (before : Array Hit) (xs : List Hit) (r : Bool × Array Hit) :
    Prop where
  found : r.2.toList = o.cut (before.toList ++ xs)
  goesOn : r.1 = !o.isReached (before.toList ++ xs).length

namespace Collects

variable {o : Options} {before : Array Hit} {xs ys : List Hit} {r r' : Bool × Array Hit}

lemma nil (h : o.isReached before.size = false) : Collects o before [] (true, before) := by
  have hlist : o.isReached (before.toList ++ []).length = false := by simpa using h
  refine ⟨?_, ?_⟩
  · rw [Options.cut_eq_self hlist, List.append_nil]
  · rw [hlist, Bool.not_false]

/-- The walk goes on with what it has found. -/
lemma seq (h : Collects o before xs r) (hgo : r.1 = true) (h' : Collects o r.2 ys r') :
    Collects o before (xs ++ ys) r' := by
  have hopen : o.isReached (before.toList ++ xs).length = false := by
    simpa [hgo] using h.goesOn.symm
  have hfound : r.2.toList = before.toList ++ xs := by rw [h.found, Options.cut_eq_self hopen]
  refine ⟨?_, ?_⟩
  · rw [h'.found, hfound, List.append_assoc]
  · rw [h'.goesOn, hfound, List.append_assoc]

/-- The walk has ended, whatever hits there are. -/
lemma stop (h : Collects o before xs r) (hstop : r.1 = false) (ys : List Hit) :
    Collects o before (xs ++ ys) r := by
  have hreached : o.isReached (before.toList ++ xs).length = true := by
    simpa [hstop] using h.goesOn.symm
  refine ⟨?_, ?_⟩
  · rw [h.found, ← List.append_assoc, Options.cut_append_of_isReached hreached]
  · rw [h.goesOn, hreached, ← List.append_assoc, List.length_append]
    rw [Options.isReached_mono hreached (Nat.le_add_right _ _)]

lemma isReached_eq (h : Collects o before xs r) (hgo : r.1 = true) :
    o.isReached r.2.size = false := by
  have hopen : o.isReached (before.toList ++ xs).length = false := by
    simpa [hgo] using h.goesOn.symm
  rwa [← Array.length_toList, h.found, Options.cut_eq_self hopen]

end Collects

section Walk

variable (p : Pattern) {o : Options}

/-- A hit is found. -/
lemma collects_push {before : Array Hit} (h : o.isReached before.size = false) (x : Hit) :
    Collects o before [x] (!o.isReached (before.push x).size, before.push x) := by
  have hlength : (before.toList ++ [x]).length = (before.push x).size := by simp
  refine ⟨?_, by rw [hlength]⟩
  -- The hit may be reported, since the limit is not reached before it.
  unfold Options.cut
  split
  next limit hlimit =>
    simp only [Options.isReached, hlimit, Option.any_some, decide_eq_false_iff_not] at h
    rw [List.take_of_length_le (by simp; omega)]
    simp
  next => simp

mutual

lemma collects_walkFrom (k depth : Nat) (t : Tree) (before : Array Hit)
    (h : o.isReached before.size = false) :
    Collects o before (hitsFrom p o k t) (Node.walkFrom (p.visitor o) k depth t before) := by
  match t with
  | ⟨kind, text, span, children, fields⟩ =>
    rw [Node.walkFrom, hitsFrom]
    cases hhit : p.hit? o ⟨k, kind, text, span, children, fields⟩ with
    | none =>
      simp only [visitor, hhit]
      exact collects_walkAll (k + 1) (depth + 1) children before h
    | some x =>
      have hpush := collects_push h x
      simp only [visitor, hhit]
      by_cases hreached : o.isReached (before.push x).size
      · rw [if_pos hreached]
        rw [hreached] at hpush
        exact hpush.stop rfl _
      · rw [if_neg hreached]
        rw [Bool.not_eq_true] at hreached
        rw [hreached] at hpush
        cases o.includeNested with
        | true => exact hpush.seq rfl (collects_walkAll (k + 1) (depth + 1) children _ hreached)
        | false => exact hpush

lemma collects_walkAll (k depth : Nat) (ts : List Tree) (before : Array Hit)
    (h : o.isReached before.size = false) :
    Collects o before (hitsAll p o k ts) (Node.walkAll (p.visitor o) k depth ts before) := by
  match ts with
  | [] => exact .nil h
  | t :: ts =>
    rw [Node.walkAll, hitsAll]
    have hfirst := collects_walkFrom k depth t before h
    generalize Node.walkFrom (p.visitor o) k depth t before = r at hfirst
    obtain ⟨go, found⟩ := r
    cases go with
    | false => exact hfirst.stop rfl _
    | true =>
      exact hfirst.seq rfl (collects_walkAll (k + t.size) depth ts found (hfirst.isReached_eq rfl))

end

end Walk

/-! ### The hits of the pre-order -/

section Preorder

open Node

variable (p : Pattern) (o : Options)

/-- The hits at and below a node, as a search without a limit comes to them. -/
def hits (n : Node) : List Hit := hitsFrom p o n.number n.tree

lemma hitsAll_eq (k : Nat) (ts : List Tree) :
    hitsAll p o k ts = (numbered k ts).flatMap (p.hits o) := by
  induction ts generalizing k with
  | nil => rfl
  | cons t ts ih =>
    rw [hitsAll, numbered, List.flatMap_cons, ih]
    rfl

lemma hits_of_not_isHit {n : Node} (h : ¬ IsHit p o n) :
    p.hits o n = n.children.flatMap (p.hits o) := by
  have hnone := hit?_eq_none h
  obtain ⟨k, kind, text, span, children, fields⟩ := n
  rw [hits, hitsFrom, hnone, hitsAll_eq]
  rfl

lemma hits_of_isHit {n : Node} (h : IsHit p o n) :
    p.hits o n =
      p.hitOf n :: if o.includeNested then n.children.flatMap (p.hits o) else [] := by
  have hsome := hit?_eq_some h
  obtain ⟨k, kind, text, span, children, fields⟩ := n
  rw [hits, hitsFrom, hsome, hitsAll_eq]
  rfl

/-- A search of the node `root` reports the node `m`, if it may report enough. -/
structure Reports (root m : Node) : Prop where
  isHit : IsHit p o m
  /-- No hit stands above the node, unless such nodes are asked for. -/
  outermost : o.includeNested = false → ∀ a ∈ root.preorder, m.Inside a → ¬ IsHit p o a

variable {p o}

/-- Nothing stands above the node that is searched. -/
lemma reports_self_iff {n : Node} : Reports p o n n ↔ IsHit p o n := by
  refine ⟨Reports.isHit, fun h => ⟨h, fun _ a ha hin => ?_⟩⟩
  exact absurd ha hin.not_mem_preorder

/-- What stands above a node in a tree is the root or stands above it in the root's child. -/
lemma reports_iff_of_mem_children {n c m : Node} (hc : c ∈ n.children) (hm : m ∈ c.preorder) :
    Reports p o n m ↔ Reports p o c m ∧ (o.includeNested = false → ¬ IsHit p o n) := by
  constructor
  · rintro ⟨hhit, houter⟩
    refine ⟨⟨hhit, fun hnested a ha => ?_⟩, fun hnested => ?_⟩
    · exact houter hnested a (mem_preorder.2 (.inr ⟨c, hc, ha⟩))
    · exact houter hnested n n.self_mem_preorder ⟨c, hc, hm⟩
  · rintro ⟨⟨hhit, houter⟩, hroot⟩
    refine ⟨hhit, fun hnested a ha hin => ?_⟩
    rcases mem_preorder.1 ha with rfl | ⟨d, hd, had⟩
    · exact hroot hnested
    · obtain rfl : c = d := eq_of_mem_children hc hd hm (hin.up had).mem_preorder
      exact houter hnested a had hin

open Classical in
lemma hits_eq_filter (n : Node) :
    p.hits o n = (n.preorder.filter (Reports p o n)).map p.hitOf := by
  have hbelow : n.children.flatMap (p.hits o) =
      (n.children.flatMap fun c => c.preorder.filter (Reports p o c)).map p.hitOf := by
    rw [List.map_flatMap]
    refine List.flatMap_congr fun c hc => ?_
    exact hits_eq_filter c
  rw [preorder_eq, List.filter_cons, List.filter_flatMap]
  by_cases hhit : IsHit p o n
  · rw [hits_of_isHit p o hhit, if_pos (decide_eq_true (reports_self_iff.2 hhit)), List.map_cons]
    congr 1
    cases hnested : o.includeNested with
    | true =>
      rw [if_pos rfl, hbelow]
      congr 1
      refine List.flatMap_congr fun c hc => List.filter_congr fun m hm => ?_
      simp [reports_iff_of_mem_children hc hm, hnested]
    | false =>
      rw [if_neg (by simp)]
      symm
      rw [List.map_eq_nil_iff, List.flatMap_eq_nil_iff]
      intro c hc
      rw [List.filter_eq_nil_iff]
      intro m hm
      simp [reports_iff_of_mem_children hc hm, hnested, hhit]
  · rw [hits_of_not_isHit p o hhit, hbelow, if_neg (by simpa [reports_self_iff] using hhit)]
    congr 1
    refine List.flatMap_congr fun c hc => List.filter_congr fun m hm => ?_
    simp [reports_iff_of_mem_children hc hm, hhit]
termination_by n.size
decreasing_by exact size_lt_of_mem_children hc

end Preorder

open Classical in
/-- A search reports the hits of the pre-order, each with its own score and place, without those
that stand below a hit if these are not asked for, and of them as many as it may. -/
theorem find_eq_cut_filter_preorder (p : Pattern) (o : Options) (n : Node) :
    p.find o n = o.cut ((n.preorder.filter (Reports p o n)).map p.hitOf) := by
  rw [find_eq_traverse, ← hits_eq_filter]
  cases hreached : o.isReached 0 with
  | true =>
    have hcut : o.cut ([] ++ p.hits o n) = o.cut [] :=
      Options.cut_append_of_isReached hreached _
    rw [if_pos rfl, ← List.nil_append (p.hits o n), hcut, Options.cut_nil]
  | false =>
    rw [if_neg (by simp)]
    have hwalk := collects_walkFrom p n.number 0 n.tree #[] hreached
    rw [Node.traverse, hwalk.found]
    rfl

end Arbor.Pattern
