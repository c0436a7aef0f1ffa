import Arbor.Proofs.Symbols.Lookup
import Arbor.Proofs.Subtree

/-!
# The walk over the uses of names

The uses of names are found by a walk over the tree. Here the walk is taken apart into its visits:
one visit leads to the next ones, and the uses are those visits that come to a name which declares
nothing. What a visit leads to is said without reference to the walk: it is what the node writes to,
without the brackets around it, or another part of the node.
-/

namespace Arbor.Symbols

/-! ### Writing -/

/-- The node `n` stands inside brackets, none or several, around which there is only `m`. -/
inductive InBrackets : Node → Node → Prop where
  | refl (n : Node) : InBrackets n n
  | step {m c n : Node} : m.kind = "parenthesized_expression" → m.children.head? = some c →
    InBrackets c n → InBrackets m n

lemma inBrackets_of_ungroupedFrom? {k : Nat} {t : Tree} {n : Node}
    (h : ungroupedFrom? k t = some n) :
    InBrackets ⟨k, t⟩ n ∧ n.kind ≠ "parenthesized_expression" := by
  fun_induction ungroupedFrom? k t with
  | case1 k text span fields c rest _ ih =>
    obtain ⟨hin, hkind⟩ := ih h
    exact ⟨.step rfl rfl hin, hkind⟩
  | case2 => cases h
  | case3 k kind text span children fields hkind =>
    cases h
    exact ⟨.refl _, hkind⟩

lemma InBrackets.ungrouped?_eq {m n : Node} (h : InBrackets m n)
    (hn : n.kind ≠ "parenthesized_expression") : ungrouped? m = some n := by
  induction h with
  | refl n =>
    obtain ⟨k, kind, text, span, children, fields⟩ := n
    simp only [Node.kind] at hn
    cases children <;> simp [ungrouped?, ungroupedFrom?, hn]
  | @step m c n hm hc _ ih =>
    obtain ⟨k, kind, text, span, children, fields⟩ := m
    cases children with
    | nil => cases hc
    | cons t ts =>
      obtain rfl : (⟨k + 1, t⟩ : Node) = c := Option.some.inj hc
      obtain rfl : kind = "parenthesized_expression" := hm
      rw [ungrouped?, ungroupedFrom?, if_pos rfl]
      exact ih hn

/-- What stands inside brackets around a node, if anything does. -/
lemma ungrouped?_eq_some_iff {m n : Node} :
    ungrouped? m = some n ↔ InBrackets m n ∧ n.kind ≠ "parenthesized_expression" :=
  ⟨inBrackets_of_ungroupedFrom?, fun h => h.1.ungrouped?_eq h.2⟩

lemma InBrackets.mem_preorder {m n : Node} (h : InBrackets m n) : n ∈ m.preorder := by
  induction h with
  | refl n => exact n.self_mem_preorder
  | @step m c n _ hc _ ih =>
    have hchild : c ∈ m.children := List.mem_of_head? hc
    exact ((Node.inside_of_mem_children hchild).of_mem_preorder ih).mem_preorder

/-- The node `p` writes to the node `n`, with or without brackets around it: `n` is the left side of
an assignment, what is counted up or down, or the left side in the header of a loop that declares
nothing. -/
inductive Writes (p n : Node) : Prop where
  | assignment {t : Node} : UseForm.of p = .assignment → p.field? "left" = some t →
    InBrackets t n → Writes p n
  | update {t : Node} : UseForm.of p = .update → p.field? "argument" = some t →
    InBrackets t n → Writes p n
  | loop {t : Node} : UseForm.of p = .loopTarget → p.field? "left" = some t →
    InBrackets t n → Writes p n

/-- The node `p` holds the node `n` as a part in which names are used, and does not write to it. -/
inductive Holds (p n : Node) : Prop where
  | value : UseForm.of p = .assignment → p.field? "right" = some n → Holds p n
  | update : UseForm.of p = .update → p.field? "argument" = none → n ∈ p.children → Holds p n
  | loop : UseForm.of p = .loopTarget → n ∈ p.children → p.field? "left" ≠ some n → Holds p n
  | other : UseForm.of p = .other → n ∈ p.children → Holds p n

lemma Writes.exists_target {p n : Node} (h : Writes p n) : ∃ t ∈ p.children, InBrackets t n := by
  cases h with
  | assignment _ ht hin | update _ ht hin | loop _ ht hin =>
    exact ⟨_, Node.mem_children_of_field? ht, hin⟩

lemma Writes.inside {p n : Node} (h : Writes p n) : n.Inside p := by
  obtain ⟨t, ht, hin⟩ := h.exists_target
  exact (Node.inside_of_mem_children ht).of_mem_preorder hin.mem_preorder

lemma Holds.mem_children {p n : Node} (h : Holds p n) : n ∈ p.children := by
  cases h with
  | value _ hn => exact Node.mem_children_of_field? hn
  | update _ _ hn | loop _ hn _ | other _ hn => exact hn

/-! ### Visits -/

/-- A place that the walk comes to. -/
structure Visit where
  node : Node
  /-- The scope around the node. -/
  around : Nat
  /-- The node that writes to this one, if the walk comes from such a node. -/
  writer : Option Node

/-- Whether a node spells a name and does not declare it. -/
def Draft.isUse (d : Draft) (n : Node) : Bool :=
  UseForm.of n = .name && !d.isDeclared n

namespace Visit

variable (d : Draft)

/-- Whether the visit comes to a name that is written to. -/
def isWrite (v : Visit) : Bool :=
  v.writer.isSome && d.isUse v.node

/-- Whether the walk turns back, since the scope of the node lies too deep. -/
def isCut (v : Visit) : Bool :=
  !v.isWrite d && d.isTruncated v.node

/-- The scope in which the visit takes place. -/
def scope (v : Visit) : Nat :=
  if v.isWrite d then v.around else (d.scopeOf? v.node).getD v.around

/-- The use that the visit stands for, if it comes to a name. -/
def use (v : Visit) : Occurrence :=
  ⟨v.node, v.scope d, if v.writer.isSome then .write else .read⟩

/-- The visit to what a node writes to. -/
def toTarget (n : Node) (scope : Nat) (target : Node) : List Visit :=
  (ungrouped? target).toList.map (⟨·, scope, some n⟩)

/-- The visits to parts of a node. -/
def toParts (scope : Nat) (parts : List Node) : List Visit :=
  parts.map (⟨·, scope, none⟩)

/-- The visits to the parts of a node, in the scope of the node. -/
def onward (n : Node) (scope : Nat) : List Visit :=
  match UseForm.of n with
  | .name | .importing => []
  | .assignment =>
    (n.field? "left").toList.flatMap (toTarget n scope) ++ toParts scope (n.field? "right").toList
  | .update =>
    match n.field? "argument" with
    | some argument => toTarget n scope argument
    | none => toParts scope n.children
  | .loopTarget =>
    n.children.flatMap fun c =>
      if (n.field? "left").any c.same then toTarget n scope c else toParts scope [c]
  | .other => toParts scope n.children

/-- The visits that a visit leads to. -/
def next (v : Visit) : List Visit :=
  (onward v.node (v.scope d)).filter fun w => !w.isCut d

variable {d} {v w : Visit} {n : Node} {s : Nat}

lemma mem_toTarget {t : Node} :
    w ∈ toTarget n s t ↔ ungrouped? t = some w.node ∧ w.around = s ∧ w.writer = some n := by
  obtain ⟨node, around, writer⟩ := w
  simp [toTarget, eq_comm]

lemma mem_toParts {parts : List Node} :
    w ∈ toParts s parts ↔ w.node ∈ parts ∧ w.around = s ∧ w.writer = none := by
  obtain ⟨node, around, writer⟩ := w
  simp [toParts, eq_comm]

/-- The left side in the header of a loop is the child with its number. -/
lemma any_same_iff {c : Node} (hc : c ∈ n.children) :
    (n.field? "left").any c.same = true ↔ n.field? "left" = some c := by
  cases hleft : n.field? "left" with
  | none => simp
  | some t =>
    have ht : t ∈ n.children := Node.mem_children_of_field? hleft
    simp only [Option.any_some, Node.same, beq_iff_eq, Option.some.injEq]
    constructor
    · intro hnumber
      exact (Node.eq_of_number_eq (Node.inside_of_mem_children hc).mem_preorder
        (Node.inside_of_mem_children ht).mem_preorder hnumber).symm
    · rintro rfl
      rfl

lemma mem_onward_loop (hform : UseForm.of n = .loopTarget) :
    w ∈ onward n s ↔ (∃ t, n.field? "left" = some t ∧ w ∈ toTarget n s t) ∨
      (n.field? "left" ≠ some w.node ∧ w ∈ toParts s n.children) := by
  rw [onward, hform]
  simp only [List.mem_flatMap]
  constructor
  · rintro ⟨c, hc, hw⟩
    by_cases hleft : (n.field? "left").any c.same = true
    · rw [if_pos hleft] at hw
      exact .inl ⟨c, (any_same_iff hc).1 hleft, hw⟩
    · rw [if_neg hleft, mem_toParts, List.mem_singleton] at hw
      obtain ⟨rfl, hw⟩ := hw
      exact .inr ⟨fun h => hleft ((any_same_iff hc).2 h), mem_toParts.2 ⟨hc, hw⟩⟩
  · rintro (⟨t, ht, hw⟩ | ⟨hleft, hw⟩)
    · have hc : t ∈ n.children := Node.mem_children_of_field? ht
      exact ⟨t, hc, by rwa [if_pos ((any_same_iff hc).2 ht)]⟩
    · obtain ⟨hc, hw⟩ := mem_toParts.1 hw
      refine ⟨w.node, hc, ?_⟩
      rw [if_neg (fun h => hleft ((any_same_iff hc).1 h)), mem_toParts, List.mem_singleton]
      exact ⟨rfl, hw⟩

/-- A visit to a node leads to what the node writes to and to the other parts that it holds. -/
lemma mem_onward_iff : w ∈ onward n s ↔ w.around = s ∧
    ((w.writer = some n ∧ Writes n w.node ∧ w.node.kind ≠ "parenthesized_expression") ∨
      (w.writer = none ∧ Holds n w.node)) := by
  cases hform : UseForm.of n with
  | name | importing =>
    simp only [onward, hform]
    grind [Writes, Holds]
  | assignment =>
    simp only [onward, hform, List.mem_append, List.mem_flatMap, Option.mem_toList, mem_toTarget,
      mem_toParts, ungrouped?_eq_some_iff]
    grind [Writes, Holds]
  | update =>
    cases harg : n.field? "argument" <;>
      simp only [onward, hform, harg, mem_toTarget, mem_toParts, ungrouped?_eq_some_iff]
    · grind [Writes, Holds]
    · grind [Writes, Holds]
  | loopTarget =>
    simp only [mem_onward_loop hform, mem_toTarget, mem_toParts, ungrouped?_eq_some_iff]
    grind [Writes, Holds]
  | other =>
    simp only [onward, hform, mem_toParts]
    grind [Writes, Holds]

lemma mem_next_iff : w ∈ v.next d ↔ w.isCut d = false ∧ w.around = v.scope d ∧
    ((w.writer = some v.node ∧ Writes v.node w.node ∧ w.node.kind ≠ "parenthesized_expression") ∨
      (w.writer = none ∧ Holds v.node w.node)) := by
  rw [next, List.mem_filter, mem_onward_iff]
  simp [and_comm]

/-- The walk goes down. -/
lemma inside_of_mem_next (h : w ∈ v.next d) : w.node.Inside v.node := by
  obtain ⟨-, -, ⟨-, hwrites, -⟩ | ⟨-, hholds⟩⟩ := mem_next_iff.1 h
  · exact hwrites.inside
  · exact Node.inside_of_mem_children hholds.mem_children

end Visit

/-! ### The walk -/

/-- A visit and all that follow from it, in the order of the walk. -/
def walk (d : Draft) (v : Visit) : List Visit :=
  v :: (v.next d).attach.flatMap fun w => walk d w.1
termination_by v.node.size
decreasing_by exact (Visit.inside_of_mem_next w.2).size_lt

/-- The visits of walks from several places, one after the other. -/
def walks (d : Draft) (vs : List Visit) : List Visit :=
  (vs.filter fun v => !v.isCut d).flatMap (walk d)

/-- The visits of the walk over a program. -/
def visits (d : Draft) (root : Node) : List Visit :=
  walks d [⟨root, Model.globalScope, none⟩]

lemma walk_eq (d : Draft) (v : Visit) :
    walk d v = v :: walks d (Visit.onward v.node (v.scope d)) := by
  rw [walk, walks, ← Visit.next]
  simp

lemma mem_walk {d : Draft} {u v : Visit} :
    u ∈ walk d v ↔ u = v ∨ ∃ w ∈ v.next d, u ∈ walk d w := by
  rw [walk_eq, walks, ← Visit.next, List.mem_cons, List.mem_flatMap]

lemma mem_visits {d : Draft} {root : Node} {v : Visit} :
    v ∈ visits d root ↔ Visit.isCut d ⟨root, Model.globalScope, none⟩ = false ∧
      v ∈ walk d ⟨root, Model.globalScope, none⟩ := by
  simp [visits, walks]

/-- What holds of a visit and passes from a visit to the next ones holds of the walk. -/
lemma walk_induction {d : Draft} {P : Visit → Prop} {v : Visit} (hv : P v)
    (hnext : ∀ {v}, P v → ∀ w ∈ v.next d, P w) : ∀ w ∈ walk d v, P w := by
  intro w hw
  rcases mem_walk.1 hw with rfl | ⟨u, hu, hw⟩
  · exact hv
  · exact walk_induction (hnext hv u hu) hnext w hw
termination_by v.node.size
decreasing_by exact (Visit.inside_of_mem_next hu).size_lt

/-- The walk goes on from each visit. -/
lemma mem_walk_of_mem_next {d : Draft} {u v w : Visit} (hu : u ∈ walk d v) (hw : w ∈ u.next d) :
    w ∈ walk d v := by
  rcases mem_walk.1 hu with rfl | ⟨x, hx, hu⟩
  · exact mem_walk.2 (.inr ⟨w, hw, mem_walk.2 (.inl rfl)⟩)
  · exact mem_walk.2 (.inr ⟨x, hx, mem_walk_of_mem_next hu hw⟩)
termination_by v.node.size
decreasing_by exact (Visit.inside_of_mem_next hx).size_lt

/-- Each visit but the first comes from another one. -/
lemma exists_of_mem_walk {d : Draft} {u v : Visit} (hu : u ∈ walk d v) :
    u = v ∨ ∃ w ∈ walk d v, u ∈ w.next d := by
  have hboth : ∀ u ∈ walk d v, u ∈ walk d v ∧ (u = v ∨ ∃ w ∈ walk d v, u ∈ w.next d) := by
    apply walk_induction
    · exact ⟨mem_walk.2 (.inl rfl), .inl rfl⟩
    · intro w hw x hx
      exact ⟨mem_walk_of_mem_next hw.1 hx, .inr ⟨w, hw.1, hx⟩⟩
  exact (hboth u hu).2

/-! ### Reads and writes -/

/-- The outermost brackets are none, or those right around the node are a pair further in. -/
lemma InBrackets.cases_last {m n : Node} (h : InBrackets m n) :
    n = m ∨ ∃ q, InBrackets m q ∧ q.kind = "parenthesized_expression" ∧
      q.children.head? = some n := by
  induction h with
  | refl n => exact .inl rfl
  | @step m c n hm hc _ ih =>
    rcases ih with rfl | ⟨q, hq, hkind, hhead⟩
    · exact .inr ⟨m, .refl m, hm, hc⟩
    · exact .inr ⟨q, .step hm hc hq, hkind, hhead⟩

/-- A node does not write to what it holds otherwise, unless two of its fields name one child. -/
lemma Holds.not_writes {p n : Node} (h : Holds p n) (hfields : p.FieldsDistinct) :
    ¬ Writes p n := by
  have htarget {t : Node} {name : String} (ht : p.field? name = some t) (hin : InBrackets t n) :
      p.field? name = some n := by
    have hsame : t = n := Node.eq_of_mem_children (Node.mem_children_of_field? ht) h.mem_children
      hin.mem_preorder n.self_mem_preorder
    exact hsame ▸ ht
  intro hwrites
  cases hwrites with
  | assignment hform ht hin =>
    cases h with
    | value _ hright =>
      exact hfields.apart (by decide) (htarget ht hin) hright n n.self_mem_preorder
        n.self_mem_preorder
    | update hother | loop hother | other hother => simp [hform] at hother
  | update hform ht hin =>
    cases h with
    | update _ hnone => simp [ht] at hnone
    | value hother | loop hother | other hother => simp [hform] at hother
  | loop hform ht hin =>
    cases h with
    | loop _ _ hne => exact hne (htarget ht hin)
    | value hother | update hother | other hother => simp [hform] at hother

/-- A node that is written to inside brackets is the first part of brackets that are written to. -/
lemma Writes.cases_last {p n : Node} (h : Writes p n) :
    n ∈ p.children ∨
      ∃ q, Writes p q ∧ q.kind = "parenthesized_expression" ∧ n ∈ q.children := by
  cases h with
  | assignment hform ht hin =>
    rcases hin.cases_last with rfl | ⟨q, hq, hkind, hhead⟩
    · exact .inl (Node.mem_children_of_field? ht)
    · exact .inr ⟨q, .assignment hform ht hq, hkind, List.mem_of_head? hhead⟩
  | update hform ht hin =>
    rcases hin.cases_last with rfl | ⟨q, hq, hkind, hhead⟩
    · exact .inl (Node.mem_children_of_field? ht)
    · exact .inr ⟨q, .update hform ht hq, hkind, List.mem_of_head? hhead⟩
  | loop hform ht hin =>
    rcases hin.cases_last with rfl | ⟨q, hq, hkind, hhead⟩
    · exact .inl (Node.mem_children_of_field? ht)
    · exact .inr ⟨q, .loop hform ht hq, hkind, List.mem_of_head? hhead⟩

/-- Where the fields are distinct, the tree alone tells what is written to. -/
lemma writer_isSome_iff {d : Draft} {root : Node} {v : Visit} (hfields : root.FieldsDistinct)
    (hv : v ∈ visits d root) :
    v.writer.isSome = true ↔ ∃ p ∈ root.preorder, Writes p v.node := by
  -- the walk comes to brackets only where nothing writes to what they hold
  have hinv : ∀ v ∈ walk d ⟨root, Model.globalScope, none⟩, v.node ∈ root.preorder ∧
      ((∃ p ∈ root.preorder, v.writer = some p ∧ Writes p v.node ∧
          v.node.kind ≠ "parenthesized_expression") ∨
        (v.writer = none ∧ ∀ p ∈ root.preorder, ¬ Writes p v.node)) := by
    apply walk_induction
    · refine ⟨root.self_mem_preorder, .inr ⟨rfl, fun p hp hwrites => ?_⟩⟩
      exact hwrites.inside.not_mem_preorder hp
    · rintro u ⟨hu, hcases⟩ w hw
      refine ⟨((Visit.inside_of_mem_next hw).up hu).mem_preorder, ?_⟩
      obtain ⟨-, -, ⟨hwriter, hwrites, hkind⟩ | ⟨hwriter, hholds⟩⟩ := Visit.mem_next_iff.1 hw
      · exact .inl ⟨u.node, hu, hwriter, hwrites, hkind⟩
      · refine .inr ⟨hwriter, fun p hp hwrites => ?_⟩
        rcases hwrites.cases_last with hchild | ⟨q, hq, hkind, hchild⟩
        · have hparent : p = u.node :=
            Node.eq_of_mem_children_children hp hu hchild hholds.mem_children
          exact hholds.not_writes (hfields.of_mem_preorder hu) (hparent ▸ hwrites)
        · have hqroot : q ∈ root.preorder := (hq.inside.up hp).mem_preorder
          have hparent : q = u.node :=
            Node.eq_of_mem_children_children hqroot hu hchild hholds.mem_children
          subst hparent
          rcases hcases with ⟨-, -, -, -, hne⟩ | ⟨-, hnot⟩
          · exact hne hkind
          · exact hnot p hp hq
  obtain ⟨-, ⟨p, hp, hwriter, hwrites, -⟩ | ⟨hwriter, hnot⟩⟩ := hinv v (mem_visits.1 hv).2
  · exact iff_of_true (by simp [hwriter]) ⟨p, hp, hwrites⟩
  · exact iff_of_false (by simp [hwriter]) fun ⟨p, hp, hwrites⟩ => hnot p hp hwrites

/-! ### Uses -/

/-- The uses that come up in walks from several places. -/
def usesFrom (d : Draft) (vs : List Visit) : List Occurrence :=
  ((walks d vs).filter fun v => d.isUse v.node).map (Visit.use d)

lemma usesFrom_append (d : Draft) (vs ws : List Visit) :
    usesFrom d (vs ++ ws) = usesFrom d vs ++ usesFrom d ws := by
  simp [usesFrom, walks]

lemma usesFrom_flatMap {α : Type} (d : Draft) (f : α → List Visit) (xs : List α) :
    usesFrom d (xs.flatMap f) = xs.flatMap fun x => usesFrom d (f x) := by
  induction xs with
  | nil => rfl
  | cons x xs ih => rw [List.flatMap_cons, usesFrom_append, ih, List.flatMap_cons]

/-- The uses from one place on: the use there, if there is one, and those further down. -/
lemma usesFrom_singleton (d : Draft) (v : Visit) :
    usesFrom d [v] = if v.isCut d then [] else
      (if d.isUse v.node then [v.use d] else [])
        ++ usesFrom d (Visit.onward v.node (v.scope d)) := by
  cases hcut : v.isCut d with
  | true => simp [usesFrom, walks, hcut]
  | false =>
    have hwalks : walks d [v] = v :: walks d (Visit.onward v.node (v.scope d)) := by
      rw [← walk_eq]
      simp [walks, hcut]
    rw [usesFrom, hwalks, List.filter_cons]
    cases huse : d.isUse v.node <;> simp [usesFrom]

lemma usesFrom_toTarget (d : Draft) (n : Node) (s : Nat) (t : Node) :
    usesFrom d (Visit.toTarget n s t) = (ungrouped? t).toList.flatMap fun x =>
      if d.isUse x then [⟨x, s, .write⟩] else usesFrom d [⟨x, s, none⟩] := by
  cases hx : ungrouped? t with
  | none => simp [Visit.toTarget, hx, usesFrom, walks]
  | some x =>
    have hone : Visit.toTarget n s t = [⟨x, s, some n⟩] := by simp [Visit.toTarget, hx]
    rw [hone, Option.toList_some, List.flatMap_singleton]
    cases huse : d.isUse x with
    | true =>
      have hname : UseForm.of x = .name := by simp_all [Draft.isUse]
      rw [usesFrom_singleton]
      simp [Visit.isCut, Visit.isWrite, Visit.use, Visit.scope, huse, Visit.onward, hname, usesFrom,
        walks]
    | false =>
      rw [usesFrom_singleton]
      simp [usesFrom_singleton d ⟨x, s, none⟩, Visit.isCut, Visit.isWrite, Visit.scope, huse]

lemma usesFrom_toParts (d : Draft) (s : Nat) (parts : List Node) :
    usesFrom d (Visit.toParts s parts) = parts.flatMap fun c => usesFrom d [⟨c, s, none⟩] := by
  rw [Visit.toParts, List.map_eq_flatMap, usesFrom_flatMap]

/-! ### The walk finds the uses -/

lemma map_val_belowUngrouped? {n : Node} (c : Below n) :
    (belowUngrouped? c).map (·.1) = ungrouped? c.1 := by
  rw [belowUngrouped?]
  split
  next m h => exact h.symm
  next h => exact h.symm

lemma targetUses_eq (d : Draft) (n : Node) (s : Nat) :
    targetUses d (fun (c : Below n) s => usesFrom d [⟨c.1, s, none⟩]) s
      = fun t => usesFrom d (Visit.toTarget n s t.1) := by
  funext t
  rw [usesFrom_toTarget, ← map_val_belowUngrouped?, targetUses]
  cases belowUngrouped? t with
  | none => rfl
  | some x =>
    simp only [Option.map_some, Option.toList_some, List.flatMap_singleton]
    rfl

lemma partUses_eq (d : Draft) (n : Node) (s : Nat) :
    partUses (fun (c : Below n) s => usesFrom d [⟨c.1, s, none⟩]) s
      = usesFrom d (Visit.toParts s n.children) := by
  rw [usesFrom_toParts, ← n.map_val_below, List.flatMap_map]
  rfl

/-- One step of the search for uses is one step of the walk. -/
lemma usesStep_eq (d : Draft) (n : Node) (around : Nat) :
    usesStep d n (fun c s => usesFrom d [⟨c.1, s, none⟩]) around
      = usesFrom d [⟨n, around, none⟩] := by
  cases htruncated : d.isTruncated n with
  | true =>
    rw [usesStep, usesFrom_singleton]
    simp [Visit.isCut, Visit.isWrite, htruncated]
  | false =>
    have hcut : Visit.isCut d ⟨n, around, none⟩ = false := by simp [Visit.isCut, htruncated]
    have hscope : Visit.scope d ⟨n, around, none⟩ = (d.scopeOf? n).getD around := by
      simp [Visit.scope, Visit.isWrite]
    have huse : Visit.use d ⟨n, around, none⟩ = ⟨n, (d.scopeOf? n).getD around, .read⟩ := by
      simp [Visit.use, hscope]
    rw [usesStep, usesFrom_singleton, hcut, htruncated, hscope, huse]
    generalize (d.scopeOf? n).getD around = s
    simp only [targetUses_eq, partUses_eq, Bool.false_eq_true, if_false]
    cases hform : UseForm.of n with
    | importing => simp [Visit.onward, hform, Draft.isUse, usesFrom, walks]
    | name =>
      cases hdeclared : d.isDeclared n <;>
        simp [Visit.onward, hform, Draft.isUse, hdeclared, usesFrom, walks]
    | assignment =>
      simp only [Visit.onward, hform, usesFrom_append, usesFrom_flatMap, usesFrom_toParts,
        ← n.map_val_belowField?, Option.toList_map, List.flatMap_map]
      simp [Draft.isUse, hform]
    | update =>
      simp only [Visit.onward, hform, ← n.map_val_belowField?]
      cases n.belowField? "argument" <;> simp [Draft.isUse, hform]
    | loopTarget =>
      simp only [Visit.onward, hform, usesFrom_flatMap, apply_ite (usesFrom d), usesFrom_toParts,
        ← n.map_val_below, List.flatMap_map]
      simp [Draft.isUse, hform]
    | other => simp [Visit.onward, hform, Draft.isUse]

/-- The uses of names are what the walk comes to. -/
theorem occurrences_eq (d : Draft) (n : Node) (around : Nat) :
    occurrences d n around = usesFrom d [⟨n, around, none⟩] := by
  rw [occurrences, ← usesStep_eq]
  congr 1
  funext c s
  exact occurrences_eq d c.1 s
termination_by n.size
decreasing_by exact c.2

lemma mem_occurrences {d : Draft} {root : Node} {u : Occurrence} :
    u ∈ occurrences d root Model.globalScope ↔
      ∃ v ∈ visits d root, d.isUse v.node = true ∧ v.use d = u := by
  rw [occurrences_eq, usesFrom, List.mem_map]
  simp only [List.mem_filter, and_assoc, visits]

lemma Visit.scope_lt {d : Draft} {limit : Nat} (h : d.Sound limit) {v : Visit}
    (hv : v.around < d.model.scopes.size) : v.scope d < d.model.scopes.size := by
  rw [Visit.scope]
  split_ifs
  · exact hv
  · cases hscope : d.scopeOf? v.node with
    | none => exact hv
    | some i => exact h.opened _ (Draft.mem_of_scopeOf? hscope)

/-- The uses stand in scopes of the model. -/
lemma Draft.Sound.scope_lt_of_mem_occurrences {d : Draft} {limit : Nat} (h : d.Sound limit)
    {root : Node} {u : Occurrence} (hu : u ∈ occurrences d root Model.globalScope) :
    u.scope < d.model.scopes.size := by
  obtain ⟨v, hv, -, rfl⟩ := mem_occurrences.1 hu
  have hwalk : ∀ v ∈ walk d ⟨root, Model.globalScope, none⟩, v.around < d.model.scopes.size := by
    apply walk_induction
    · exact h.wellFormed.nested.nonempty
    · intro v hv w hw
      rw [(Visit.mem_next_iff.1 hw).2.1]
      exact Visit.scope_lt h hv
  exact Visit.scope_lt h (hwalk v (mem_visits.1 hv).2)

end Arbor.Symbols
