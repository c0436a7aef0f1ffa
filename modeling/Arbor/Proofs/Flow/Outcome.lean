import Arbor.Proofs.Flow.Skeleton
import Arbor.Proofs.Height
import Mathlib.Data.Finset.Basic
import Mathlib.Data.Finset.Filter

/-!
# Outcomes of statements

How control can leave a statement, read off the syntax alone: it goes on behind the statement, or it
takes a jump. The ways in which it can leave a node are made up of those in which it can leave the
parts of the node.

The graph does not follow these rules throughout. A loop that decides after each round has an open
end behind it, even if control never gets there, and the last part of a try statement is entered
from such an end if there is one; only otherwise it is entered from where the statement begins. So
the graph has outcomes of its own, in two views: the hopeful one takes it that control comes out of
each such loop, and tells where there are open ends; the other one tells where control can go. They
are those of the skeleton. They never go beyond the rules, and agree with them unless there is a
last part that makes a jump behind open ends none of which control gets to.
-/

namespace Arbor.Flow

/-- A way in which control leaves a statement. -/
inductive Outcome where
  | normal
  | jump (k : Jump)
  deriving DecidableEq, Repr

/-- The ways in which control can leave a statement. -/
abbrev Outcomes := Finset Outcome

namespace Outcomes

/-- The jumps that leave the function. -/
def leaving (s : Outcomes) : Outcomes :=
  s.filter fun o => o = .jump .returns ∨ o = .jump .throws

/-- One statement and then others. -/
def andThen (first rest : Outcomes) : Outcomes :=
  if .normal ∈ first then first.erase .normal ∪ rest else first

/-- A loop that decides before each round. -/
def loop (body : Outcomes) : Outcomes := insert .normal body.leaving

/-- A loop that decides after each round: control comes out if a round ends or is broken off. -/
def doWhile (hopeful : Bool) (body : Outcomes) : Outcomes :=
  if hopeful ∨ .normal ∈ body ∨ .jump .continues ∈ body ∨ .jump .breaks ∈ body then body.loop
  else body.leaving

/-- Some of several. -/
def union (cases : List Outcomes) : Outcomes := cases.foldr (· ∪ ·) ∅

/-- A switch. -/
def switch (hasDefault : Bool) (cases : List Outcomes) : Outcomes :=
  let others := ((union cases).erase .normal).erase (.jump .breaks)
  if .jump .breaks ∈ union cases ∨ cases.getLast?.any (.normal ∈ ·) ∨ !hasDefault then
    insert .normal others
  else others

/-- A statement and the part that runs after it in any case: behind it, if there are `ends` behind
which the part stands, and else beside it. -/
def lastly (ends s last : Outcomes) : Outcomes :=
  if .normal ∈ ends then s.andThen last else s ∪ last.erase .normal

section Membership

variable {a b e : Outcomes} {k : Jump}

@[simp] lemma normal_not_mem_leaving : .normal ∉ a.leaving := by
  simp [leaving]

@[simp] lemma jump_mem_leaving :
    .jump k ∈ a.leaving ↔ .jump k ∈ a ∧ (k = .returns ∨ k = .throws) := by
  simp [leaving]

@[simp] lemma normal_mem_andThen : .normal ∈ a.andThen b ↔ .normal ∈ a ∧ .normal ∈ b := by
  unfold andThen
  split_ifs with h <;> simp [h]

@[simp] lemma jump_mem_andThen :
    .jump k ∈ a.andThen b ↔ .jump k ∈ a ∨ .normal ∈ a ∧ .jump k ∈ b := by
  unfold andThen
  split_ifs with h <;> simp [h]

@[simp] lemma normal_mem_loop : .normal ∈ a.loop := by
  simp [loop]

@[simp] lemma jump_mem_loop :
    .jump k ∈ a.loop ↔ .jump k ∈ a ∧ (k = .returns ∨ k = .throws) := by
  simp [loop]

@[simp] lemma normal_mem_doWhile {hopeful : Bool} :
    .normal ∈ a.doWhile hopeful ↔
      hopeful = true ∨ .normal ∈ a ∨ .jump .continues ∈ a ∨ .jump .breaks ∈ a := by
  unfold doWhile
  split_ifs with h <;> simp [h]

@[simp] lemma jump_mem_doWhile {hopeful : Bool} :
    .jump k ∈ a.doWhile hopeful ↔ .jump k ∈ a ∧ (k = .returns ∨ k = .throws) := by
  unfold doWhile
  split_ifs <;> simp

@[simp] lemma union_nil : union [] = ∅ := rfl

@[simp] lemma union_cons (cases : List Outcomes) : union (a :: cases) = a ∪ union cases := rfl

@[simp] lemma normal_mem_switch {hasDefault : Bool} {cases : List Outcomes} :
    .normal ∈ switch hasDefault cases ↔ .jump .breaks ∈ union cases ∨
      (∃ o ∈ cases.getLast?, .normal ∈ o) ∨ hasDefault = false := by
  unfold switch
  cases cases.getLast? <;> split_ifs with h <;> simp_all

@[simp] lemma jump_mem_switch {hasDefault : Bool} {cases : List Outcomes} :
    .jump k ∈ switch hasDefault cases ↔ .jump k ∈ union cases ∧ k ≠ .breaks := by
  unfold switch
  split_ifs <;> simp [and_comm]

@[simp] lemma normal_mem_lastly :
    .normal ∈ lastly e a b ↔ .normal ∈ a ∧ (.normal ∈ e → .normal ∈ b) := by
  unfold lastly
  split_ifs with h <;> simp [h]

@[simp] lemma jump_mem_lastly :
    .jump k ∈ lastly e a b ↔ .jump k ∈ a ∨ (.normal ∈ e → .normal ∈ a) ∧ .jump k ∈ b := by
  unfold lastly
  split_ifs with h <;> simp [h]

end Membership

/-- Statements in sequence. -/
def sequence (out : Node → Outcomes) : List Node → Outcomes
  | [] => {.normal}
  | n :: ns => (out n).andThen (sequence out ns)

/-- The statements among some nodes. -/
def statements (out : Node → Outcomes) (ns : List Node) : Outcomes :=
  sequence out (ns.filter (·.construct != .ignored))

/-- A part that may be missing. -/
def part (out : Node → Outcomes) : Option Node → Outcomes
  | some n => out n
  | none => {.normal}

/-- The parts of a try statement in front of its last part. -/
def guarded (out : Node → Outcomes) (n : Node) : Outcomes :=
  match n.field? "handler" with
  | some handler => part out (n.field? "body") ∪ part out (handler.field? "body")
  | none => part out (n.field? "body")

/-- A node whose parts have the outcomes given. It is left open what to hope of a loop that decides
after each round, and by which ends the last part of a try statement is judged. -/
def ofNodeBy (hopeful : Bool) (ends : Outcomes) (out : Node → Outcomes) (n : Node) : Outcomes :=
  match n.construct with
  | .declaration | .function | .classDef | .statement | .ignored => {.normal}
  | .block | .elseClause | .switchCase | .switchDefault => statements out n.children
  | .labeled => part out ((n.field? "body").or n.children.getLast?)
  | .conditional => part out (n.field? "consequence") ∪ part out (n.field? "alternative")
  | .forLoop | .forEach | .whileLoop =>
    match n.field? "body" with
    | some body => (out body).loop
    | none => {.normal}
  | .doWhile => (part out (n.field? "body")).doWhile hopeful
  | .switch =>
    let cases := Walker.switchCases n
    switch (cases.any (·.construct == .switchDefault))
      (cases.map fun c => statements out (caseStatements c))
  | .tryCatch =>
    match n.field? "finalizer" with
    | some finalizer =>
      lastly ends (guarded out n) (out ((finalizer.field? "body").getD finalizer))
    | none => guarded out n
  | .returnJump => {.jump .returns}
  | .throwJump => {.jump .throws}
  | .breakJump => {.jump .breaks}
  | .continueJump => {.jump .continues}

/-- A node whose parts have the outcomes given: the last part of a try statement stands behind the
other parts if control can get through these. -/
def ofNode (out : Node → Outcomes) (n : Node) : Outcomes :=
  ofNodeBy false (guarded out n) out n

/-- A node whose parts have the outcomes given in both views: the last part of a try statement
stands behind the other parts if one can hope that control gets through these. -/
def viewOf (hopeful : Bool) (out : Bool → Node → Outcomes) (n : Node) : Outcomes :=
  ofNodeBy hopeful (guarded (out true) n) (out hopeful) n

/-- The body of a function. A body that is no block is the value that the function returns. -/
def ofBody (out : Node → Outcomes) (n : Node) : Outcomes :=
  match n.field? "body" with
  | some body => if body.construct = .block then out body else {.jump .returns}
  | none => {.normal}

/-! ### More outcomes

The more outcomes the parts of a node have, the more has the node. -/

section Mono

variable {a a' b b' e e' : Outcomes}

lemma subset_iff :
    a ⊆ b ↔ (.normal ∈ a → .normal ∈ b) ∧ ∀ k, .jump k ∈ a → .jump k ∈ b := by
  constructor
  · exact fun h => ⟨@h _, fun k => @h _⟩
  · rintro ⟨hnormal, hjump⟩ (_ | k) ho
    · exact hnormal ho
    · exact hjump k ho

lemma andThen_mono (ha : a ⊆ a') (hb : b ⊆ b') : a.andThen b ⊆ a'.andThen b' := by
  simp only [subset_iff, normal_mem_andThen, jump_mem_andThen] at ha hb ⊢
  exact ⟨And.imp ha.1 hb.1, fun k => Or.imp (ha.2 k) (And.imp ha.1 (hb.2 k))⟩

lemma loop_mono (ha : a ⊆ a') : a.loop ⊆ a'.loop := by
  simp only [subset_iff, normal_mem_loop, jump_mem_loop] at ha ⊢
  exact ⟨id, fun k => And.imp_left (ha.2 k)⟩

lemma doWhile_mono {c c' : Bool} (hc : c = true → c' = true) (ha : a ⊆ a') :
    a.doWhile c ⊆ a'.doWhile c' := by
  simp only [subset_iff, normal_mem_doWhile, jump_mem_doWhile] at ha ⊢
  exact ⟨Or.imp hc (Or.imp ha.1 (Or.imp (ha.2 _) (ha.2 _))), fun k => And.imp_left (ha.2 k)⟩

lemma union_mono {α : Type} {f f' : α → Outcomes} {xs : List α} (h : ∀ x ∈ xs, f x ⊆ f' x) :
    union (xs.map f) ⊆ union (xs.map f') := by
  induction xs with
  | nil => exact Finset.Subset.refl _
  | cons x xs ih =>
    exact Finset.union_subset_union (h x List.mem_cons_self)
      (ih fun y hy => h y (List.mem_cons_of_mem x hy))

lemma switch_mono {α : Type} {f f' : α → Outcomes} {xs : List α} (h : ∀ x ∈ xs, f x ⊆ f' x)
    (hasDefault : Bool) : switch hasDefault (xs.map f) ⊆ switch hasDefault (xs.map f') := by
  have hunion := subset_iff.1 (union_mono h)
  simp only [subset_iff, normal_mem_switch, jump_mem_switch, List.getLast?_map, Option.mem_map]
  refine ⟨Or.imp (hunion.2 _) (Or.imp_left ?_), fun k => And.imp_left (hunion.2 k)⟩
  rintro ⟨o, ⟨x, hx, rfl⟩, ho⟩
  exact ⟨f' x, ⟨x, hx, rfl⟩, h x (List.mem_of_getLast? hx) ho⟩

/-- There are no more outcomes behind other ends if these are not ends in vain. -/
lemma lastly_mono (ha : a ⊆ a') (hb : b ⊆ b') (he : .normal ∈ a → .normal ∈ e)
    (he' : .normal ∈ e' → .normal ∈ a') : lastly e a b ⊆ lastly e' a' b' := by
  simp only [subset_iff, normal_mem_lastly, jump_mem_lastly] at ha hb ⊢
  refine ⟨fun h => ⟨ha.1 h.1, fun _ => hb.1 (h.2 (he h.1))⟩, fun k => Or.imp (ha.2 k) ?_⟩
  exact fun h => ⟨he', hb.2 k h.2⟩

variable {f f' : Node → Outcomes} {n : Node}

lemma sequence_mono {ns : List Node} (h : ∀ m ∈ ns, f m ⊆ f' m) :
    sequence f ns ⊆ sequence f' ns := by
  induction ns with
  | nil => exact Finset.Subset.refl _
  | cons n ns ih =>
    exact andThen_mono (h n List.mem_cons_self) (ih fun m hm => h m (List.mem_cons_of_mem n hm))

lemma statements_mono {ns : List Node} (h : ∀ m ∈ ns, f m ⊆ f' m) :
    statements f ns ⊆ statements f' ns :=
  sequence_mono fun m hm => h m (List.mem_filter.1 hm).1

lemma part_mono {p : Option Node} (h : ∀ m ∈ p, f m ⊆ f' m) : part f p ⊆ part f' p := by
  cases p with
  | none => exact Finset.Subset.refl _
  | some m => exact h m rfl

lemma ofBody_mono (h : ∀ m ∈ n.field? "body", f m ⊆ f' m) : ofBody f n ⊆ ofBody f' n := by
  unfold ofBody
  cases hb : n.field? "body" with
  | none => exact Finset.Subset.refl _
  | some body =>
    dsimp only
    split_ifs
    · exact h body hb
    · exact Finset.Subset.refl _

variable (h : ∀ m ∈ statementParts n, f m ⊆ f' m)
include h

lemma guarded_mono (hn : n.construct = .tryCatch) : guarded f n ⊆ guarded f' n := by
  simp only [statementParts, hn, List.mem_append, Option.mem_toList] at h
  have hbody : part f (n.field? "body") ⊆ part f' (n.field? "body") :=
    part_mono fun m hm => h m (.inl (.inl hm))
  unfold guarded
  cases hhandler : n.field? "handler" with
  | none => exact hbody
  | some handler =>
    refine Finset.union_subset_union hbody (part_mono fun m hm => h m (.inl (.inr ?_)))
    rwa [hhandler, Option.bind_some]

/-- What a node gets from its parts. Loops that decide after each round and the last parts of try
statements are compared apart. -/
lemma ofNodeBy_mono {c c' : Bool} (hc : n.construct = .doWhile → c = true → c' = true)
    (hlast : n.construct = .tryCatch → ∀ finalizer, n.field? "finalizer" = some finalizer →
      lastly e (guarded f n) (f ((finalizer.field? "body").getD finalizer)) ⊆
        lastly e' (guarded f' n) (f' ((finalizer.field? "body").getD finalizer))) :
    ofNodeBy c e f n ⊆ ofNodeBy c' e' f' n := by
  have hguarded := guarded_mono h
  unfold statementParts at h
  unfold ofNodeBy
  cases hn : n.construct <;> simp only [hn] at h ⊢
  case block | elseClause | switchCase | switchDefault => exact statements_mono h
  case labeled => exact part_mono fun m hm => h m (Option.mem_toList.2 hm)
  case conditional =>
    simp only [List.mem_append, Option.mem_toList] at h
    exact Finset.union_subset_union (part_mono fun m hm => h m (.inl hm))
      (part_mono fun m hm => h m (.inr hm))
  case forLoop | forEach | whileLoop =>
    cases hbody : n.field? "body" with
    | none => exact Finset.Subset.refl _
    | some body => exact loop_mono (h body (by simp [hbody]))
  case doWhile =>
    exact doWhile_mono (hc hn) (part_mono fun m hm => h m (Option.mem_toList.2 hm))
  case switch =>
    refine switch_mono (fun c hc => statements_mono fun m hm => h m ?_) _
    exact List.mem_flatMap.2 ⟨c, hc, hm⟩
  case tryCatch =>
    cases hfinalizer : n.field? "finalizer" with
    | none => exact hguarded hn
    | some finalizer => exact hlast hn finalizer hfinalizer
  all_goals exact Finset.Subset.refl _

end Mono

section Congr

variable {f f' : Node → Outcomes} {n : Node}

lemma guarded_congr (h : ∀ m ∈ statementParts n, f m = f' m) (hn : n.construct = .tryCatch) :
    guarded f n = guarded f' n :=
  (guarded_mono (fun m hm => (h m hm).subset) hn).antisymm
    (guarded_mono (fun m hm => (h m hm).superset) hn)

/-- The last part of a try statement is one of its parts. -/
lemma mem_statementParts_of_finalizer {finalizer : Node} (hn : n.construct = .tryCatch)
    (h : n.field? "finalizer" = some finalizer) :
    (finalizer.field? "body").getD finalizer ∈ statementParts n := by
  simp [statementParts, hn, h]

lemma ofNodeBy_congr {c c' : Bool} {e e' : Outcomes} (h : ∀ m ∈ statementParts n, f m = f' m)
    (hc : n.construct = .doWhile → c = c') (he : n.construct = .tryCatch → e = e') :
    ofNodeBy c e f n = ofNodeBy c' e' f' n := by
  have hlast (hn : n.construct = .tryCatch) (finalizer : Node)
      (hf : n.field? "finalizer" = some finalizer) :
      lastly e (guarded f n) (f ((finalizer.field? "body").getD finalizer)) =
        lastly e' (guarded f' n) (f' ((finalizer.field? "body").getD finalizer)) := by
    rw [he hn, guarded_congr h hn, h _ (mem_statementParts_of_finalizer hn hf)]
  refine Finset.Subset.antisymm ?_ ?_
  · exact ofNodeBy_mono (fun m hm => (h m hm).subset) (fun hn => (hc hn ▸ ·))
      fun hn last hf => (hlast hn last hf).subset
  · exact ofNodeBy_mono (fun m hm => (h m hm).superset) (fun hn => (hc hn ▸ ·))
      fun hn last hf => (hlast hn last hf).superset

lemma ofNode_congr (h : ∀ m ∈ statementParts n, f m = f' m) : ofNode f n = ofNode f' n :=
  ofNodeBy_congr h (fun _ => rfl) (guarded_congr h)

lemma viewOf_congr {out out' : Bool → Node → Outcomes}
    (h : ∀ b, ∀ m ∈ statementParts n, out b m = out' b m) (b : Bool) :
    viewOf b out n = viewOf b out' n :=
  ofNodeBy_congr (h b) (fun _ => rfl) (guarded_congr (h true))

lemma ofBody_congr (h : ∀ m ∈ n.field? "body", f m = f' m) : ofBody f n = ofBody f' n :=
  (ofBody_mono fun m hm => (h m hm).subset).antisymm
    (ofBody_mono fun m hm => (h m hm).superset)

end Congr

end Outcomes

/-! ### Nodes -/

/-- What is made up level by level from the parts of a node does not depend on the number of levels
if there are enough of them. -/
lemma eq_of_height_le {α : Type} {f : Nat → Node → α}
    (h : ∀ d d' n, (∀ m ∈ statementParts n, f d m = f d' m) → f (d + 1) n = f (d' + 1) n)
    {d d' : Nat} {n : Node} (hd : n.height ≤ d) (hd' : n.height ≤ d') : f d n = f d' n := by
  have hpos := n.height_pos
  induction d generalizing d' n with
  | zero => omega
  | succ d ih =>
    obtain ⟨d', rfl⟩ : ∃ k, d' = k + 1 := ⟨d' - 1, by omega⟩
    refine h d d' n fun m hm => ?_
    have hlt := Node.height_lt_of_inside (inside_of_mem_statementParts hm)
    exact ih (by omega) (by omega) m.height_pos

/-- The ways in which control can leave a node of which only some levels are looked at. -/
def waysTo : Nat → Node → Outcomes
  | 0, _ => {.normal}
  | d + 1, n => .ofNode (waysTo d) n

/-- The ways in which control can leave a node. -/
def ways (n : Node) : Outcomes := waysTo n.height n

lemma waysTo_eq {d : Nat} {n : Node} (h : n.height ≤ d) : waysTo d n = ways n :=
  eq_of_height_le (fun _ _ _ => Outcomes.ofNode_congr) h (Nat.le_refl _)

/-- The ways in which control can leave a node are made up of those of its parts. -/
theorem ways_eq (n : Node) : ways n = .ofNode ways n := by
  rw [← waysTo_eq (Nat.le_succ n.height), waysTo]
  refine Outcomes.ofNode_congr fun m hm => waysTo_eq ?_
  exact (Node.height_lt_of_inside (inside_of_mem_statementParts hm)).le

/-- There is one way only to assign outcomes to nodes that are made up of those of their parts. -/
theorem ways_unique {out : Node → Outcomes} (h : ∀ n, out n = .ofNode out n) (n : Node) :
    out n = ways n := by
  rw [h, ways_eq]
  exact Outcomes.ofNode_congr fun m hm => ways_unique h m
termination_by n.height
decreasing_by exact Node.height_lt_of_inside (inside_of_mem_statementParts hm)

/-- The ways in which control can leave the body of a function of which only some levels are looked
at. -/
def bodyWaysTo (d : Nat) (n : Node) : Outcomes := .ofBody (waysTo d) n

/-- The ways in which control can leave the body of a function. -/
def bodyWays (n : Node) : Outcomes := .ofBody ways n

lemma bodyWaysTo_eq {d : Nat} {n : Node} (h : n.height ≤ d + 1) : bodyWaysTo d n = bodyWays n := by
  refine Outcomes.ofBody_congr fun m hm => waysTo_eq ?_
  have hlt := Node.height_lt_of_field? hm
  omega

/-! ### The two views -/

/-- The outcomes that the graph gives to a node of which only some levels are looked at. -/
def outcomesTo : Nat → Bool → Node → Outcomes
  | 0, _, _ => {.normal}
  | d + 1, hopeful, n => .viewOf hopeful (outcomesTo d) n

/-- The outcomes that the graph gives to the body of a function of which only some levels are looked
at. -/
def bodyOutcomesTo (d : Nat) (n : Node) : Outcomes := .ofBody (outcomesTo d false) n

/-- With more hope there are more outcomes. -/
lemma outcomesTo_subset_hopeful (d : Nat) (n : Node) :
    outcomesTo d false n ⊆ outcomesTo d true n := by
  induction d generalizing n with
  | zero => exact Finset.Subset.refl _
  | succ d ih =>
    refine Outcomes.ofNodeBy_mono (fun m _ => ih m) (fun _ => nofun) fun hn finalizer _ => ?_
    have hguarded := Outcomes.guarded_mono (fun m _ => ih m) hn
    exact Outcomes.lastly_mono hguarded (ih _) (@hguarded _) id

/-- The graph lets control go only where the rules do. -/
lemma outcomesTo_subset_waysTo (d : Nat) (n : Node) : outcomesTo d false n ⊆ waysTo d n := by
  induction d generalizing n with
  | zero => exact Finset.Subset.refl _
  | succ d ih =>
    refine Outcomes.ofNodeBy_mono (fun m _ => ih m) (fun _ => id) fun hn finalizer _ => ?_
    have hhoped := Outcomes.guarded_mono (fun m _ => outcomesTo_subset_hopeful d m) hn
    exact Outcomes.lastly_mono (Outcomes.guarded_mono (fun m _ => ih m) hn) (ih _) (@hhoped _) id

/-- The last part of a try statement, if there is one, counts as the rules say. The other parts
leave no open ends, or control gets to one of them, or the last part makes only jumps that the other
parts make as well. -/
def LastCounts (d : Nat) (n : Node) : Prop :=
  ∀ finalizer ∈ n.field? "finalizer",
    .normal ∈ Outcomes.guarded (outcomesTo d true) n →
      .normal ∈ Outcomes.guarded (outcomesTo d false) n ∨
        (outcomesTo d false ((finalizer.field? "body").getD finalizer)).erase .normal ⊆
          Outcomes.guarded (outcomesTo d false) n

/-- The last parts of all try statements at and below a node count as the rules say, where only some
levels are looked at. -/
def LastPartsCount : Nat → Node → Prop
  | 0, _ => True
  | d + 1, n =>
    (n.construct = .tryCatch → LastCounts d n) ∧ ∀ m ∈ statementParts n, LastPartsCount d m

instance (d : Nat) (n : Node) : Decidable (LastCounts d n) :=
  inferInstanceAs (Decidable (∀ finalizer ∈ n.field? "finalizer", _))

instance decidableLastPartsCount : ∀ (d : Nat) (n : Node), Decidable (LastPartsCount d n)
  | 0, _ => inferInstanceAs (Decidable True)
  | d + 1, n =>
    have := decidableLastPartsCount d
    inferInstanceAs (Decidable ((n.construct = .tryCatch → LastCounts d n) ∧
      ∀ m ∈ statementParts n, LastPartsCount d m))

/-- If all last parts count, the graph follows the rules. -/
lemma outcomesTo_eq_waysTo {d : Nat} {n : Node} (h : LastPartsCount d n) :
    outcomesTo d false n = waysTo d n := by
  induction d generalizing n with
  | zero => rfl
  | succ d ih =>
    obtain ⟨hcounts, hparts⟩ := h
    have hout m (hm : m ∈ statementParts n) : outcomesTo d false m = waysTo d m := ih (hparts m hm)
    refine (outcomesTo_subset_waysTo (d + 1) n).antisymm ?_
    refine Outcomes.ofNodeBy_mono (fun m hm => (hout m hm).superset) (fun _ => id) ?_
    intro hn finalizer hf
    rw [← Outcomes.guarded_congr hout hn,
      ← hout _ (Outcomes.mem_statementParts_of_finalizer hn hf)]
    have hlast := hcounts hn finalizer hf
    simp only [Outcomes.subset_iff, Outcomes.normal_mem_lastly, Outcomes.jump_mem_lastly]
    refine ⟨fun h => ⟨h.1, fun _ => h.2 h.1⟩, fun k => ?_⟩
    rintro (hk | ⟨-, hk⟩)
    · exact .inl hk
    · by_cases hends : .normal ∈ Outcomes.guarded (outcomesTo d true) n
      · rcases hlast hends with hnormal | hjumps
        · exact .inr ⟨fun _ => hnormal, hk⟩
        · exact .inl (hjumps (Finset.mem_erase.2 ⟨nofun, hk⟩))
      · exact .inr ⟨fun h => absurd h hends, hk⟩

lemma lastCounts_iff {d d' : Nat} {n : Node}
    (h : ∀ b, ∀ m ∈ statementParts n, outcomesTo d b m = outcomesTo d' b m)
    (hn : n.construct = .tryCatch) : LastCounts d n ↔ LastCounts d' n := by
  refine forall₂_congr fun finalizer hf => ?_
  rw [Outcomes.guarded_congr (h true) hn, Outcomes.guarded_congr (h false) hn,
    h false _ (Outcomes.mem_statementParts_of_finalizer hn hf)]

/-- Whether all last parts count does not depend on the number of levels if there are enough. -/
lemma lastPartsCount_eq {d d' : Nat} {n : Node} (hd : n.height ≤ d) (hd' : n.height ≤ d') :
    LastPartsCount d n = LastPartsCount d' n := by
  -- whether a last part counts depends on the views, which go together with it from level to level
  suffices hboth : ((outcomesTo d · n), LastPartsCount d n) = ((outcomesTo d' · n), _) from
    (Prod.ext_iff.1 hboth).2
  refine eq_of_height_le (f := fun d n => ((outcomesTo d · n), LastPartsCount d n)) ?_ hd hd'
  intro d d' n h
  have hout b m (hm : m ∈ statementParts n) : outcomesTo d b m = outcomesTo d' b m :=
    congrFun (Prod.ext_iff.1 (h m hm)).1 b
  refine Prod.ext (funext fun b => Outcomes.viewOf_congr hout b) (propext (and_congr ?_ ?_))
  · exact forall_congr' fun hn => lastCounts_iff hout hn
  · exact forall₂_congr fun m hm => (Prod.ext_iff.1 (h m hm)).2.to_iff

/-- The last parts of all try statements in the body of a function count as the rules say. -/
def BodyLastPartsCount (d : Nat) (n : Node) : Prop :=
  ∀ body ∈ n.field? "body", LastPartsCount d body

instance (d : Nat) (n : Node) : Decidable (BodyLastPartsCount d n) :=
  inferInstanceAs (Decidable (∀ body ∈ n.field? "body", LastPartsCount d body))

lemma bodyLastPartsCount_iff {d d' : Nat} {n : Node} (hd : n.height ≤ d + 1)
    (hd' : n.height ≤ d' + 1) : BodyLastPartsCount d n ↔ BodyLastPartsCount d' n := by
  refine forall₂_congr fun body hbody => ?_
  have hlt := Node.height_lt_of_field? hbody
  exact (lastPartsCount_eq (by omega) (by omega)).to_iff

lemma bodyOutcomesTo_eq_bodyWaysTo {d : Nat} {n : Node} (h : BodyLastPartsCount d n) :
    bodyOutcomesTo d n = bodyWaysTo d n :=
  Outcomes.ofBody_congr fun m hm => outcomesTo_eq_waysTo (h m hm)

lemma bodyOutcomesTo_subset_bodyWaysTo (d : Nat) (n : Node) :
    bodyOutcomesTo d n ⊆ bodyWaysTo d n :=
  Outcomes.ofBody_mono fun m _ => outcomesTo_subset_waysTo d m

/-! ### Skeletons -/

mutual

/-- The ways in which control can leave a skeleton. -/
def Skeleton.outcomes (hopeful : Bool) : Skeleton → Outcomes
  | .pass => {.normal}
  | .plain _ => {.normal}
  | .leave k _ => {.jump k}
  | .andThen first _ rest => (first.outcomes hopeful).andThen (rest.outcomes hopeful)
  | .branch _ yes no => yes.outcomes hopeful ∪ no.outcomes hopeful
  | .attempt body handler => body.outcomes hopeful ∪ handler.outcomes hopeful
  | .joined _ s => s.outcomes hopeful
  | .bareLoop _ => {.normal}
  | .loop _ body => (body.outcomes hopeful).loop
  | .doWhile _ body => (body.outcomes hopeful).doWhile hopeful
  | .switch _ cases => .switch cases.hasDefault (cases.outcomes hopeful)
  | .finally s last => .lastly (s.outcomes true) (s.outcomes hopeful) (last.outcomes hopeful)

/-- The ways in which control can leave each of some cases. -/
def Cases.outcomes (hopeful : Bool) : Cases → List Outcomes
  | .nil => []
  | .cons _ body rest => body.outcomes hopeful :: rest.outcomes hopeful

end

section

variable {skeleton : Node → Skeleton} (b : Bool)

lemma Skeleton.outcomes_sequence (ns : List Node) :
    (Skeleton.sequence skeleton ns).outcomes b =
      .sequence (fun n => (skeleton n).outcomes b) ns := by
  induction ns with
  | nil => rfl
  | cons n ns ih => rw [Skeleton.sequence, Skeleton.outcomes, ih, Outcomes.sequence]

lemma Skeleton.outcomes_statements (ns : List Node) :
    (Skeleton.statements skeleton ns).outcomes b =
      .statements (fun n => (skeleton n).outcomes b) ns :=
  outcomes_sequence b _

lemma Skeleton.outcomes_part (p : Option Node) :
    (Skeleton.part skeleton p).outcomes b = .part (fun n => (skeleton n).outcomes b) p := by
  cases p <;> rfl

lemma Skeleton.outcomes_guarded (n : Node) :
    (Skeleton.guarded skeleton n).outcomes b = .guarded (fun n => (skeleton n).outcomes b) n := by
  unfold Skeleton.guarded Outcomes.guarded
  cases n.field? "handler" with
  | none => exact outcomes_part b _
  | some handler => rw [Skeleton.outcomes, outcomes_part, outcomes_part]

lemma Cases.outcomes_ofNodes (cs : List Node) :
    (Cases.ofNodes skeleton cs).outcomes b =
      cs.map fun c => .statements (fun n => (skeleton n).outcomes b) (caseStatements c) := by
  induction cs with
  | nil => rfl
  | cons c cs ih =>
    rw [Cases.ofNodes, Cases.outcomes, ih, Skeleton.outcomes_statements, List.map_cons]

lemma Skeleton.outcomes_ofNode (n : Node) :
    (Skeleton.ofNode skeleton n).outcomes b =
      .viewOf b (fun b m => (skeleton m).outcomes b) n := by
  unfold Skeleton.ofNode Outcomes.viewOf Outcomes.ofNodeBy
  cases n.construct with
  | block | elseClause | switchCase | switchDefault => exact outcomes_statements b _
  | conditional =>
    simp only [Skeleton.outcomes, outcomes_part]
  | forLoop | forEach | whileLoop =>
    dsimp only
    unfold Skeleton.loopOf
    cases n.field? "body" with
    | none => rfl
    | some body => rfl
  | doWhile => simp only [Skeleton.outcomes, outcomes_part]
  | switch => simp only [Skeleton.outcomes, Cases.outcomes_ofNodes, Cases.hasDefault_ofNodes]
  | tryCatch =>
    dsimp only
    unfold Skeleton.tryOf
    cases n.field? "finalizer" with
    | none => exact outcomes_guarded b n
    | some finalizer => simp only [Skeleton.outcomes, outcomes_guarded]
  | labeled => exact outcomes_part b _
  | returnJump | throwJump | breakJump | continueJump => rfl
  | declaration | function | classDef | statement | ignored => rfl

end

/-- The skeleton of a node has the outcomes of the node. -/
lemma outcomes_skeleton (d : Nat) (b : Bool) (n : Node) :
    (skeleton d n).outcomes b = outcomesTo d b n := by
  induction d generalizing b n with
  | zero => rfl
  | succ d ih => simp only [skeleton, outcomesTo, Skeleton.outcomes_ofNode, ih]

lemma outcomes_ofBody (d : Nat) (n : Node) :
    (Skeleton.ofBody (skeleton d) n).outcomes false = bodyOutcomesTo d n := by
  unfold Skeleton.ofBody bodyOutcomesTo Outcomes.ofBody
  cases n.field? "body" with
  | none => rfl
  | some body =>
    dsimp only
    split_ifs
    · exact outcomes_skeleton d false body
    · rfl

end Arbor.Flow
