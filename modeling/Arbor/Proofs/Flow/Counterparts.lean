import Arbor.Proofs.Comments
import Arbor.Proofs.Walks

/-!
# Comments in front of the flow analysis

What the flow analysis tells from the form of a node alone, it tells of the counterpart in a tree
with comments as well. There are two exceptions. Where the analysis looks into groupings for the
expression inside, it takes a comment that comes first in one for the expression. This concerns the
conditions of loops, what is written to, and values of which something is used. And a comment that
comes last in a labeled statement without a body is taken for the statement.
-/

namespace Arbor

namespace Node

lemma unwrapped_eq (n : Node) : n.unwrapped =
    if isWrapper n.kind then (n.children.head?.map unwrapped).getD n else n := by
  obtain ⟨k, kind, text, span, cs, fields⟩ := n
  cases cs with
  | nil => simp [unwrapped, unwrappedFrom, children, numbered]
  | cons c cs =>
    rw [unwrapped, unwrappedFrom]
    rfl

/-- Inside the groupings there is no further grouping around anything. -/
lemma unwrapped_unwrapped (n : Node) : n.unwrapped.unwrapped = n.unwrapped := by
  rw [n.unwrapped_eq]
  split_ifs with hwrapper
  · cases hc : n.children.head? with
    | none => simp [unwrapped_eq n, hwrapper, hc]
    | some c => exact unwrapped_unwrapped c
  · rw [n.unwrapped_eq, if_neg hwrapper]
termination_by n.size
decreasing_by exact size_lt_of_mem_children (List.mem_of_head? hc)

end Node

namespace Flow

/-! ### Places that matter -/

/-- The parts of a loop that are looked into: its condition, or what it writes to. -/
def headerParts (n : Node) : List Node :=
  match n.construct with
  | .forLoop | .whileLoop => (n.field? "condition").toList
  | .forEach => if (n.field? "kind").isSome then [] else (n.field? "left").toList
  | _ => []

/-- Both sides of a choice between two values. -/
def branches (n : Node) : List Node :=
  match n.kind with
  | "ternary_expression" | "conditional_expression" =>
    (n.field? "consequence").toList ++ (n.field? "alternative").toList
  | _ => []

/-- The parts of an expression that are looked into: what it writes to, or the value of which it
uses something, where a choice may be between such values. -/
def operandParts (n : Node) : List Node :=
  match expressionForm n with
  | .assignment => (n.field? "left").toList
  | .update => (n.field? "argument").toList
  | .use receiver => (n.field? receiver).toList.flatMap fun r => r :: branches r.unwrapped
  | _ => []

/-- The parts of a node that are looked into. -/
def openedParts (n : Node) : List Node := headerParts n ++ operandParts n

/-- The places between the children of a node of the tree at which a comment is not taken for a part
of the node. -/
structure Spares (root n : Node) (marks : List Bool) : Prop where
  first : isWrapper n.kind = true → Node.LookedInto openedParts isWrapper root n →
    marks.head? ≠ some false
  last : n.construct = .labeled → n.field? "body" = none → marks.getLast? ≠ some false

lemma spares_replicate (root n : Node) :
    Spares root n (List.replicate n.children.length true) := by
  refine ⟨fun _ _ => ?_, fun _ _ => ?_⟩
  · simp [List.head?_replicate]
  · simp [List.getLast?_replicate]

/-- The relation pairs nodes with their counterparts, and what the analysis takes out of a node by
the place of a child, it takes out of the counterpart too. -/
structure Mirrors (spares : Node → List Bool → Prop) (E : Node → Node → Prop) : Prop extends
    Node.Counterparts spares E where
  opened {n n' m m' : Node} (hn : E n n') (hm : m ∈ openedParts n) (h : E m m') :
    E m.unwrapped m'.unwrapped
  labeled {n n' : Node} (h : E n n') (hlabeled : n.construct = .labeled) :
    Option.Rel E ((n.field? "body").or n.children.getLast?)
      ((n'.field? "body").or n'.children.getLast?)

end Flow

/-! ### Comments -/

namespace Node.IsComment

open Arbor.Flow

variable {n : Node}

lemma construct (h : n.IsComment) : n.construct = .ignored := by
  rw [Node.construct, h.kind]
  rfl

lemma expressionForm (h : n.IsComment) : expressionForm n = .compound := by
  rw [Flow.expressionForm, h.kind]
  rfl

end Node.IsComment

/-! ### Counterparts -/

namespace Node.Counterparts

open Arbor.Flow

variable {spares : Node → List Bool → Prop} {E : Node → Node → Prop} {n n' : Node}
  (hE : Counterparts spares E)
include hE

lemma expressionForm (h : E n n') : expressionForm n' = expressionForm n := by
  rw [Flow.expressionForm, Flow.expressionForm, hE.kind h]

lemma isTruthyLiteral (h : E n.unwrapped n'.unwrapped) :
    isTruthyLiteral n' = isTruthyLiteral n := by
  rw [Flow.isTruthyLiteral, Flow.isTruthyLiteral, hE.kind h, hE.text h]

lemma isNullishLiteral (h : E n.unwrapped n'.unwrapped) :
    isNullishLiteral n' = isNullishLiteral n := by
  rw [Flow.isNullishLiteral, Flow.isNullishLiteral, hE.kind h, hE.text h]

lemma isNullishReceiver (h : E n.unwrapped n'.unwrapped)
    (hbranches : ∀ m ∈ branches n.unwrapped, ∀ m', E m m' → E m.unwrapped m'.unwrapped) :
    isNullishReceiver n' = isNullishReceiver n := by
  have hchain : (n'.unwrapped.children.any fun c => c.kind == "optional_chain")
      = n.unwrapped.children.any fun c => c.kind == "optional_chain" := by
    refine (hE.children h).any (fun c _ c' hcc' => by rw [hE.kind hcc']) fun c' hc' => ?_
    rw [hc'.kind]
    rfl
  have hliteral : Flow.isNullishLiteral n'.unwrapped = Flow.isNullishLiteral n.unwrapped := by
    apply hE.isNullishLiteral
    rwa [unwrapped_unwrapped, unwrapped_unwrapped]
  have hchoice {name : String}
      (hname : ∀ m, n.unwrapped.field? name = some m → m ∈ branches n.unwrapped) :
      (n'.unwrapped.field? name).any Flow.isNullishLiteral
        = (n.unwrapped.field? name).any Flow.isNullishLiteral := by
    match hm : n.unwrapped.field? name, n'.unwrapped.field? name, hE.field? h name with
    | none, none, .none => rfl
    | some m, some m', .some hmm' =>
      exact hE.isNullishLiteral (hbranches m (hname m hm) m' hmm')
  simp only [Flow.isNullishReceiver, hE.kind h]
  split
  case h_4 _ hkind | h_5 _ hkind =>
    have hmem (m : Node) (hm : n.unwrapped.field? "consequence" = some m ∨
        n.unwrapped.field? "alternative" = some m) : m ∈ branches n.unwrapped := by
      rw [branches, hkind]
      simpa using hm
    rw [hchoice fun m hm => hmem m (.inl hm), hchoice fun m hm => hmem m (.inr hm)]
  case h_6 => exact hliteral
  all_goals rw [hE.isSome_field? h, hchain]

lemma containsLoopExit (h : E n n') : containsLoopExit n' = containsLoopExit n := by
  let leaves (kind : String) : Bool :=
    Construct.ofKind kind == .breakJump || Construct.ofKind kind == .returnJump
  have hany (m : Node) : Flow.containsLoopExit m =
      m.children.any fun c => c.preorder.any fun d => leaves d.kind := by
    rw [Bool.eq_iff_iff, Flow.containsLoopExit, List.any_eq_true, List.any_eq_true]
    simp only [mem_descendants, Inside, List.any_eq_true]
    constructor
    · rintro ⟨d, ⟨c, hc, hd⟩, hleaves⟩
      exact ⟨c, hc, d, hd, hleaves⟩
    · rintro ⟨c, hc, d, hd, hleaves⟩
      exact ⟨d, ⟨c, hc, hd⟩, hleaves⟩
  have hcomment : leaves "comment" = false := rfl
  rw [hany, hany]
  refine (hE.children h).any (fun c _ c' hcc' => hE.any_preorder hcomment hcc') fun c' hc' => ?_
  rw [c'.preorder_eq, hc'.children]
  simp [hc'.kind, hcomment]

lemma alwaysHolds (h : E n n')
    (hcondition : ∀ m ∈ n.field? "condition", ∀ m', E m m' → E m.unwrapped m'.unwrapped) :
    alwaysHolds n' = alwaysHolds n := by
  rw [Flow.alwaysHolds, Flow.alwaysHolds]
  match hm : n.field? "condition", n'.field? "condition", hE.field? h "condition" with
  | none, none, .none => rw [hE.construct h]
  | some m, some m', .some hmm' =>
    have hinner := hcondition m hm m' hmm'
    have htruthy : Flow.isTruthyLiteral m'.unwrapped = Flow.isTruthyLiteral m.unwrapped := by
      apply hE.isTruthyLiteral
      rwa [unwrapped_unwrapped, unwrapped_unwrapped]
    simp only [hE.kind hinner, htruthy]

lemma isInfiniteLoop (h : E n n')
    (hcondition : ∀ m ∈ n.field? "condition", ∀ m', E m m' → E m.unwrapped m'.unwrapped) :
    isInfiniteLoop n' = isInfiniteLoop n := by
  rw [Flow.isInfiniteLoop, Flow.isInfiniteLoop, hE.alwaysHolds h hcondition,
    hE.any_field? h "body" fun _ _ => hE.containsLoopExit]

lemma declaresValue (h : E n n') : declaresValue n' = declaresValue n := by
  rw [Flow.declaresValue, Flow.declaresValue]
  match n.field? "return_type", n'.field? "return_type", hE.field? h "return_type" with
  | none, none, .none => rfl
  | some m, some m', .some hm => simp only [hE.text hm]

/-- Comments are no statements. -/
lemma statements {ms ms' : List Node} (h : Spread IsComment E ms ms') :
    List.Forall₂ E (ms.filter (·.construct != .ignored)) (ms'.filter (·.construct != .ignored)) :=
  h.forall₂_filter (fun m m' hm => by rw [hE.construct hm]) fun m' hm' => by
    rw [hm'.construct]
    rfl

lemma switchCases (h : E n n') :
    List.Forall₂ E (Walker.switchCases n) (Walker.switchCases n') := by
  have hcases := hE.children (hE.field?_getD h "body")
  refine hcases.forall₂_filter (fun m m' hm => by rw [hE.construct hm]) fun m' hm' => ?_
  rw [hm'.construct]
  rfl

end Node.Counterparts

/-! ### Comments at places that are spared -/

namespace Flow

variable {root : Node} {E : Node → Node → Prop} (hE : Node.Counterparts (Spares root) E)
include hE

/-- No comment comes first in a grouping that is looked into. -/
lemma unwrapped_counterpart {n n' : Node} (h : E n n')
    (hn : Node.LookedInto openedParts isWrapper root n) : E n.unwrapped n'.unwrapped := by
  rw [n.unwrapped_eq, n'.unwrapped_eq, hE.kind h]
  split_ifs with hwrapper
  · obtain ⟨marks, hspared, -, hinner⟩ := hE.inner h
    match hc : n.children.head?, n'.children.head?, hinner.head? (hspared.first hwrapper hn) with
    | none, none, .none => exact h
    | some c, some c', .some hcc' =>
      exact unwrapped_counterpart hcc' (.inside hn hwrapper hc)
  · exact h
termination_by n.size
decreasing_by exact Node.size_lt_of_mem_children (List.mem_of_head? hc)

theorem mirrors_of_spares (hroot : ∀ n n', E n n' → n ∈ root.preorder) :
    Mirrors (Spares root) E where
  toCounterparts := hE
  opened hn hm h := unwrapped_counterpart hE h (.part (hroot _ _ hn) hm)
  labeled {n n'} h hlabeled := by
    match hbody : n.field? "body", n'.field? "body", hE.field? h "body" with
    | none, none, .none =>
      obtain ⟨marks, hspared, -, hinner⟩ := hE.inner h
      exact hinner.getLast? (hspared.last hlabeled hbody)
    | some m, some m', .some hm => exact .some hm

end Flow

end Arbor
