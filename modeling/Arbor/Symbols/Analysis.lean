import Arbor.Symbols.Declare

/-!
The analysis of the names in a program: first all declarations, then all uses, so that a name may be
used before it is declared. Every name that a program spells is a use unless it declares something,
and the use belongs to the innermost scope that a node around it opens. A name on the left of an
assignment, under an increment or decrement, or on the left of a loop header that declares nothing
is written; all others are read.
-/

namespace Arbor.Symbols

/-! ### Uses -/

/-- A name where it is used. -/
structure Occurrence where
  node : Node
  scope : Nat
  kind : UseKind

/-- What a node does to the names below it. -/
inductive UseForm where
  | name
  | assignment
  | update
  /-- A loop whose header declares nothing. -/
  | loopTarget
  /-- It holds no uses. -/
  | importing
  | other
  deriving DecidableEq, Repr

/-- The form of a node. -/
def UseForm.of (n : Node) : UseForm :=
  match n.kind with
  | "identifier" | "shorthand_property_identifier" => name
  | "assignment_expression" => assignment
  | "update_expression" => update
  | "for_in_statement" => if (n.field? "kind").isNone then loopTarget else other
  | "import_statement" => importing
  | _ => other

/-- What stands inside the brackets around a tree numbered from `k` on, if anything does. -/
def ungroupedFrom? (k : Nat) : Tree → Option Node
  | t@⟨kind, _, _, children, _⟩ =>
    if kind = "parenthesized_expression" then
      match children with
      | c :: _ => ungroupedFrom? (k + 1) c
      | [] => none
    else some ⟨k, t⟩

/-- What stands inside the brackets around the node, if anything does. -/
def ungrouped? (n : Node) : Option Node :=
  ungroupedFrom? n.number n.tree

theorem size_le_of_ungroupedFrom? {k : Nat} {t : Tree} {m : Node}
    (h : ungroupedFrom? k t = some m) : m.size ≤ t.size := by
  fun_induction ungroupedFrom? k t with
  | case1 k text span fields c rest _ ih =>
    have hc : c.size < Tree.size ⟨"parenthesized_expression", text, span, c :: rest, fields⟩ :=
      Tree.size_lt_of_mem (List.mem_cons_self ..)
    exact Nat.le_trans (ih h) (Nat.le_of_lt hc)
  | case2 => cases h
  | case3 => cases h; exact Nat.le_refl _

/-- What stands inside the brackets around a node below `n` lies below `n`. -/
def belowUngrouped? {n : Node} (c : Below n) : Option (Below n) :=
  match h : ungrouped? c.1 with
  | some m => some ⟨m, Nat.lt_of_le_of_lt (size_le_of_ungroupedFrom? h) c.2⟩
  | none => none

namespace Draft

/-- The scope that a node opens, the latest if there are several. -/
def scopeOf? (d : Draft) (n : Node) : Option Nat :=
  d.scopeOf.lookup n.number

/-- Whether a node spells a declared name. -/
def isDeclared (d : Draft) (n : Node) : Bool :=
  d.declared.contains n.number

/-- Whether the scope of a node lies too deep. -/
def isTruncated (d : Draft) (n : Node) : Bool :=
  d.truncated.contains n.number

end Draft

section

variable (d : Draft) {n : Node} (visit : Below n → Nat → List Occurrence)

/-- The uses below all parts of a node. -/
def partUses (scope : Nat) : List Occurrence :=
  n.below.flatMap (visit · scope)

/-- The uses in what is written to. -/
def targetUses (scope : Nat) (target : Below n) : List Occurrence :=
  match belowUngrouped? target with
  | none => []
  | some t =>
    if UseForm.of t.1 = .name && !d.isDeclared t.1 then [⟨t.1, scope, .write⟩]
    else visit t scope

/-- The uses at and below a node, given those below its parts. -/
def usesStep (n : Node) (visit : Below n → Nat → List Occurrence) (around : Nat) :
    List Occurrence :=
  if d.isTruncated n then []
  else
    let scope := (d.scopeOf? n).getD around
    match UseForm.of n with
    | .importing => []
    | .name => if d.isDeclared n then [] else [⟨n, scope, .read⟩]
    | .assignment =>
      (n.belowField? "left").toList.flatMap (targetUses d visit scope)
        ++ (n.belowField? "right").toList.flatMap (visit · scope)
    | .update =>
      match n.belowField? "argument" with
      | some argument => targetUses d visit scope argument
      | none => partUses visit scope
    | .loopTarget =>
      n.below.flatMap fun c =>
        if (n.field? "left").any c.1.same then targetUses d visit scope c else visit c scope
    | .other => partUses visit scope

end

/-- The uses of names at and below a node, in a scope around it. -/
def occurrences (d : Draft) (n : Node) (around : Nat) : List Occurrence :=
  usesStep d n (fun c scope => occurrences d c.1 scope) around
termination_by n.size
decreasing_by exact c.2

/-! ### The analysis -/

namespace Model

/-- Adds a use to the symbol that it stands for, or to the unresolved uses. -/
def addUse (m : Model) (x : Occurrence) : Model :=
  match m.resolveId? x.node.text x.scope with
  | some id =>
    { m with
      symbols := m.symbols.modify id fun s =>
        { s with uses := s.uses.push ⟨x.node.span, x.kind⟩ } }
  | none =>
    { m with unresolved := m.unresolved.push ⟨x.node.text, x.node.span, x.scope⟩ }

end Model

/-- Analyzes the names in a program. -/
def analyze (o : Options) (root : Node) : Model :=
  let d := Draft.ofRoot o root
  if o.references then (occurrences d root Model.globalScope).foldl Model.addUse d.model
  else d.model

end Arbor.Symbols
