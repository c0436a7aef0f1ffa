import Arbor.Proofs.Flow.Comments
import Arbor.Proofs.Symbols.Comments

/-!
# Comments are not noticed

Neither analysis takes notice of comments, wherever they are put into a tree, but for the few places
at which a comment is taken for a part of the node that it stands in. The analysis of names gives
the same model. The flow analysis gives the same report, the nodes that the points of the graph were
built for apart, which are each other's counterparts.
-/

namespace Arbor

/-- The analyses say the same of a tree and of the tree with comments at places that they spare. -/
theorem analyses_commented (t t' : Tree) :
    ((Node.root t).Commented (Symbols.Spares (.root t)) t' →
      ∀ o, Symbols.analyze o (.root t') = Symbols.analyze o (.root t)) ∧
    ((Node.root t).Commented (Flow.Spares (.root t)) t' →
      ∃ E, Node.Counterparts (Flow.Spares (.root t)) E ∧ E (.root t) (.root t') ∧ ∀ o, ∃ r r',
        Flow.analyze o (.root t) = .ok r ∧ Flow.analyze o (.root t') = .ok r' ∧ r.Alike E r') := by
  constructor
  · intro h o
    obtain ⟨E, hE, hroots, hmem⟩ := h.exists_counterparts
    exact Symbols.analyze_counterpart (Symbols.mirrors_of_spares hE hmem) o hroots
  · intro h
    obtain ⟨E, hE, hroots, hmem⟩ := h.exists_counterparts
    have hmirrors := Flow.mirrors_of_spares hE hmem
    exact ⟨E, hE, hroots, fun o => Flow.analyze_counterpart hmirrors o hroots⟩

/-! ### Comments in an else clause and in brackets -/

section

variable {spares : Node → List Bool → Prop}
  (hspares : ∀ n : Node, spares n (List.replicate n.children.length true))
include hspares

/-- Comments in the children are comments in the tree. -/
lemma Node.Commented.of_children {n : Node} {t : Tree} (hkind : t.kind = n.kind)
    (htext : t.text = n.text) (hspan : t.span = n.span) (hfields : t.fields = n.tree.fields)
    (h : List.Forall₂ (Node.Commented spares) n.children t.children) : n.Commented spares t := by
  refine .intro hkind htext hspan (fun name => ?_) (hspares n) (.of_forall₂ h)
  rw [hfields]
  cases n.tree.fields.get? name with
  | none => rfl
  | some i => rw [Option.map_some, shifted_replicate]

lemma Node.Commented.refl (n : Node) : n.Commented spares n.tree := by
  refine .of_children hspares rfl rfl rfl rfl ?_
  have hchildren : n.tree.children = n.children.map Node.tree := (Node.map_tree_numbered ..).symm
  rw [hchildren, List.forall₂_map_right_iff]
  refine List.forall₂_same.2 fun c hc => ?_
  exact refl c
termination_by n.size
decreasing_by exact Node.size_lt_of_mem_children hc

end

/-- A comment. -/
def note : Tree := .leaf "comment" "/**/"

lemma isComment_note : note.IsComment := ⟨rfl, rfl⟩

/-- A tree in brackets, with more in front of it. -/
def inBrackets (before : List Tree) (t : Tree) : Tree :=
  ⟨"parenthesized_expression", "", .zero, before ++ [t], ∅⟩

/-- An else clause with a block that declares a variable, and with more around the block. -/
def elseClause (before after : List Tree) : Tree :=
  let declarator : Tree :=
    ⟨"variable_declarator", "x", .zero, [.leaf "identifier" "x"], .ofList [("name", 0)]⟩
  let declaration : Tree := ⟨"lexical_declaration", "let x;", .zero, [declarator], ∅⟩
  ⟨"else_clause", "", .zero,
    before ++ ⟨"statement_block", "{ let x; }", .zero, [declaration], ∅⟩ :: after, ∅⟩

/-- A conditional with an else clause, on a name in brackets with more in front of it. -/
def ifElse (before : List Tree) (clause : Tree) : Tree :=
  ⟨"program", "", .zero, [⟨"if_statement", "", .zero,
    [inBrackets before (.leaf "identifier" "a"), .leaf "statement_block" "{}", clause],
    .ofList [("condition", 0), ("consequence", 1), ("alternative", 2)]⟩], ∅⟩

/-- A loop on a literal in brackets that always holds, with more in front of the literal. -/
def loopOnTrue (before : List Tree) : Tree :=
  ⟨"program", "", .zero, [⟨"while_statement", "", .zero,
    [inBrackets before (.leaf "true" "true"), .leaf "statement_block" "{}"],
    .ofList [("condition", 0), ("body", 1)]⟩], ∅⟩

section

variable {spares : Node → List Bool → Prop}
  (hspares : ∀ n : Node, spares n (List.replicate n.children.length true))
include hspares

lemma commented_inBrackets {k : Nat} {t : Tree}
    (hspared : spares ⟨k, inBrackets [] t⟩ [false, true]) :
    Node.Commented spares ⟨k, inBrackets [] t⟩ (inBrackets [note] t) :=
  .intro rfl rfl rfl (fun _ => rfl) hspared (.new isComment_note (.old (.refl hspares _) .nil))

/-- Comments in the condition and in the else clause, which are the nodes 2 and 5. -/
lemma commented_ifElse {before : List Tree} {clause clause' : Tree}
    (hcondition : Node.Commented spares ⟨2, inBrackets [] (.leaf "identifier" "a")⟩
      (inBrackets before (.leaf "identifier" "a")))
    (hclause : Node.Commented spares ⟨5, clause⟩ clause') :
    (Node.root (ifElse [] clause)).Commented spares (ifElse before clause') := by
  refine .of_children hspares rfl rfl rfl rfl (.cons (.of_children hspares rfl rfl rfl rfl ?_) .nil)
  exact .cons hcondition (.cons (.refl hspares _) (.cons hclause .nil))

/-- A comment in front of the condition, and one behind the block in the else clause. -/
lemma commented_around
    (hcondition : spares ⟨2, inBrackets [] (.leaf "identifier" "a")⟩ [false, true])
    (hclause : spares ⟨5, elseClause [] []⟩ [true, false]) :
    (Node.root (ifElse [] (elseClause [] []))).Commented spares
      (ifElse [note] (elseClause [] [note])) := by
  refine commented_ifElse hspares (commented_inBrackets hspares hcondition) ?_
  refine .intro rfl rfl rfl (fun _ => rfl) hclause ?_
  exact .old (.refl hspares _) (.new isComment_note .nil)

end

/-- A comment goes unnoticed in front of the condition of a conditional, which is not looked into,
and behind the block in an else clause. -/
theorem analyses_commented_around :
    let t := ifElse [] (elseClause [] [])
    let t' := ifElse [note] (elseClause [] [note])
    (Node.root t).Commented (Symbols.Spares (.root t)) t' ∧
    (Node.root t).Commented (Flow.Spares (.root t)) t' ∧
    (∀ o, Symbols.analyze o (.root t') = Symbols.analyze o (.root t)) ∧
    ∃ E, Node.Counterparts (Flow.Spares (.root t)) E ∧ E (.root t) (.root t') ∧ ∀ o, ∃ r r',
      Flow.analyze o (.root t) = .ok r ∧ Flow.analyze o (.root t') = .ok r' ∧ r.Alike E r' := by
  intro t t'
  have htargets : ∀ n ∈ (Node.root t).preorder, Symbols.targets n = [] := by decide +kernel
  have hopened : ∀ n ∈ (Node.root t).preorder, Flow.openedParts n = [] := by decide +kernel
  have hnames : (Node.root t).Commented (Symbols.Spares (.root t)) t' := by
    refine commented_around (Symbols.spares_replicate _) ⟨?_, ?_⟩ ⟨?_, ?_⟩
    · exact fun _ h => absurd h (Node.not_lookedInto htargets)
    · exact fun h => absurd h (by decide)
    · exact fun h => absurd h (by decide)
    · simp
  have hflow : (Node.root t).Commented (Flow.Spares (.root t)) t' := by
    refine commented_around (Flow.spares_replicate _) ⟨?_, ?_⟩ ⟨?_, ?_⟩
    · exact fun _ h => absurd h (Node.not_lookedInto hopened)
    · exact fun h => absurd h (by decide)
    · exact fun h => absurd h (by decide)
    · exact fun h => absurd h (by decide)
  obtain ⟨hmodel, hreport⟩ := analyses_commented t t'
  exact ⟨hnames, hflow, hmodel hnames, hreport hflow⟩

/-- A comment in front of the block in an else clause is taken for the statement in the clause, so
that the variable is not declared. A comment in front of a literal in brackets is taken for the
condition of the loop, so that the loop is not said to have no end. -/
theorem comments_noticed :
    let declared (clause : Tree) :=
      (Symbols.analyze { includeBuiltins := false } (.root (ifElse [] clause))).symbols.map (·.name)
    let endless (t : Tree) := (Flow.analyze {} (.root t)).toOption.map (·.infiniteLoops.size)
    (Node.root (ifElse [] (elseClause [] []))).Commented (fun _ _ => True)
        (ifElse [] (elseClause [note] [])) ∧
      declared (elseClause [] []) = #["x"] ∧ declared (elseClause [note] []) = #[] ∧
    (Node.root (loopOnTrue [])).Commented (fun _ _ => True) (loopOnTrue [note]) ∧
      endless (loopOnTrue []) = some 1 ∧ endless (loopOnTrue [note]) = some 0 := by
  have hall (n : Node) : (fun _ _ => True : Node → List Bool → Prop) n
      (List.replicate n.children.length true) := trivial
  refine ⟨?_, by decide +kernel, by decide +kernel, ?_, by decide +kernel, by decide +kernel⟩
  · exact commented_ifElse hall (.refl hall _) (.intro rfl rfl rfl (fun _ => rfl) trivial
      (.new isComment_note (.old (.refl hall _) .nil)))
  · refine .of_children hall rfl rfl rfl rfl (.cons (.of_children hall rfl rfl rfl rfl ?_) .nil)
    exact .cons (commented_inBrackets hall trivial) (.cons (.refl hall _) .nil)

end Arbor
