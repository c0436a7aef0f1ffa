import Arbor.Proofs.Comments
import Arbor.Symbols.Analysis

/-!
# Comments in an outline

The outline of a tree with comments is the outline of the tree, with the counterparts of its nodes,
but for nodes that hold nothing. There is one exception. A comment that comes first in the else
clause of a conditional is taken for the statement inside. The uses of names have another: where
something is written to, a comment that comes first in brackets is taken for what they hold.
-/

namespace Arbor.Symbols

/-! ### Places that matter -/

/-- What a node writes to. -/
def targets (n : Node) : List Node :=
  match UseForm.of n with
  | .assignment | .loopTarget => (n.field? "left").toList
  | .update => (n.field? "argument").toList
  | _ => []

/-- The sides of a conditional. -/
def sides (n : Node) : List Node :=
  if Outline.Form.of n = .conditional then
    (n.field? "consequence").toList ++ (n.field? "alternative").toList
  else []

/-- The places between the children of a node of the tree at which a comment is not taken for a part
of the node. -/
structure Spares (root n : Node) (marks : List Bool) : Prop where
  brackets : n.kind = "parenthesized_expression" →
    Node.LookedInto targets (· == "parenthesized_expression") root n → marks.head? ≠ some false
  elseClause : n.kind = "else_clause" → (∃ m ∈ root.preorder, n ∈ sides m) →
    marks.head? ≠ some false

lemma spares_replicate (root n : Node) :
    Spares root n (List.replicate n.children.length true) := by
  refine ⟨fun _ _ => ?_, fun _ _ => ?_⟩ <;> simp [List.head?_replicate]

/-- The relation pairs nodes with their counterparts, and what the analysis takes out of a node by
the place of a child, it takes out of the counterpart too. -/
structure Mirrors (spares : Node → List Bool → Prop) (E : Node → Node → Prop) : Prop extends
    Node.Counterparts spares E where
  target {n n' m m' : Node} (hn : E n n') (hm : m ∈ targets n) (h : E m m') :
    Option.Rel E (ungrouped? m) (ungrouped? m')
  side {n n' m m' : Node} (hn : E n n') (hm : m ∈ sides n) (h : E m m')
    (helse : m.kind = "else_clause") : Option.Rel E m.children.head? m'.children.head?

lemma ungrouped?_eq (n : Node) : ungrouped? n =
    if n.kind = "parenthesized_expression" then n.children.head?.bind ungrouped? else some n := by
  obtain ⟨k, kind, text, span, cs, fields⟩ := n
  cases cs with
  | nil =>
    rw [ungrouped?, ungroupedFrom?.eq_def]
    rfl
  | cons c cs =>
    rw [ungrouped?, ungroupedFrom?.eq_def]
    rfl

section

variable {root : Node} {E : Node → Node → Prop} (hE : Node.Counterparts (Spares root) E)
include hE

/-- No comment comes first in brackets that are looked into. -/
lemma rel_ungrouped? {n n' : Node} (h : E n n')
    (hn : Node.LookedInto targets (· == "parenthesized_expression") root n) :
    Option.Rel E (ungrouped? n) (ungrouped? n') := by
  rw [ungrouped?_eq, ungrouped?_eq n', hE.kind h]
  split_ifs with hbrackets
  · obtain ⟨marks, hspared, -, hinner⟩ := hE.inner h
    match hc : n.children.head?, n'.children.head?,
      hinner.head? (hspared.brackets hbrackets hn) with
    | none, none, .none => exact .none
    | some c, some c', .some hcc' =>
      exact rel_ungrouped? hcc' (.inside hn (beq_iff_eq.2 hbrackets) hc)
  · exact .some h
termination_by n.size
decreasing_by exact Node.size_lt_of_mem_children (List.mem_of_head? hc)

theorem mirrors_of_spares (hroot : ∀ n n', E n n' → n ∈ root.preorder) :
    Mirrors (Spares root) E where
  toCounterparts := hE
  target hn hm h := rel_ungrouped? hE h (.part (hroot _ _ hn) hm)
  side hn hm h helse := by
    obtain ⟨marks, hspared, -, hinner⟩ := hE.inner h
    exact hinner.head? (hspared.elseClause helse ⟨_, hroot _ _ hn, hm⟩)

end

/-! ### Outlines -/

/-- The declarations are the same but for the nodes that spell the names, which are paired. -/
structure Declaration.Alike (E : Node → Node → Prop) (x x' : Declaration) : Prop where
  node : Option.Rel E x.node x'.node
  rest : { x' with node := x.node } = x

namespace Outline

/-- The items are the same but for nodes that are paired, and the second list may hold further nodes
without items. -/
inductive Alike (E : Node → Node → Prop) : List Outline → List Outline → Prop where
  | nil : Alike E [] []
  | comment {n : Node} {xs ys : List Outline} : Alike E xs ys → Alike E xs (.node n [] :: ys)
  | node {n n' : Node} {inner inner' xs ys : List Outline} :
    E n n' → Alike E inner inner' → Alike E xs ys →
    Alike E (.node n inner :: xs) (.node n' inner' :: ys)
  | declare {x x' : Declaration} {xs ys : List Outline} :
    x.Alike E x' → Alike E xs ys → Alike E (.declare x :: xs) (.declare x' :: ys)
  | declareOutside {x x' : Declaration} {xs ys : List Outline} :
    x.Alike E x' → Alike E xs ys → Alike E (.declareOutside x :: xs) (.declareOutside x' :: ys)
  | scope {kind : ScopeKind} {owner owner' : Node} {inner inner' xs ys : List Outline} :
    E owner owner' → Alike E inner inner' → Alike E xs ys →
    Alike E (.scope kind owner inner :: xs) (.scope kind owner' inner' :: ys)
  | exporting {inner inner' xs ys : List Outline} :
    Alike E inner inner' → Alike E xs ys →
    Alike E (.exporting inner :: xs) (.exporting inner' :: ys)
  | exportNames {names : List String} {xs ys : List Outline} :
    Alike E xs ys → Alike E (.exportNames names :: xs) (.exportNames names :: ys)

variable {spares : Node → List Bool → Prop} {E : Node → Node → Prop}

lemma Alike.append {xs ys xs' ys' : List Outline} (h : Alike E xs ys) (h' : Alike E xs' ys') :
    Alike E (xs ++ xs') (ys ++ ys') := by
  induction h with
  | nil => exact h'
  | comment _ ih => exact .comment ih
  | node hn hinner _ _ ih => exact .node hn hinner ih
  | declare hx _ ih => exact .declare hx ih
  | declareOutside hx _ ih => exact .declareOutside hx ih
  | scope howner hinner _ _ ih => exact .scope howner hinner ih
  | exporting hinner _ _ ih => exact .exporting hinner ih
  | exportNames _ ih => exact .exportNames ih

lemma alike_flatMap {α β : Type} {New : β → Prop} {R : α → β → Prop} {as : List α} {bs : List β}
    {f : α → List Outline} {g : β → List Outline} (h : Spread New R as bs)
    (old : ∀ a b, R a b → Alike E (f a) (g b)) (new : ∀ b, New b → Alike E [] (g b)) :
    Alike E (as.flatMap f) (bs.flatMap g) :=
  h.flatMap .nil .append (fun a _ => old a) new

lemma alike_flatMap_forall₂ {α β : Type} {R : α → β → Prop} {as : List α} {bs : List β}
    {f : α → List Outline} {g : β → List Outline} (h : List.Forall₂ R as bs)
    (hfg : ∀ a b, R a b → Alike E (f a) (g b)) : Alike E (as.flatMap f) (bs.flatMap g) := by
  induction h with
  | nil => exact .nil
  | cons hab _ ih => exact .append (hfg _ _ hab) ih

/-- Declarations that come from paired names. -/
lemma alike_declare {α : Type} {R : α → α → Prop} {f g : α → Declaration} {names names' : List α}
    (h : List.Forall₂ R names names') (hfg : ∀ a b, R a b → (f a).Alike E (g b)) :
    Alike E (names.map fun a => declare (f a)) (names'.map fun b => declare (g b)) := by
  induction h with
  | nil => exact .nil
  | cons hab _ ih => exact .declare (hfg _ _ hab) ih

lemma alike_of {kind : SymbolKind} {name name' : Node} (hE : Mirrors spares E)
    (h : E name name') : (Declaration.of kind name).Alike E (.of kind name') := by
  refine ⟨.some h, ?_⟩
  rw [Declaration.of, Declaration.of, hE.text h, hE.span h]

/-! ### The outline of a comment -/

lemma form_comment {n : Node} (h : n.IsComment) : Form.of n = .other := by
  have hnone : Form.kinds.find? (·.2.contains "comment") = none := rfl
  rw [Form.of, h.kind, hnone]
  rfl

lemma below_comment {n : Node} (h : n.IsComment) : n.below = [] :=
  List.map_eq_nil_iff.1 (n.map_val_below.trans h.children)

lemma outline_comment {n : Node} (h : n.IsComment) : outline n = [.node n []] := by
  rw [outline, step, form_comment h, below_comment h]
  rfl

lemma alike_outline_comment {n : Node} (h : n.IsComment) : Alike E [] (outline n) := by
  rw [outline_comment h]
  exact .comment .nil

/-! ### The outlines of counterparts -/

section

variable (hE : Mirrors spares E) {n n' : Node}
include hE

lemma form_counterpart (h : E n n') : Form.of n' = Form.of n := by
  rw [Form.of, Form.of, hE.kind h, hE.isSome_field? h]

lemma parameterNames_counterpart (h : E n n') : parameterNames n' = parameterNames n := by
  have hnames : List.Forall₂ E (n.parameters.flatMap Node.boundNames)
      (n'.parameters.flatMap Node.boundNames) :=
    (hE.parameters h).forall₂_flatMap (fun _ _ _ hp => hE.boundNames hp)
      fun _ hp => hp.boundNames
  exact map_eq_of_forall₂ hnames fun _ _ => hE.text

lemma memberVisibility_counterpart {name name' : Node} (h : E n n') (hname : E name name') :
    memberVisibility n' name' = memberVisibility n name := by
  have hmodifier : Option.Rel E (n.children.find? (·.kind == "accessibility_modifier"))
      (n'.children.find? (·.kind == "accessibility_modifier")) := hE.find?_kind h rfl
  rw [memberVisibility, memberVisibility, hE.kind hname, hE.text hname]
  split_ifs
  · rfl
  · generalize n.children.find? _ = x, n'.children.find? _ = x' at hmodifier
    cases hmodifier with
    | none => rfl
    | some hm => simp only [hE.text hm]

lemma alike_declareAll (kind : SymbolKind) {names names' : List Node}
    (h : List.Forall₂ E names names') :
    Alike E (declareAll kind names) (declareAll kind names') :=
  alike_declare h fun _ _ hname => alike_of hE hname

lemma alike_named (kind : SymbolKind) (h : E n n') : Alike E (named n kind) (named n' kind) :=
  alike_declareAll hE kind (forall₂_toList (hE.field? h "name"))

/-- The parts of a node and of its counterpart, as nodes below them. -/
lemma spread_below (h : E n n') :
    Spread (fun c : Below n' => c.1.IsComment) (fun (c : Below n) c' => E c.1 c'.1)
      n.below n'.below := by
  refine .of_map ?_
  rw [n.map_val_below, n'.map_val_below]
  exact hE.children h

lemma spread_children {c : Below n} {c' : Below n'} (h : E c.1 c'.1) :
    Spread (fun c : Below n' => c.1.IsComment) (fun (c : Below n) c' => E c.1 c'.1)
      c.children c'.children := by
  refine .of_map ?_
  rw [c.map_val_children, c'.map_val_children]
  exact hE.children h

lemma rel_belowField? (h : E n n') (name : String) :
    Option.Rel (fun (c : Below n) (c' : Below n') => E c.1 c'.1) (n.belowField? name)
      (n'.belowField? name) := by
  refine rel_of_map ?_
  rw [n.map_val_belowField?, n'.map_val_belowField?]
  exact hE.field? h name

variable (ih : ∀ (c : Below n) (c' : Below n'), E c.1 c'.1 → Alike E (outline c.1) (outline c'.1))

omit hE in
include ih in
lemma alike_visits {cs : List (Below n)} {cs' : List (Below n')}
    (h : Spread (fun c : Below n' => c.1.IsComment) (fun (c : Below n) c' => E c.1 c'.1) cs cs') :
    Alike E (cs.flatMap fun c => outline c.1) (cs'.flatMap fun c => outline c.1) :=
  alike_flatMap h ih fun _ => alike_outline_comment

lemma alike_field (h : E n n') (name : String) {f : Below n → List Outline}
    {g : Below n' → List Outline}
    (hfg : ∀ c ∈ n.belowField? name, ∀ c', E c.1 c'.1 → Alike E (f c) (g c')) :
    Alike E ((n.belowField? name).toList.flatMap f)
      ((n'.belowField? name).toList.flatMap g) := by
  match n.belowField? name, n'.belowField? name, rel_belowField? hE h name, hfg with
  | none, none, .none, _ => exact .nil
  | some c, some c', .some hc, hfg =>
    rw [Option.toList_some, Option.toList_some, List.flatMap_singleton, List.flatMap_singleton]
    exact hfg c rfl c' hc

include ih

lemma alike_part (h : E n n') (name : String) :
    Alike E (part (fun c : Below n => outline c.1) name)
      (part (fun c : Below n' => outline c.1) name) :=
  alike_field hE h name fun c _ => ih c

lemma alike_body {c : Below n} {c' : Below n'} (h : E c.1 c'.1) :
    Alike E (body (fun c : Below n => outline c.1) c)
      (body (fun c : Below n' => outline c.1) c') := by
  rw [body, body, hE.kind h]
  split_ifs
  · exact alike_visits ih (spread_children hE h)
  · exact ih c c' h

/-- The names and the defaults of a target. -/
lemma alike_target (kind : SymbolKind) {c : Below n} {c' : Below n'} (h : E c.1 c'.1) :
    Alike E (declareAll kind c.1.boundNames ++ c.bindingDefaults.flatMap fun c => outline c.1)
      (declareAll kind c'.1.boundNames ++ c'.bindingDefaults.flatMap fun c => outline c.1) := by
  refine .append (alike_declareAll hE kind (hE.boundNames h)) (alike_visits ih (.of_map ?_))
  rw [c.map_val_bindingDefaults, c'.map_val_bindingDefaults]
  exact .of_forall₂ (hE.bindingDefaults h)

lemma alike_functionScope (h : E n n') (isMethod : Bool) :
    Alike E [functionScope n (fun c => outline c.1) isMethod]
      [functionScope n' (fun c => outline c.1) isMethod] := by
  have hparameters : Spread (fun c : Below n' => c.1.IsComment)
      (fun (c : Below n) c' => E c.1 c'.1) n.belowParameters n'.belowParameters := by
    refine .of_map ?_
    rw [n.map_val_belowParameters, n'.map_val_belowParameters]
    exact hE.parameters h
  refine .scope h (.append (.append (.append ?_ ?_) ?_) ?_) .nil
  · split_ifs
    · exact .declare ⟨.none, by rw [hE.span h]⟩ .nil
    · exact .nil
  · rw [form_counterpart hE h]
    split_ifs
    · exact .nil
    · refine alike_declareAll hE _ (forall₂_toList (rel_filter (hE.field? h "name") ?_))
      intro name name' hname
      rw [hE.kind hname]
  · refine alike_flatMap hparameters (fun _ _ => alike_target hE ih .parameter) fun c' hc' => ?_
    have hdefaults : c'.bindingDefaults = [] :=
      List.map_eq_nil_iff.1 (c'.map_val_bindingDefaults.trans hc'.bindingDefaults)
    rw [hc'.boundNames, hdefaults]
    exact .nil
  · exact alike_field hE h "body" fun _ _ _ => alike_body hE ih

lemma alike_namedFunction (h : E n n') (kind : SymbolKind) :
    Alike E (namedFunction n (fun c => outline c.1) kind)
      (namedFunction n' (fun c => outline c.1) kind) := by
  refine .append (alike_declare (forall₂_toList (hE.field? h "name")) fun name name' hname => ?_)
    (alike_functionScope hE ih h _)
  refine ⟨.some hname, ?_⟩
  simp only [Declaration.of, hE.text hname, hE.span hname, parameterNames_counterpart hE h,
    memberVisibility_counterpart hE h hname]

lemma alike_classScope (h : E n n') :
    Alike E [classScope n fun c => outline c.1] [classScope n' fun c => outline c.1] := by
  refine .scope h (.append ?_ ?_) .nil
  · rw [hE.kind h]
    match n.field? "name", n'.field? "name", hE.field? h "name" with
    | none, none, .none => exact .nil
    | some name, some name', .some hname =>
      simp only [Option.toList_some, List.map_cons, List.map_nil]
      split_ifs
      · exact .declare (alike_of hE hname) .nil
      · exact .declareOutside (alike_of hE hname) .nil
  · refine alike_flatMap ((spread_below hE h).filter fun c c' hc => ?_) (fun c c' hc => ?_)
      fun c' hc' => ?_
    · rw [hE.any_same hc (hE.field? h "name")]
    · rw [hE.kind hc]
      split_ifs
      · exact alike_visits ih (spread_children hE hc)
      · exact ih c c' hc
    · rw [hc'.kind]
      exact alike_outline_comment hc'

lemma alike_property (h : E n n') :
    Alike E (property n fun c => outline c.1) (property n' fun c => outline c.1) := by
  refine .append (alike_declare (forall₂_toList (hE.fieldOr? h _ _)) fun name name' hname => ?_)
    (alike_part hE ih h "value")
  refine ⟨.some hname, ?_⟩
  simp only [Declaration.of, hE.text hname, hE.span hname, memberVisibility_counterpart hE h hname]

lemma alike_declarator (h : E n n') :
    Alike E (declarator n fun c => outline c.1) (declarator n' fun c => outline c.1) :=
  .append (alike_part hE ih h "value")
    (alike_field hE h "name" fun _ _ _ => alike_target hE ih .var)

omit ih in
/-- The names that an import brings in, each with the kind of what it names. -/
lemma rel_importedNames {m m' : Node} (h : E m m') :
    List.Forall₂ (fun e e' => e'.1 = e.1 ∧ E e.2 e'.2) (importedNames m) (importedNames m') := by
  rw [importedNames, importedNames, hE.kind h]
  split
  · exact .cons ⟨rfl, h⟩ .nil
  · exact List.rel_map (fun _ _ hn => ⟨rfl, hn⟩) (forall₂_toList (hE.find?_kind h rfl))
  · refine (hE.children h).forall₂_flatMap (fun c _ c' hc => ?_) fun c' hc' => ?_
    · exact List.rel_map (fun _ _ hn => ⟨rfl, hn⟩) (forall₂_toList (hE.fieldOr? hc _ _))
    · rw [Node.fieldOr?, hc'.field?, hc'.field?]
      rfl
  · exact .nil

omit hE ih in
lemma importedNames_comment {m : Node} (h : m.IsComment) : importedNames m = [] := by
  rw [importedNames, h.kind]
  rfl

omit ih in
lemma alike_importing (h : E n n') : Alike E (importing n) (importing n') := by
  refine alike_flatMap_forall₂ (forall₂_toList (hE.find?_kind h rfl)) fun clause clause' hc => ?_
  have hnames : List.Forall₂ (fun e e' => e'.1 = e.1 ∧ E e.2 e'.2)
      (clause.children.flatMap importedNames) (clause'.children.flatMap importedNames) :=
    (hE.children hc).forall₂_flatMap (fun _ _ _ => rel_importedNames hE) fun _ =>
      importedNames_comment
  refine alike_declare hnames fun e e' ⟨hkind, hname⟩ => ⟨.some hname, ?_⟩
  simp only [Declaration.of, hkind, hE.text hname, hE.span hname]

lemma alike_exportItems (h : E n n') :
    Alike E [exportItems n fun c => outline c.1] [exportItems n' fun c => outline c.1] := by
  refine .exporting (alike_flatMap (spread_below hE h) (fun c c' hc => ?_) fun c' hc' => ?_) .nil
  · rw [hE.kind hc]
    split_ifs
    · have hnames : List.Forall₂ E (c.1.children.flatMap fun s => (s.field? "name").toList)
          (c'.1.children.flatMap fun s => (s.field? "name").toList) := by
        refine (hE.children hc).forall₂_flatMap (fun s _ s' hs => ?_) fun s' hs' => ?_
        · exact forall₂_toList (hE.field? hs "name")
        · rw [hs'.field?]
          rfl
      rw [← List.map_flatMap, ← List.map_flatMap, map_eq_of_forall₂ hnames fun _ _ => hE.text]
      exact .exportNames .nil
    · exact ih c c' hc
  · rw [hc'.kind]
    exact alike_outline_comment hc'

omit hE ih in
lemma memberName?_comment {m : Node} (h : m.IsComment) : memberName? m = none := by
  rw [memberName?, h.kind]
  rfl

omit ih in
lemma rel_memberName? {m m' : Node} (h : E m m') :
    Option.Rel E (memberName? m) (memberName? m') := by
  rw [memberName?, memberName?, hE.kind h]
  split
  · exact hE.field? h "name"
  · exact .some h
  · exact .some h
  · exact .none

lemma alike_enumeration (h : E n n') :
    Alike E (enumeration n fun c => outline c.1) (enumeration n' fun c => outline c.1) := by
  refine .append (alike_named hE .enum h) ?_
  rw [List.map_eq_flatMap, List.map_eq_flatMap]
  refine alike_field hE h "body" fun c _ c' hc => .scope hc ?_ .nil
  refine alike_flatMap (spread_children hE hc) (fun m m' hm => .append ?_ ?_) fun m' hm' => ?_
  · exact alike_declareAll hE _ (forall₂_toList (rel_memberName? hE hm))
  · refine alike_flatMap_forall₂ (forall₂_toList (rel_of_map ?_)) ih
    rw [m.map_val_field?, m'.map_val_field?]
    exact hE.field? hm "value"
  · have hvalue : m'.field? "value" = none :=
      Option.map_eq_none_iff.1 ((m'.map_val_field? "value").trans (hm'.field? "value"))
    rw [memberName?_comment hm', hvalue]
    exact .nil

lemma alike_loopScope (h : E n n') :
    Alike E [loopScope n fun c => outline c.1] [loopScope n' fun c => outline c.1] := by
  have hleft : Option.Rel E (if n.kind == "for_in_statement" then n.field? "left" else none)
      (if n'.kind == "for_in_statement" then n'.field? "left" else none) := by
    rw [hE.kind h]
    split_ifs
    · exact hE.field? h "left"
    · exact .none
  refine .scope h (.append (alike_declareAll hE _ ?_) (alike_visits ih ?_)) .nil
  · rw [hE.isSome_field? h]
    cases (n.field? "kind").isSome with
    | false => exact .nil
    | true => exact List.rel_flatMap (forall₂_toList hleft) fun _ _ hl => hE.boundNames hl
  · exact (spread_below hE h).filter fun c c' hc => congrArg Bool.not (hE.any_same hc hleft)

lemma alike_side (hn : E n n') {c : Below n} {c' : Below n'} (hside : c.1 ∈ sides n)
    (h : E c.1 c'.1) :
    Alike E (side n (fun c => outline c.1) c) (side n' (fun c => outline c.1) c') := by
  have hinner : Option.Rel (fun (c : Below n) (c' : Below n') => E c.1 c'.1)
      (if c.1.kind == "else_clause" then c.children.head? else some c)
      (if c'.1.kind == "else_clause" then c'.children.head? else some c') := by
    rw [hE.kind h]
    split_ifs with helse
    · refine rel_of_map ?_
      rw [← List.head?_map, ← List.head?_map, c.map_val_children, c'.map_val_children]
      exact hE.side hn hside h (beq_iff_eq.1 helse)
    · exact .some h
  rw [side, side, List.map_eq_flatMap, List.map_eq_flatMap]
  exact alike_flatMap_forall₂ (forall₂_toList hinner) fun b b' hb =>
    .scope hb (alike_body hE ih hb) .nil

lemma alike_conditional (h : E n n') (hform : Form.of n = .conditional) :
    Alike E (conditional n fun c => outline c.1) (conditional n' fun c => outline c.1) := by
  have hside {name : String} (hname : name = "consequence" ∨ name = "alternative")
      (c : Below n) (hc : c ∈ n.belowField? name) : c.1 ∈ sides n := by
    have hfield : n.field? name = some c.1 := by
      rw [← n.map_val_belowField?, Option.mem_def.1 hc, Option.map_some]
    rw [sides, if_pos hform]
    rcases hname with rfl | rfl <;> simp [hfield]
  exact .append (.append (alike_part hE ih h "condition")
    (alike_field hE h "consequence" fun c hc _ => alike_side hE ih h (hside (.inl rfl) c hc)))
    (alike_field hE h "alternative" fun c hc _ => alike_side hE ih h (hside (.inr rfl) c hc))

lemma alike_switch (h : E n n') :
    Alike E (switch n fun c => outline c.1) (switch n' fun c => outline c.1) := by
  refine .append (alike_part hE ih h "value") ?_
  rw [List.map_eq_flatMap, List.map_eq_flatMap]
  exact alike_field hE h "body" fun c _ c' hc =>
    .scope hc (alike_visits ih (spread_children hE hc)) .nil

lemma alike_handler (h : E n n') :
    Alike E [handler n fun c => outline c.1] [handler n' fun c => outline c.1] := by
  have hnames := hE.boundNames_field? h "parameter"
  exact .scope h (.append (alike_declareAll hE _ hnames)
    (alike_field hE h "body" fun _ _ _ => alike_body hE ih)) .nil

lemma alike_step (h : E n n') :
    Alike E (step n fun c => outline c.1) (step n' fun c => outline c.1) := by
  rw [step, step, form_counterpart hE h]
  cases hform : Form.of n with
  | function => exact alike_namedFunction hE ih h .function
  | functionExpression => exact alike_functionScope hE ih h false
  | method => exact alike_namedFunction hE ih h .method
  | classDef => exact alike_classScope hE ih h
  | property => exact alike_property hE ih h
  | declarator => exact alike_declarator hE ih h
  | importing => exact alike_importing hE h
  | exporting => exact alike_exportItems hE ih h
  | interface => exact alike_named hE .interface h
  | typeAlias => exact alike_named hE .type h
  | enum => exact alike_enumeration hE ih h
  | module => exact .append (alike_named hE .module h) (alike_part hE ih h "body")
  | block => exact .scope h (alike_visits ih (spread_below hE h)) .nil
  | loop => exact alike_loopScope hE ih h
  | conditional => exact alike_conditional hE ih h hform
  | switch => exact alike_switch hE ih h
  | catchClause => exact alike_handler hE ih h
  | other => exact alike_visits ih (spread_below hE h)

end

/-- The outline of a counterpart holds nothing new but the comments. -/
theorem alike_outline (hE : Mirrors spares E) {n n' : Node} (h : E n n') :
    Alike E (outline n) (outline n') := by
  rw [outline, outline]
  refine .node h (alike_step hE (fun c c' hc => ?_) h) .nil
  exact alike_outline hE hc
termination_by n.size
decreasing_by exact c.2

end Outline

end Arbor.Symbols
