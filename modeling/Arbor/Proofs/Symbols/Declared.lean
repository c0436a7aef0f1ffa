import Arbor.Proofs.Symbols.Nesting
import Arbor.Proofs.Symbols.Truncation

/-!
# Names that declare are no uses

The first pass over a program notes which nodes spell the names that are declared, and the second
pass does not take these for uses. Here the nodes are told from the tree: each form of node has the
names that it declares, and a name which the second pass comes to is recorded as a use just in case
no node that the first pass has come to declares it. So the parameters of the functions, the
methods and the handlers that the first pass comes to are never recorded.
-/

namespace Arbor.Symbols

/-! ### The names that a node declares -/

namespace Outline

mutual

/-- The nodes that spell what an item declares, without the nodes among the items. -/
def spelled : Outline → List Node
  | .declare x | .declareOutside x => x.node.toList
  | .scope _ _ inner | .exporting inner => spelledAll inner
  | .node _ _ | .exportNames _ => []

/-- The nodes that spell what several items declare. -/
def spelledAll : List Outline → List Node
  | [] => []
  | x :: xs => spelled x ++ spelledAll xs

end

/-- The nodes that spell the names which a node declares. -/
def declaredNames (n : Node) : List Node :=
  let name := (n.field? "name").toList
  let parameters := n.parameters.flatMap Node.boundNames
  match Form.of n with
  | .function | .method => name ++ parameters
  | .functionExpression => name.filter (·.kind == "identifier") ++ parameters
  | .classDef | .interface | .typeAlias | .module => name
  | .property => (n.fieldOr? "name" "property").toList
  | .declarator => name.flatMap Node.boundNames
  | .importing =>
    (n.children.find? (·.kind == "import_clause")).toList.flatMap fun clause =>
      (clause.children.flatMap importedNames).map (·.2)
  | .enum =>
    name ++ (n.field? "body").toList.flatMap fun members =>
      members.children.flatMap fun m => (memberName? m).toList
  | .loop =>
    if n.kind == "for_in_statement" && (n.field? "kind").isSome then
      (n.field? "left").toList.flatMap Node.boundNames
    else []
  | .catchClause => (n.field? "parameter").toList.flatMap Node.boundNames
  | .exporting | .block | .conditional | .switch | .other => []

@[simp]
lemma spelledAll_nil : spelledAll [] = [] := rfl

@[simp]
lemma spelledAll_cons (x : Outline) (xs : List Outline) :
    spelledAll (x :: xs) = spelled x ++ spelledAll xs := rfl

@[simp]
lemma spelledAll_append (xs ys : List Outline) :
    spelledAll (xs ++ ys) = spelledAll xs ++ spelledAll ys := by
  induction xs with
  | nil => rfl
  | cons x xs ih => simp [ih]

@[simp]
lemma spelledAll_flatMap {α : Type} (as : List α) (f : α → List Outline) :
    spelledAll (as.flatMap f) = as.flatMap fun a => spelledAll (f a) := by
  induction as with
  | nil => rfl
  | cons a as ih => simp [ih]

@[simp]
lemma spelledAll_map {α : Type} (as : List α) (f : α → Outline) :
    spelledAll (as.map f) = as.flatMap fun a => spelled (f a) := by
  induction as with
  | nil => rfl
  | cons a as ih => simp [ih]

@[simp]
lemma spelledAll_declareAll (kind : SymbolKind) (names : List Node) :
    spelledAll (declareAll kind names) = names := by
  simp [declareAll, spelled, Declaration.of]

section

variable {n : Node}

lemma flatMap_eq_nil {α : Type} (as : List α) : (as.flatMap fun _ => ([] : List Node)) = [] :=
  List.flatMap_eq_nil_iff.2 fun _ _ => rfl

lemma flatMap_belowField? (name : String) (f : Node → List Node) :
    ((n.belowField? name).toList.flatMap fun c => f c.1) = (n.field? name).toList.flatMap f := by
  rw [← Node.map_val_belowField?]
  cases n.belowField? name <;> simp

variable {visit : Below n → List Outline} (h : ∀ c, spelledAll (visit c) = [])

include h

lemma spelledAll_flatMap_visit (cs : List (Below n)) : spelledAll (cs.flatMap visit) = [] := by
  simp only [spelledAll_flatMap, h, flatMap_eq_nil]

lemma spelledAll_body (c : Below n) : spelledAll (body visit c) = [] := by
  rw [body]
  split
  · exact spelledAll_flatMap_visit h _
  · exact h c

lemma spelled_functionScope (isMethod : Bool) :
    spelled (functionScope n visit isMethod)
      = (if Form.of n = .function then []
          else ((n.field? "name").filter (·.kind == "identifier")).toList)
        ++ n.parameters.flatMap Node.boundNames := by
  have hthis : spelledAll (if isMethod = true then
      [.declare { name := "this", kind := .parameter, span := n.span, node := none }] else [])
      = [] := by
    cases isMethod <;> rfl
  have hname : spelledAll (if Form.of n = .function then []
      else declareAll .function ((n.field? "name").filter (·.kind == "identifier")).toList)
      = if Form.of n = .function then []
        else ((n.field? "name").filter (·.kind == "identifier")).toList := by
    split
    · rfl
    · exact spelledAll_declareAll ..
  simp only [functionScope, spelled, spelledAll_append, hthis, hname, spelledAll_flatMap,
    spelledAll_declareAll, spelledAll_body h, h, flatMap_eq_nil, List.append_nil, List.nil_append]
  rw [← Node.map_val_belowParameters, List.flatMap_map]

lemma spelled_classScope : spelled (classScope n visit) = (n.field? "name").toList := by
  have hmember (c : Below n) :
      spelledAll (if c.1.kind == "class_body" then c.children.flatMap visit else visit c) = [] := by
    split
    · exact spelledAll_flatMap_visit h _
    · exact h c
  simp only [classScope, spelled, spelledAll_append, spelledAll_flatMap, hmember, flatMap_eq_nil,
    List.append_nil, spelledAll_map]
  cases n.field? "name" with
  | none => rfl
  | some name =>
    simp only [Option.toList_some, List.flatMap_singleton]
    split <;> rfl

lemma spelled_exportItems : spelled (exportItems n visit) = [] := by
  have hitem (c : Below n) : spelledAll (if c.1.kind == "export_clause" then
      [exportNames (c.1.children.flatMap fun s => (s.field? "name").toList.map (·.text))]
      else visit c) = [] := by
    split
    · rfl
    · exact h c
  simp only [exportItems, spelled, spelledAll_flatMap, hitem, flatMap_eq_nil]

lemma spelledAll_side (branch : Below n) : spelledAll (side n visit branch) = [] := by
  simp only [side, spelledAll_map, spelled, spelledAll_body h, flatMap_eq_nil]

end

/-- If the items of the nodes below declare nothing themselves, those of the node declare the names
of the node. -/
lemma mem_spelledAll_step {n : Node} {visit : Below n → List Outline}
    (h : ∀ c, spelledAll (visit c) = []) {y : Node} :
    y ∈ spelledAll (step n visit) ↔ y ∈ declaredNames n := by
  have hvisit := spelledAll_flatMap_visit h
  have hbody : spelledAll ((n.belowField? "body").toList.flatMap (body visit)) = [] := by
    simp only [spelledAll_flatMap, spelledAll_body h, flatMap_eq_nil]
  rw [step, declaredNames]
  cases hform : Form.of n with
  | function => simp [namedFunction, spelled_functionScope h, hform, spelled, Declaration.of]
  | functionExpression => simp [spelled_functionScope h, hform]
  | method =>
    -- the scope declares the name once more, if it is spelled as an identifier
    have hagain : y ∈ ((n.field? "name").filter (·.kind == "identifier")).toList →
        y ∈ (n.field? "name").toList := by
      rw [Option.mem_toList, Option.mem_toList, Option.filter_eq_some_iff]
      exact And.left
    simp only [namedFunction, spelledAll_append, spelledAll_map, spelledAll_cons, spelledAll_nil,
      spelled_functionScope h, hform, spelled, Declaration.of, List.append_nil, List.mem_append,
      Option.toList_some, List.flatMap_singleton', reduceCtorEq, if_false]
    tauto
  | classDef => simp [spelled_classScope h]
  | property => simp [property, part, hvisit, spelled, Declaration.of]
  | declarator =>
    have htarget : spelledAll (declarator n visit)
        = (n.field? "name").toList.flatMap Node.boundNames := by
      simp only [declarator, part, spelledAll_append, hvisit, spelledAll_flatMap,
        spelledAll_declareAll, List.append_nil, List.nil_append]
      exact flatMap_belowField? "name" Node.boundNames
    simp only [htarget]
  | importing =>
    simp only [importing, spelledAll_flatMap, spelledAll_map, spelled, Declaration.of,
      Option.toList_some, ← List.map_eq_flatMap]
  | exporting => simp [spelled_exportItems h]
  | interface => simp [named]
  | typeAlias => simp [named]
  | enum =>
    have hmembers (members : Below n) :
        (members.children.flatMap fun m => (memberName? m.1).toList)
          = members.1.children.flatMap fun m => (memberName? m).toList := by
      rw [← Below.map_val_children, List.flatMap_map]
    have hnames : spelledAll (enumeration n visit) = (n.field? "name").toList
        ++ (n.field? "body").toList.flatMap fun members =>
          members.children.flatMap fun m => (memberName? m).toList := by
      simp only [enumeration, named, spelledAll_append, spelledAll_declareAll, spelledAll_map,
        spelled, spelledAll_flatMap, h, flatMap_eq_nil, List.append_nil, hmembers]
      rw [flatMap_belowField? "body" fun members =>
        members.children.flatMap fun m => (memberName? m).toList]
    rw [hnames]
  | module => simp [named, part, hvisit]
  | block => simp [spelled, hvisit]
  | loop =>
    simp only [loopScope, spelledAll_cons, spelledAll_nil, spelled, spelledAll_append,
      spelledAll_declareAll, hvisit, List.append_nil]
    -- Only a loop over the parts of a value declares names, if there is a keyword for that.
    cases n.kind == "for_in_statement" <;> cases (n.field? "kind").isSome <;> simp
  | conditional => simp [conditional, part, hvisit, spelledAll_side h]
  | switch =>
    simp only [switch, part, spelledAll_append, hvisit, spelledAll_map, spelled, flatMap_eq_nil,
      List.append_nil]
  | catchClause => simp [handler, spelled, hbody]
  | other => rw [hvisit]

/-- Each node among the items declares its names. -/
inductive Faithful : Outline → Prop where
  | node {n : Node} {inner : List Outline} : (∀ y, y ∈ spelledAll inner ↔ y ∈ declaredNames n) →
    (∀ x ∈ inner, Faithful x) → Faithful (.node n inner)
  | declare (d : Declaration) : Faithful (.declare d)
  | declareOutside (d : Declaration) : Faithful (.declareOutside d)
  | scope {kind : ScopeKind} {owner : Node} {inner : List Outline} :
    (∀ x ∈ inner, Faithful x) → Faithful (.scope kind owner inner)
  | exporting {inner : List Outline} : (∀ x ∈ inner, Faithful x) → Faithful (.exporting inner)
  | exportNames (names : List String) : Faithful (.exportNames names)

lemma hereditary_faithful : Hereditary Faithful :=
  ⟨⟨.declare, .declareOutside, fun _ => .scope⟩, .exporting, .exportNames⟩

/-- What items inside a node declare stands at or below the node. -/
lemma Laid.mem_preorder_of_mem_spelledAll {h : Node} {xs : List Outline} {as : List Node}
    (hx : Laid h xs as) : ∀ y ∈ spelledAll xs, y ∈ h.preorder := by
  induction hx with
  | nil => simp
  | declare hname _ ih =>
    exact List.forall_mem_append.2 ⟨fun y hy => hname y (Option.mem_toList.1 hy), ih⟩
  | declareOutside hclass _ ih =>
    exact List.forall_mem_append.2
      ⟨fun y hy => hclass.mem_preorder y (Option.mem_toList.1 hy), ih⟩
  | exportNames _ ih => exact ih
  | exporting _ _ _ ihinner ih => exact List.forall_mem_append.2 ⟨ihinner, ih⟩
  | node _ _ _ _ _ _ ih => exact ih
  | scope _ howns _ _ _ _ ihinner ih =>
    -- The scope may belong to a part of the node, which is inside it.
    refine List.forall_mem_append.2 ⟨fun y hy => ?_, ih⟩
    exact Node.mem_preorder_trans (ihinner y hy) howns.mem

end Outline

open Outline

lemma spelledAll_outline (n : Node) : spelledAll (outline n) = [] := by
  rw [outline]
  rfl

lemma faithful_outline (n : Node) : ∀ x ∈ outline n, x.Faithful := by
  rw [outline]
  have hstep := hereditary_faithful.allOf_step fun c : Below n => faithful_outline c.1
  have hnames (y : Node) := mem_spelledAll_step (fun c : Below n => spelledAll_outline c.1) (y := y)
  simp [Faithful.node hnames hstep]
termination_by n.size
decreasing_by exact c.2

lemma mem_preorder_of_mem_declaredNames {n y : Node} (hy : y ∈ declaredNames n) :
    y ∈ n.preorder := by
  obtain ⟨as, hlaid, -⟩ := exists_laid_step fun (c : Below n) {_} hc => laid_outline c.1 hc
  rw [← mem_spelledAll_step fun c : Below n => spelledAll_outline c.1] at hy
  exact hlaid.mem_preorder_of_mem_spelledAll y hy

/-! ### The names that a run declares -/

namespace Draft

variable {o : Options} {h root y : Node} {d : Draft} {scope around : Nat} {exports : Option Nat}
  {xs : List Outline} {as : List Node}

/-- The name is one of the items or of a node that a run over them comes to. -/
def Names (o : Options) (scope around : Nat) (exports : Option Nat) (xs : List Outline) (d : Draft)
    (y : Node) : Prop :=
  y ∈ spelledAll xs ∨ ∃ e ∈ stopsAll o scope around exports xs d, y ∈ declaredNames e.1

lemma names_cons {x : Outline} :
    Names o scope around exports (x :: xs) d y ↔
      Names o scope around exports [x] d y ∨
        Names o scope around exports xs (run o scope around exports x d) y := by
  simp only [Names, spelledAll, stopsAll, List.mem_append, List.append_nil, or_and_right, exists_or]
  exact or_or_or_comm ..

lemma names_node {n : Node} {inner : List Outline}
    (hnames : ∀ y, y ∈ spelledAll inner ↔ y ∈ declaredNames n) :
    Names o scope around exports [.node n inner] d y ↔ Names o scope around exports inner d y := by
  simp [Names, spelled, stopsAll, stops, hnames]

lemma names_exporting {inner : List Outline} :
    Names o scope around exports [.exporting inner] d y ↔
      Names o scope around (some scope) inner d y := by
  simp [Names, spelled, stopsAll, stops]

lemma names_scope_of_some {kind : ScopeKind} {owner : Node} {inner : List Outline} {id : Nat}
    {d' : Draft} (hopen : d.openScope o kind scope owner = (some id, d')) :
    Names o scope around exports [.scope kind owner inner] d y ↔
      Names o id scope exports inner d' y := by
  simp [Names, spelled, stopsAll, stops, hopen]

lemma names_scope_of_none {kind : ScopeKind} {owner : Node} {inner : List Outline}
    (hnone : (d.openScope o kind scope owner).1 = none) :
    Names o scope around exports [.scope kind owner inner] d y ↔ y ∈ spelledAll inner := by
  generalize hopened : d.openScope o kind scope owner = opened at hnone
  obtain ⟨id, d'⟩ := opened
  obtain rfl : id = none := hnone
  simp [Names, spelled, stopsAll, stops, hopened]

/-- A scope that is not opened lies too deep. -/
lemma isTruncated_of_openScope {kind : ScopeKind} {owner : Node}
    (hscope : scope < d.model.scopes.size) (hnone : (d.openScope o kind scope owner).1 = none) :
    (d.openScope o kind scope owner).2.isTruncated owner = true := by
  rw [openScope, Array.getElem?_eq_getElem hscope] at hnone ⊢
  dsimp only at hnone ⊢
  split_ifs at hnone ⊢
  simp [isTruncated]

lemma openScope_declared (o : Options) (kind : ScopeKind) (parent : Nat) (owner : Node)
    (d : Draft) : (d.openScope o kind parent owner).2.declared = d.declared := by
  rw [openScope]
  split
  · rfl
  · split_ifs <;> rfl

/-- A name that is declared after one of two runs is that of one of them. -/
lemma exists_names_cons {x : Outline} {k : Nat}
    (hfirst : k ∈ (run o scope around exports x d).declared →
      k ∈ d.declared ∨ ∃ y, Names o scope around exports [x] d y ∧ y.number = k)
    (hrest : k ∈ (run o scope around exports x d).declared ∨
      ∃ y, Names o scope around exports xs (run o scope around exports x d) y ∧ y.number = k) :
    k ∈ d.declared ∨ ∃ y, Names o scope around exports (x :: xs) d y ∧ y.number = k := by
  rcases hrest with hk | ⟨y, hy, hnumber⟩
  · rcases hfirst hk with hk | ⟨y, hy, hnumber⟩
    · exact .inl hk
    · exact .inr ⟨y, names_cons.2 (.inl hy), hnumber⟩
  · exact .inr ⟨y, names_cons.2 (.inr hy), hnumber⟩

lemma mem_declared_declare {x : Declaration} {k : Nat}
    (hk : k ∈ (d.declare o scope exports x).declared) :
    k ∈ d.declared ∨ ∃ y ∈ x.node.toList, y.number = k := by
  rcases List.mem_append.1 hk with hk | hk
  · obtain ⟨y, hy, hnumber⟩ := Option.map_eq_some_iff.1 (Option.mem_toList.1 hk)
    exact .inr ⟨y, Option.mem_toList.2 hy, hnumber⟩
  · exact .inl hk

/-- A name that a run declares is one of an item or of a node that the run comes to. -/
lemma exists_names_of_mem_declared (hx : Laid h xs as) (hfaithful : ∀ x ∈ xs, x.Faithful)
    {k : Nat} (hk : k ∈ (runAll o scope around exports xs d).declared) :
    k ∈ d.declared ∨ ∃ y, Names o scope around exports xs d y ∧ y.number = k := by
  induction hx generalizing scope around exports d with
  | nil =>
    simp only [runAll] at hk
    exact .inl hk
  | declare _ _ ih | declareOutside _ _ ih =>
    rw [runAll] at hk
    refine exists_names_cons (fun hk => ?_) (ih (List.forall_mem_cons.1 hfaithful).2 hk)
    rw [run] at hk
    refine (mem_declared_declare hk).imp_right ?_
    rintro ⟨y, hy, hnumber⟩
    exact ⟨y, .inl (by simpa [spelled] using hy), hnumber⟩
  | exportNames _ ih =>
    rw [runAll] at hk
    refine exists_names_cons (fun hk => ?_) (ih (List.forall_mem_cons.1 hfaithful).2 hk)
    rw [run] at hk
    exact .inl hk
  | exporting _ _ _ ihinner ih =>
    rw [runAll] at hk
    obtain ⟨hfirst, hfaithful⟩ := List.forall_mem_cons.1 hfaithful
    refine exists_names_cons (fun hk => ?_) (ih hfaithful hk)
    rw [run] at hk
    simp only [names_exporting]
    cases hfirst with
    | exporting hinner => exact ihinner hinner hk
  | node _ _ _ _ _ ihinner ih =>
    rw [runAll] at hk
    obtain ⟨hfirst, hfaithful⟩ := List.forall_mem_cons.1 hfaithful
    -- The node declares what its own items do, and these are among its names.
    refine exists_names_cons (fun hk => ?_) (ih hfaithful hk)
    rw [run] at hk
    cases hfirst with
    | node hnames hinner =>
      simp only [names_node hnames]
      exact ihinner hinner hk
  | @scope _ owner kind _ _ _ _ _ _ _ _ _ _ ihinner ih =>
    rw [runAll] at hk
    obtain ⟨hfirst, hfaithful⟩ := List.forall_mem_cons.1 hfaithful
    refine exists_names_cons (fun hk => ?_) (ih hfaithful hk)
    -- A scope that lies too deep is left out, with all that it holds.
    obtain ⟨hnone, -⟩ | ⟨depth, -, hopen⟩ := openScope_cases o kind scope owner d
    · rw [run_scope_of_none hnone, openScope_declared] at hk
      exact .inl hk
    · rw [run_scope_of_some hopen] at hk
      simp only [names_scope_of_some hopen]
      cases hfirst with
      | scope hinner => exact ihinner hinner hk

/-- A name is settled if it is declared or its node is hidden. -/
def Settles (root y : Node) (d : Draft) : Prop := d.isDeclared y = true ∨ d.Hides root y

lemma keptFor_settles (o : Options) (root y : Node) :
    KeptFor o (fun _ => True) (Settles root y) := by
  constructor
  case declare =>
    rintro d scope exports x (hdeclared | hhides)
    · left
      rw [isDeclared_declare, hdeclared, Bool.or_true]
    · exact .inr hhides
  case openScope =>
    rintro d kind parent owner - hd
    rw [openScope]
    split
    · exact hd
    · split_ifs
      · refine hd.imp_right ?_
        rintro ⟨t, ht, htruncated, hy⟩
        refine ⟨t, ht, ?_, hy⟩
        simp_all [isTruncated]
      · exact hd
  case withModel =>
    intro d m hd
    exact hd

lemma settles_declare {x : Declaration} (hy : y ∈ x.node.toList) :
    Settles root y (d.declare o scope exports x) := by
  left
  rw [isDeclared_declare, Option.mem_toList.1 hy]
  simp

/-- A run declares the names of its items and of the nodes that it comes to, unless they are inside
a node whose scope lies too deep. -/
lemma settles_of_names (hx : Laid h xs as) (hfaithful : ∀ x ∈ xs, x.Faithful)
    (hh : h ∈ root.preorder) (hscope : scope < d.model.scopes.size)
    (hy : Names o scope around exports xs d y) :
    Settles root y (runAll o scope around exports xs d) := by
  have hkept {h : Node} {xs : List Outline} {as : List Node} (hx : Laid h xs as) {d : Draft}
      {scope around : Nat} {exports : Option Nat} (hd : Settles root y d) :
      Settles root y (runAll o scope around exports xs d) :=
    (keptFor_settles o root y).runAll hx (fun _ _ => trivial) hd
  induction hx generalizing scope around exports d with
  | nil => simp [Names, stopsAll] at hy
  | declare _ hrest ih | declareOutside _ hrest ih =>
    rw [runAll]
    rcases names_cons.1 hy with hy | hy
    · refine hkept hrest ?_
      rw [run]
      exact settles_declare (by simpa [Names, spelled, stopsAll, stops] using hy)
    · refine ih (List.forall_mem_cons.1 hfaithful).2 hh ?_ hy
      rw [run]
      exact lt_declare hscope
  | exportNames _ ih =>
    rw [runAll]
    rcases names_cons.1 hy with hy | hy
    · simp [Names, spelled, stopsAll, stops] at hy
    · refine ih (List.forall_mem_cons.1 hfaithful).2 hh ?_ hy
      rw [run]
      exact (foldl_exportName_scopes ..).symm ▸ hscope
  | exporting hinner hrest _ ihinner ih =>
    rw [runAll]
    obtain ⟨hfirst, hfaithful⟩ := List.forall_mem_cons.1 hfaithful
    rcases names_cons.1 hy with hy | hy
    · refine hkept hrest ?_
      rw [run]
      cases hfirst with
      | exporting hfirst => exact ihinner hfirst hh hscope (names_exporting.1 hy)
    · refine ih hfaithful hh ?_ hy
      rw [run]
      exact lt_runAll hinner hscope
  | node hn hinner _ hrest _ ihinner ih =>
    rw [runAll]
    obtain ⟨hfirst, hfaithful⟩ := List.forall_mem_cons.1 hfaithful
    rcases names_cons.1 hy with hy | hy
    · refine hkept hrest ?_
      rw [run]
      cases hfirst with
      | node hnames hfirst =>
        exact ihinner hfirst (Node.mem_preorder_trans hn hh) hscope ((names_node hnames).1 hy)
    · refine ih hfaithful hh ?_ hy
      rw [run]
      exact lt_runAll hinner hscope
  | @scope _ owner kind inner _ _ _ _ howns hinner _ hrest _ ihinner ih =>
    rw [runAll]
    have howner := (howns.up hh).mem
    obtain ⟨hfirst, hfaithful⟩ := List.forall_mem_cons.1 hfaithful
    obtain ⟨hnone, -, hmodel⟩ | ⟨depth, -, hopen⟩ := openScope_cases o kind scope owner d
    · -- The names of a scope that lies too deep are hidden by its owner.
      rw [names_cons, names_scope_of_none hnone, run_scope_of_none hnone] at hy
      rw [run_scope_of_none hnone]
      rcases hy with hy | hy
      · have hin := hinner.mem_preorder_of_mem_spelledAll y hy
        exact hkept hrest (.inr ⟨owner, howner, isTruncated_of_openScope hscope hnone, hin⟩)
      · exact ih hfaithful hh (hmodel ▸ hscope) hy
    · rw [names_cons, names_scope_of_some hopen, run_scope_of_some hopen] at hy
      rw [run_scope_of_some hopen]
      rcases hy with hy | hy
      · cases hfirst with
        | scope hfirst =>
          exact hkept hrest (ihinner hfirst howner (lt_withScope (Nat.le_refl _)) hy)
      · exact ih hfaithful hh (lt_runAll hinner (lt_withScope (Nat.le_of_lt hscope))) hy

/-- The walk comes to nodes that are not hidden. -/
lemma not_hides_of_mem_visits (howned : d.Owned root) :
    ∀ v ∈ visits d root, v.node ∈ root.preorder ∧ ¬ d.Hides root v.node := by
  intro v hv
  obtain ⟨hcut, hv⟩ := mem_visits.1 hv
  have hroot : ¬ d.Hides root root :=
    not_hides_root (by simpa [Visit.isCut, Visit.isWrite] using hcut)
  refine walk_induction (P := fun v => v.node ∈ root.preorder ∧ ¬ d.Hides root v.node)
    ⟨root.self_mem_preorder, hroot⟩ ?_ v hv
  rintro v ⟨hnode, hseen⟩ w hw
  exact ⟨((Visit.inside_of_mem_next hw).up hnode).mem_preorder,
    not_hides_of_mem_next howned hnode hseen hw⟩

/-- Of the nodes that are not hidden, those are declared which a node declares that the first pass
comes to. -/
lemma isDeclared_ofRoot_iff (o : Options) (hy : y ∈ root.preorder)
    (hseen : ¬ (ofRoot o root).Hides root y) :
    (ofRoot o root).isDeclared y = true ↔ ∃ e ∈ stopsOf o root, y ∈ declaredNames e.1 := by
  have hlaid := laid_outline root root.self_mem_preorder
  have hnames {y : Node} : Names o Model.globalScope Model.globalScope none (outline root)
      ((start root).declareBuiltins o) y ↔ ∃ e ∈ stopsOf o root, y ∈ declaredNames e.1 := by
    simp [Names, spelledAll_outline, stopsOf]
  have hempty : ((start root).declareBuiltins o).declared = [] := by
    rw [declareBuiltins]
    split_ifs <;> rfl
  constructor
  · intro hdeclared
    have hmem : y.number ∈ (ofRoot o root).declared := by simpa [isDeclared] using hdeclared
    rcases exists_names_of_mem_declared hlaid (faithful_outline root) hmem with hmem | hmem
    · -- The names of the platform are spelled by no node.
      rw [hempty] at hmem
      cases hmem
    · obtain ⟨z, hz, hnumber⟩ := hmem
      obtain ⟨e, he, hz⟩ := hnames.1 hz
      have hnode := mem_preorder_of_mem_stopsAll hlaid e he
      have hzroot := Node.mem_preorder_trans (mem_preorder_of_mem_declaredNames hz) hnode
      -- The draft knows numbers only, which tell the nodes of the tree apart.
      rw [← Node.eq_of_number_eq hzroot hy hnumber]
      exact ⟨e, he, hz⟩
  · intro hstop
    have hglobal := (sound_start o root).wellFormed.nested.nonempty
    rcases settles_of_names hlaid (faithful_outline root) root.self_mem_preorder hglobal
      (hnames.2 hstop) with hdeclared | hhides
    · exact hdeclared
    · exact absurd hhides hseen

end Draft

/-- A name that the second pass comes to is recorded as a use just in case no node to which the
first pass has come declares it. The parameters of functions, of methods and of handlers to which
the first pass has come are among the names that these declare, and so they are not recorded. -/
theorem occurrences_iff_not_declared (o : Options) (root : Node) :
    (∀ x, (∃ u ∈ occurrences (Draft.ofRoot o root) root Model.globalScope, u.node = x) ↔
      (∃ v ∈ visits (Draft.ofRoot o root) root, v.node = x) ∧ UseForm.of x = .name ∧
        ∀ e ∈ Draft.stopsOf o root, x ∉ declaredNames e.1) ∧
    ∀ e ∈ Draft.stopsOf o root,
      ∀ u ∈ occurrences (Draft.ofRoot o root) root Model.globalScope,
        (Form.of e.1 ∈ [.function, .functionExpression, .method] →
          ∀ p ∈ e.1.parameters, u.node ∉ p.boundNames) ∧
        (Form.of e.1 = .catchClause → ∀ p ∈ e.1.field? "parameter", u.node ∉ p.boundNames) := by
  have huse {v : Visit} (hv : v ∈ visits (Draft.ofRoot o root) root) :
      (Draft.ofRoot o root).isUse v.node = true ↔ UseForm.of v.node = .name ∧
        ∀ e ∈ Draft.stopsOf o root, v.node ∉ declaredNames e.1 := by
    obtain ⟨hnode, hseen⟩ := Draft.not_hides_of_mem_visits (Draft.owned_ofRoot o root) v hv
    have hdeclared := Draft.isDeclared_ofRoot_iff o hnode hseen
    rw [Draft.isUse, Bool.and_eq_true, decide_eq_true_eq, Bool.not_eq_true',
      ← Bool.not_eq_true, hdeclared]
    push Not
    rfl
  constructor
  · intro x
    constructor
    · rintro ⟨u, hu, rfl⟩
      obtain ⟨v, hv, hname, rfl⟩ := mem_occurrences.1 hu
      exact ⟨⟨v, hv, rfl⟩, (huse hv).1 hname⟩
    · rintro ⟨⟨v, hv, rfl⟩, hname⟩
      exact ⟨v.use _, mem_occurrences.2 ⟨v, hv, (huse hv).2 hname, rfl⟩, rfl⟩
  · intro e he u hu
    obtain ⟨v, hv, hname, rfl⟩ := mem_occurrences.1 hu
    have hnot := ((huse hv).1 hname).2 e he
    constructor
    · intro hform p hp hmem
      apply hnot
      have hparameter : (v.use (Draft.ofRoot o root)).node
          ∈ e.1.parameters.flatMap Node.boundNames := List.mem_flatMap.2 ⟨p, hp, hmem⟩
      simp only [List.mem_cons, List.not_mem_nil, or_false] at hform
      rw [declaredNames]
      -- Whatever the function is, its parameters come behind its name.
      rcases hform with hform | hform | hform <;> rw [hform] <;>
        exact List.mem_append_right _ hparameter
    · intro hform p hp hmem
      apply hnot
      rw [declaredNames, hform]
      exact List.mem_flatMap.2 ⟨p, Option.mem_toList.2 hp, hmem⟩

/-- A function with one parameter, which its body uses. -/
def functionOfOne : Node :=
  let name (text : String) (column : Nat) : Tree :=
    ⟨"identifier", text, ⟨⟨0, column⟩, ⟨0, column + 1⟩⟩, [], ∅⟩
  let parameters : Tree := ⟨"formal_parameters", "", .zero, [name "a" 11], ∅⟩
  let body : Tree := ⟨"statement_block", "", .zero, [name "a" 16], ∅⟩
  .root ⟨"program", "", .zero, [⟨"function_declaration", "", .zero,
    [name "f" 9, parameters, body], .ofList [("name", 0), ("parameters", 1), ("body", 2)]⟩], ∅⟩

/-- The use in the body is recorded, and the parameter is not. -/
theorem occurrences_functionOfOne :
    let o : Options := { includeBuiltins := false }
    (∃ u ∈ occurrences (Draft.ofRoot o functionOfOne) functionOfOne Model.globalScope,
      u.node.span.start = ⟨0, 16⟩) ∧
    ∃ e ∈ Draft.stopsOf o functionOfOne, ∃ p ∈ e.1.parameters, p.span.start = ⟨0, 11⟩ ∧
      ∀ u ∈ occurrences (Draft.ofRoot o functionOfOne) functionOfOne Model.globalScope,
        u.node ∉ p.boundNames := by
  intro o
  have hstop : ∃ e ∈ Draft.stopsOf o functionOfOne, Form.of e.1 = .function ∧
      ∃ p ∈ e.1.parameters, p.span.start = ⟨0, 11⟩ := by
    decide +kernel
  obtain ⟨e, he, hform, p, hp, hstart⟩ := hstop
  refine ⟨by decide +kernel, e, he, p, hp, hstart, fun u hu => ?_⟩
  exact ((occurrences_iff_not_declared o functionOfOne).2 e he u hu).1 (by simp [hform]) p hp

/-- An interface with a method of one parameter, and an export of the interface under another
name. -/
def interfaceAndExport : Node :=
  let name (kind text : String) (column : Nat) : Tree :=
    ⟨kind, text, ⟨⟨0, column⟩, ⟨0, column + 1⟩⟩, [], ∅⟩
  let parameter : Tree := ⟨"required_parameter", "", .zero, [name "identifier" "a" 16],
    .ofList [("pattern", 0)]⟩
  let method : Tree := ⟨"method_signature", "", .zero,
    [name "property_identifier" "m" 14, ⟨"formal_parameters", "", .zero, [parameter], ∅⟩],
    .ofList [("name", 0), ("parameters", 1)]⟩
  let interface : Tree := ⟨"interface_declaration", "", .zero,
    [name "type_identifier" "I" 10, ⟨"interface_body", "", .zero, [method], ∅⟩],
    .ofList [("name", 0), ("body", 1)]⟩
  let specifier : Tree := ⟨"export_specifier", "", .zero,
    [name "identifier" "I" 31, name "identifier" "J" 36], .ofList [("name", 0), ("alias", 1)]⟩
  .root ⟨"program", "", .zero, [interface, ⟨"export_statement", "", .zero,
    [⟨"export_clause", "", .zero, [specifier], ∅⟩], ∅⟩], ∅⟩

/-- The first pass does not come to the parts of an interface and of an export clause, so that the
parameter and the other name are taken for uses. -/
theorem unresolved_interfaceAndExport :
    (analyze { includeBuiltins := false } interfaceAndExport).unresolved
      = #[⟨"a", ⟨⟨0, 16⟩, ⟨0, 17⟩⟩, 0⟩, ⟨"J", ⟨⟨0, 36⟩, ⟨0, 37⟩⟩, 0⟩] := by
  decide +kernel

end Arbor.Symbols
