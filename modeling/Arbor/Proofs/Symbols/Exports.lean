import Arbor.Proofs.Symbols.Passes
import Arbor.Proofs.Symbols.Shadowing
import Arbor.Proofs.Symbols.Toggles
import Mathlib.Data.List.Induction

/-!
# Where exports come from

An export statement exports the declarations inside it that belong to its own scope, and the names
that it lists. The scope that exports at the moment is handed inward and comes back unchanged. The
log of a run has every declaration, every listed name and every opened scope with the nodes that the
run is inside of then. It says of each symbol whether it is exported, and by which statement: always
one that the run came to in the scope of the symbol.
-/

namespace Arbor.Symbols

open Outline

/-! ### The scope that exports -/

/-- A draft with the scope that exports its declarations at the moment. -/
structure Marked where
  draft : Draft
  exports : Option Nat

namespace Marked

mutual

/-- Goes through an item of an outline. An export sets the mark and restores it when it is done. -/
def run (o : Options) (scope around : Nat) : Outline → Marked → Marked
  | .node _ inner, m => runAll o scope around inner m
  | .declare x, m => { m with draft := m.draft.declare o scope m.exports x }
  | .declareOutside x, m => { m with draft := m.draft.declare o around m.exports x }
  | .scope kind owner inner, m =>
    match m.draft.openScope o kind scope owner with
    | (some id, d) => runAll o id scope inner { m with draft := d }
    | (none, d) => { m with draft := d }
  | .exporting inner, m =>
    { runAll o scope around inner { m with exports := some scope } with exports := m.exports }
  | .exportNames names, m =>
    let model := names.foldl (Model.exportName scope) m.draft.model
    { m with draft := { m.draft with model := model } }

/-- Goes through items one after the other. -/
def runAll (o : Options) (scope around : Nat) : List Outline → Marked → Marked
  | [], m => m
  | x :: xs, m => runAll o scope around xs (run o scope around x m)

end

/-- Goes through a node in a scope. -/
def collect (o : Options) (scope around : Nat) (n : Node) (m : Marked) : Marked :=
  runAll o scope around (outline n) m

variable (o : Options)

mutual

/-- The mark is the same afterwards, and the draft is what it is with the mark handed inward. -/
lemma run_eq (scope around : Nat) (x : Outline) (m : Marked) :
    run o scope around x m = ⟨Draft.run o scope around m.exports x m.draft, m.exports⟩ := by
  cases x with
  | node n inner =>
    rw [run, Draft.run]
    exact runAll_eq scope around inner m
  | declare x | declareOutside x | exportNames names => rw [run, Draft.run]
  | scope kind owner inner =>
    rw [run, Draft.run]
    generalize m.draft.openScope o kind scope owner = opened
    obtain ⟨id | id, d⟩ := opened
    · rfl
    · exact runAll_eq id scope inner { m with draft := d }
  | exporting inner =>
    rw [run, Draft.run, runAll_eq scope around inner]

lemma runAll_eq (scope around : Nat) (xs : List Outline) (m : Marked) :
    runAll o scope around xs m = ⟨Draft.runAll o scope around m.exports xs m.draft, m.exports⟩ := by
  cases xs with
  | nil => rw [runAll, Draft.runAll]
  | cons x xs =>
    rw [runAll, Draft.runAll, runAll_eq scope around xs, run_eq scope around x]

end

end Marked

/-! ### Export statements -/

/-- The statement lists the name in a clause. -/
def ListsName (e : Node) (name : String) : Prop :=
  ∃ clause ∈ e.children, clause.kind = "export_clause" ∧
    ∃ specifier ∈ clause.children, ∃ n, specifier.field? "name" = some n ∧ n.text = name

lemma form_eq_exporting_iff {n : Node} :
    Form.of n = .exporting ↔ n.kind = "export_statement" := by
  constructor
  · intro hform
    obtain ⟨ks, hmem, hkind⟩ := Form.exists_kinds (n := n) (by simp [hform])
    simp_all [Form.kinds]
  · intro hkind
    simp [Form.of, Form.kinds, hkind]

/-- Items export only right inside an export statement, and the names that they export by name are
listed there. -/
inductive Attributed : Outline → Prop where
  | declare (x : Declaration) : Attributed (.declare x)
  | declareOutside (x : Declaration) : Attributed (.declareOutside x)
  | scope {kind : ScopeKind} {owner : Node} {inner : List Outline} :
    (∀ x ∈ inner, Attributed x) → Attributed (.scope kind owner inner)
  | node {n : Node} {inner : List Outline} : n.kind ≠ "export_statement" →
    (∀ x ∈ inner, Attributed x) → Attributed (.node n inner)
  | statement {e : Node} {inner : List Outline} : e.kind = "export_statement" →
    (∀ x ∈ inner, (∀ names, x ≠ .exportNames names) → Attributed x) →
    (∀ names, .exportNames names ∈ inner → ∀ name ∈ names, ListsName e name) →
    Attributed (.node e [.exporting inner])

lemma inherited_attributed : Inherited Attributed :=
  ⟨.declare, .declareOutside, fun _ => .scope⟩

lemma attributed_export {n : Node} {visit : Below n → List Outline}
    (hkind : n.kind = "export_statement") (h : ∀ c, AllOf Attributed (visit c)) :
    Attributed (.node n [exportItems n visit]) := by
  have hitems {x : Outline} (hx : x ∈ n.below.flatMap fun c =>
      if c.1.kind == "export_clause" then
        [exportNames (c.1.children.flatMap fun s => (s.field? "name").toList.map (·.text))]
      else visit c) : Attributed x ∨
        ∃ names, x = .exportNames names ∧ ∀ name ∈ names, ListsName n name := by
    obtain ⟨c, hc, hx⟩ := List.mem_flatMap.1 hx
    split_ifs at hx with hclause
    · refine .inr ⟨_, List.mem_singleton.1 hx, fun name hname => ?_⟩
      obtain ⟨specifier, hspecifier, hname⟩ := List.mem_flatMap.1 hname
      obtain ⟨spelling, hspelling, rfl⟩ := List.mem_map.1 hname
      have hchild : c.1 ∈ n.children := by
        rw [← n.map_val_below]
        exact List.mem_map_of_mem hc
      exact ⟨c.1, hchild, beq_iff_eq.1 hclause, specifier, hspecifier, spelling,
        Option.mem_toList.1 hspelling, rfl⟩
    · exact .inl (h c x hx)
  refine .statement hkind (fun x hx hother => ?_) (fun names hnames => ?_)
  · rcases hitems hx with hattributed | ⟨names, rfl, -⟩
    · exact hattributed
    · exact absurd rfl (hother names)
  · rcases hitems hnames with hattributed | ⟨names', hsame, hlists⟩
    · cases hattributed
    · cases hsame
      exact hlists

/-- The exports of an outline are those of export statements. -/
lemma attributed_outline (n : Node) : AllOf Attributed (outline n) := by
  have hbelow (c : Below n) : AllOf Attributed (outline c.1) :=
    attributed_outline c.1
  rw [outline]
  intro x hx
  obtain rfl := List.mem_singleton.1 hx
  by_cases hform : Form.of n = .exporting
  · rw [step, hform]
    exact attributed_export (form_eq_exporting_iff.1 hform) hbelow
  · exact .node (mt form_eq_exporting_iff.2 hform) (inherited_attributed.allOf_step hbelow hform)
termination_by n.size
decreasing_by exact c.2

/-! ### The log of a run -/

/-- What a run does that bears on exports. -/
inductive Event where
  /-- A symbol is declared, by the node that spells its name. -/
  | declared (x : Symbol) (name : Option Node)
  /-- A name of a scope is exported by name. -/
  | listed (scope : Nat) (name : String)
  /-- A scope is opened. -/
  | opened (scope : Nat)

/-- An event and the nodes that the run is inside of then, the innermost first, each with the scope
in which the run came to it. -/
structure Notice where
  event : Event
  under : List (Node × Nat)

namespace Draft

mutual

/-- The log of a run inside the nodes `under`. -/
def notices (o : Options) (scope around : Nat) (exports : Option Nat) (under : List (Node × Nat)) :
    Outline → Draft → List Notice
  | .node n inner, d => noticesAll o scope around exports ((n, scope) :: under) inner d
  | .declare x, _ => [⟨.declared (x.symbol scope exports) x.node, under⟩]
  | .declareOutside x, _ => [⟨.declared (x.symbol around exports) x.node, under⟩]
  | .scope kind owner inner, d =>
    match d.openScope o kind scope owner with
    | (some id, d) => ⟨.opened id, under⟩ :: noticesAll o id scope exports under inner d
    | (none, _) => []
  | .exporting inner, d => noticesAll o scope around (some scope) under inner d
  | .exportNames names, _ => names.map fun name => ⟨.listed scope name, under⟩

/-- The log of a run over several items. -/
def noticesAll (o : Options) (scope around : Nat) (exports : Option Nat)
    (under : List (Node × Nat)) : List Outline → Draft → List Notice
  | [], _ => []
  | x :: xs, d =>
    notices o scope around exports under x d
      ++ noticesAll o scope around exports under xs (run o scope around exports x d)

end

/-- The log of the run over a program. -/
def noticesOf (o : Options) (root : Node) : List Notice :=
  noticesAll o Model.globalScope Model.globalScope none [] (outline root)
    ((start root).declareBuiltins o)

section

variable {o : Options} {d d' : Draft} {scope around : Nat} {exports : Option Nat}
  {under : List (Node × Nat)} {kind : ScopeKind} {owner : Node} {inner xs : List Outline}

lemma notices_scope_of_none (hnone : (d.openScope o kind scope owner).1 = none) :
    notices o scope around exports under (.scope kind owner inner) d = [] := by
  rw [notices]
  generalize d.openScope o kind scope owner = opened at hnone
  obtain ⟨id, d'⟩ := opened
  obtain rfl : id = none := hnone
  rfl

lemma notices_scope_of_some {id : Nat} (hopen : d.openScope o kind scope owner = (some id, d')) :
    notices o scope around exports under (.scope kind owner inner) d
      = ⟨.opened id, under⟩ :: noticesAll o id scope exports under inner d' := by
  rw [notices, hopen]

lemma forall_mem_noticesAll {P : Notice → Prop}
    (h : ∀ x ∈ xs, ∀ d, ∀ e ∈ notices o scope around exports under x d, P e) :
    ∀ e ∈ noticesAll o scope around exports under xs d, P e := by
  induction xs generalizing d with
  | nil => simp [noticesAll]
  | cons x xs ih =>
    obtain ⟨hfirst, hrest⟩ := List.forall_mem_cons.1 h
    rw [noticesAll]
    exact List.forall_mem_append.2 ⟨hfirst d, ih hrest⟩

end

end Draft

/-! ### What the log says of exports -/

/-- The innermost export statement. -/
def exporter? (under : List (Node × Nat)) : Option (Node × Nat) :=
  under.find? (·.1.kind == "export_statement")

lemma exporter?_eq_some {under : List (Node × Nat)} {f : Node × Nat}
    (h : exporter? under = some f) : f ∈ under ∧ f.1.kind = "export_statement" :=
  ⟨List.mem_of_find?_eq_some h, by simpa using List.find?_some h⟩

/-- The event declares the name in the scope. -/
def Notice.Declares (i : Nat) (name : String) (e : Notice) : Prop :=
  ∃ x spelling, e.event = .declared x spelling ∧ x.scope = i ∧ x.name = name

/-- The event exports the name of the scope: as a declaration in this scope, where the innermost
export statement is one that the run came to in this scope as well, or by name. -/
def Notice.Exports (i : Nat) (name : String) (e : Notice) : Prop :=
  (e.Declares i name ∧ ∃ statement, exporter? e.under = some (statement, i)) ∨
    e.event = .listed i name

/-- By the log, the last declaration of the name in the scope is exported, or the name is listed
afterwards. -/
def ExportedIn (log : List Notice) (i : Nat) (name : String) : Prop :=
  ∃ before e after, log = before ++ e :: after ∧ e.Exports i name ∧
    ∀ later ∈ after, ¬ later.Declares i name

/-- What the event says of exports is due to an export statement. -/
structure Notice.Sourced (e : Notice) : Prop where
  declared : ∀ x spelling, e.event = .declared x spelling →
    (x.exported = true ↔ ∃ statement, exporter? e.under = some (statement, x.scope))
  listed : ∀ scope name, e.event = .listed scope name →
    ∃ statement rest, e.under = (statement, scope) :: rest ∧
      statement.kind = "export_statement" ∧ ListsName statement name

lemma exportedIn_concat {log : List Notice} {e : Notice} {i : Nat} {name : String} :
    ExportedIn (log ++ [e]) i name ↔
      e.Exports i name ∨ (¬ e.Declares i name ∧ ExportedIn log i name) := by
  constructor
  · rintro ⟨before, e', after, hlog, hexports, hlater⟩
    rcases List.eq_nil_or_concat after with rfl | ⟨after, z, rfl⟩
    · obtain ⟨rfl, hlast⟩ := List.append_inj' hlog rfl
      obtain rfl := List.singleton_inj.1 hlast
      exact .inl hexports
    · rw [List.concat_eq_append, ← List.cons_append, ← List.append_assoc] at hlog
      obtain ⟨rfl, hlast⟩ := List.append_inj' hlog rfl
      obtain rfl := List.singleton_inj.1 hlast
      exact .inr ⟨hlater e (by simp), before, e', after, rfl, hexports,
        fun later hmem => hlater later (by simp [hmem])⟩
  · rintro (hexports | ⟨hdeclares, before, e', after, rfl, hexports, hlater⟩)
    · exact ⟨log, e, [], rfl, hexports, by simp⟩
    · refine ⟨before, e', after ++ [e], by simp, hexports, ?_⟩
      exact List.forall_mem_append.2 ⟨hlater, by simpa using hdeclares⟩

/-- What an event makes of the symbol under a name of a scope. -/
def Notice.act (i : Nat) (name : String) (s : Option Symbol) (e : Notice) : Option Symbol :=
  match e.event with
  | .declared x _ => if x.scope = i ∧ x.name = name then some x else s
  | .listed j other =>
    if j = i ∧ other = name then s.map fun x => { x with exported := true } else s
  | .opened _ => s

section

variable {log : List Notice} {s : Option Symbol} {x : Symbol} {i : Nat} {name : String}

/-- The symbol under a name is the one that was declared last, it has just been listed, or it is the
one from before. -/
lemma Notice.act_eq_some {e : Notice} (hx : e.act i name s = some x) :
    (∃ spelling, e.event = .declared x spelling ∧ x.scope = i ∧ x.name = name) ∨
      (e.event = .listed i name ∧ x.exported = true) ∨
      (¬ e.Declares i name ∧ e.event ≠ .listed i name ∧ s = some x) := by
  rw [Notice.act] at hx
  cases hevent : e.event with
  | declared y spelling =>
    rw [hevent] at hx
    by_cases hat : y.scope = i ∧ y.name = name
    · obtain rfl : y = x := by simpa [hat] using hx
      exact .inl ⟨spelling, rfl, hat⟩
    · simp only [hat, if_false] at hx
      exact .inr (.inr ⟨by simpa [Declares, hevent] using hat, by simp, hx⟩)
  | listed j other =>
    rw [hevent] at hx
    by_cases hat : j = i ∧ other = name
    · obtain ⟨rfl, rfl⟩ := hat
      simp only [and_self, if_true] at hx
      obtain ⟨y, -, rfl⟩ := Option.map_eq_some_iff.1 hx
      exact .inr (.inl ⟨rfl, rfl⟩)
    · simp only [hat, if_false] at hx
      exact .inr (.inr ⟨by simp [Declares, hevent], by simpa using hat, hx⟩)
  | opened t =>
    rw [hevent] at hx
    exact .inr (.inr ⟨by simp [Declares, hevent], by simp, hx⟩)

/-- The symbol that a log leads to is exported just in case the log says so. -/
lemma exported_foldl_act_iff (hs : ∀ y ∈ s, y.exported = false) (hlog : ∀ e ∈ log, e.Sourced)
    (hx : log.foldl (Notice.act i name) s = some x) :
    x.exported = true ↔ ExportedIn log i name := by
  induction log using List.reverseRecOn with
  | nil => simp [ExportedIn, hs x hx]
  | append_singleton log e ih =>
    obtain ⟨hlog, hlast⟩ := List.forall_mem_append.1 hlog
    rw [List.foldl_concat] at hx
    rw [exportedIn_concat]
    obtain ⟨spelling, hevent, rfl, rfl⟩ | ⟨hevent, hexported⟩ | ⟨hdeclares, hlisted, hx⟩ :=
      Notice.act_eq_some hx
    · rw [(hlast e List.mem_cons_self).declared x spelling hevent]
      simp [Notice.Exports, Notice.Declares, hevent]
    · simp [Notice.Exports, hevent, hexported]
    · simp [Notice.Exports, hdeclares, hlisted, ih hlog hx]

/-- An exported symbol was declared as exported, or its name is listed. -/
lemma exists_source_of_foldl_act (hs : ∀ y ∈ s, y.exported = false)
    (hx : log.foldl (Notice.act i name) s = some x) (hexported : x.exported = true) :
    ∃ e ∈ log, (∃ spelling, e.event = .declared x spelling) ∨ e.event = .listed i name := by
  induction log using List.reverseRecOn with
  | nil => simp [hs x hx] at hexported
  | append_singleton log e ih =>
    rw [List.foldl_concat] at hx
    obtain ⟨spelling, hevent, -⟩ | ⟨hevent, -⟩ | ⟨-, -, hx⟩ := Notice.act_eq_some hx
    · exact ⟨e, by simp, .inl ⟨spelling, hevent⟩⟩
    · exact ⟨e, by simp, .inr hevent⟩
    · obtain ⟨e', he', hsource⟩ := ih hx
      exact ⟨e', List.mem_append_left _ he', hsource⟩

end

namespace Draft

variable {o : Options} {h root : Node} {d : Draft} {scope around : Nat} {exports : Option Nat}
  {under : List (Node × Nat)} {xs : List Outline} {as : List Node}

lemma sourced_declared (hexports : exports = (exporter? under).map (·.2)) (x : Declaration)
    (i : Nat) : Notice.Sourced ⟨.declared (x.symbol i exports) x.node, under⟩ := by
  constructor
  · rintro _ _ ⟨⟩
    cases hfind : exporter? under with
    | none => simp [hexports, hfind, Declaration.symbol]
    | some f =>
      obtain ⟨statement, j⟩ := f
      simp [hexports, hfind, Declaration.symbol]
  · rintro _ _ ⟨⟩

/-- If the scope that exports is that of the innermost export statement, all exports are due to
export statements. -/
lemma sourced_notices {x : Outline} (hx : Attributed x)
    (hexports : exports = (exporter? under).map (·.2)) :
    ∀ e ∈ notices o scope around exports under x d, e.Sourced := by
  induction hx generalizing scope around exports under d with
  | declare x | declareOutside x =>
    rw [notices]
    simpa using sourced_declared hexports x _
  | @scope kind owner inner _ ih =>
    rw [notices]
    generalize d.openScope o kind scope owner = opened
    obtain ⟨id | id, d'⟩ := opened
    · simp
    · refine List.forall_mem_cons.2 ⟨⟨?_, ?_⟩, forall_mem_noticesAll fun x hx d => ih x hx hexports⟩
      · rintro _ _ ⟨⟩
      · rintro _ _ ⟨⟩
  | @node n inner hkind _ ih =>
    rw [notices]
    refine forall_mem_noticesAll fun x hx d => ih x hx ?_
    simpa [exporter?, hkind] using hexports
  | @statement e inner hkind _ hlists ih =>
    -- the statement becomes the innermost one where its scope becomes the one that exports
    have hown : some scope = (exporter? ((e, scope) :: under)).map (·.2) := by
      simp [exporter?, hkind]
    simp only [notices, noticesAll, List.append_nil]
    refine forall_mem_noticesAll fun x hx d => ?_
    by_cases hnames : ∃ names, x = .exportNames names
    · obtain ⟨names, rfl⟩ := hnames
      rw [notices]
      intro e' he'
      obtain ⟨name, hname, rfl⟩ := List.mem_map.1 he'
      constructor
      · rintro _ _ ⟨⟩
      · rintro _ _ ⟨⟩
        exact ⟨e, under, rfl, hkind, hlists names hx name hname⟩
    · exact ih x hx (fun names hsame => hnames ⟨names, hsame⟩) hown

end Draft

/-! ### The log leads to the model -/

namespace Model

variable {limit : Nat} {log log' : List Notice} {m m' m'' : Model} {under : List (Node × Nat)}

/-- The second model is well-formed and has under each name what the log makes of the first. -/
structure Follows (limit : Nat) (log : List Notice) (m m' : Model) : Prop where
  wellFormed : m'.WellFormed limit
  symbolAt? : ∀ i name, m'.symbolAt? i name = log.foldl (Notice.act i name) (m.symbolAt? i name)

lemma Follows.refl (hm : m.WellFormed limit) : Follows limit [] m m := ⟨hm, fun _ _ => rfl⟩

lemma Follows.append (h : Follows limit log m m') (h' : Follows limit log' m' m'') :
    Follows limit (log ++ log') m m'' := by
  refine ⟨h'.wellFormed, fun i name => ?_⟩
  rw [h'.symbolAt?, h.symbolAt?, List.foldl_append]

lemma follows_insert (hm : m.WellFormed limit) (o : Options) {x : Symbol}
    (hx : x.scope < m.scopes.size) (spelling : Option Node) :
    Follows limit [⟨.declared x spelling, under⟩] m (m.insert o x) := by
  refine ⟨hm.insert o x, fun i name => ?_⟩
  rw [symbolAt?_insert hm.indexed, List.foldl_cons, List.foldl_nil, Notice.act]
  by_cases hat : x.scope = i ∧ x.name = name
  · obtain ⟨rfl, rfl⟩ := hat
    simp [hx]
  · simp [hat]

lemma follows_foldl_exportName (hm : m.WellFormed limit) (scope : Nat) (names : List String)
    (under : List (Node × Nat)) :
    Follows limit (names.map fun name => ⟨.listed scope name, under⟩) m
      (names.foldl (exportName scope) m) := by
  induction names generalizing m with
  | nil => exact .refl hm
  | cons name names ih =>
    have hfirst : Follows limit [⟨.listed scope name, under⟩] m (m.exportName scope name) :=
      ⟨hm.exportName scope name, symbolAt?_exportName hm.indexed scope name⟩
    exact hfirst.append (ih hfirst.wellFormed)

end Model

namespace Draft

variable {o : Options} {h root : Node} {d : Draft} {scope around : Nat} {exports : Option Nat}
  {under : List (Node × Nat)} {xs : List Outline} {as : List Node}

lemma follows_declare (hd : d.model.WellFormed o.maxDepth) {into : Nat}
    (hinto : into < d.model.scopes.size) (exports : Option Nat) (x : Declaration)
    (under : List (Node × Nat)) :
    Model.Follows o.maxDepth [⟨.declared (x.symbol into exports) x.node, under⟩] d.model
      (d.declare o into exports x).model :=
  Model.follows_insert hd o hinto x.node

/-- The log of a run says what becomes of each name of each scope. -/
lemma follows_runAll (hx : Laid h xs as) (hd : d.model.WellFormed o.maxDepth)
    (hscope : scope < d.model.scopes.size) (haround : around < d.model.scopes.size)
    (exports : Option Nat) (under : List (Node × Nat)) :
    Model.Follows o.maxDepth (noticesAll o scope around exports under xs d) d.model
      (runAll o scope around exports xs d).model := by
  induction hx generalizing scope around exports under d with
  | nil h =>
    rw [runAll, noticesAll]
    exact .refl hd
  | @declare _ x _ _ _ _ ih =>
    simp only [runAll, run, noticesAll, notices]
    have hfirst := follows_declare hd hscope exports x under
    exact hfirst.append
      (ih hfirst.wellFormed (lt_declare hscope) (lt_declare haround) exports under)
  | @declareOutside _ x _ _ _ _ ih =>
    simp only [runAll, run, noticesAll, notices]
    have hfirst := follows_declare hd haround exports x under
    exact hfirst.append
      (ih hfirst.wellFormed (lt_declare hscope) (lt_declare haround) exports under)
  | @exportNames _ names _ _ _ ih =>
    simp only [runAll, run, noticesAll, notices]
    have hscopes := foldl_exportName_scopes names scope d.model
    have hfirst := Model.follows_foldl_exportName hd scope names under
    exact hfirst.append
      (ih hfirst.wellFormed (hscopes ▸ hscope) (hscopes ▸ haround) exports under)
  | @exporting _ _ _ _ _ hinner _ _ ihinner ih | @node _ _ _ _ _ _ _ hinner _ _ _ ihinner ih =>
    simp only [runAll, run, noticesAll, notices]
    refine .append (ihinner hd hscope haround _ _) (ih ?_ (lt_runAll hinner hscope)
      (lt_runAll hinner haround) exports under)
    exact (ihinner hd hscope haround _ under).wellFormed
  | @scope _ owner kind inner _ _ _ hkind _ hinner _ _ _ ihinner ih =>
    rw [runAll, noticesAll]
    have hwell := wellFormed_openScope hkind hd scope owner
    -- A scope that lies too deep changes nothing; any other is opened before what it holds.
    obtain ⟨hnone, -, hmodel⟩ | ⟨depth, -, hopen⟩ := openScope_cases o kind scope owner d
    · rw [run_scope_of_none hnone, notices_scope_of_none hnone, List.nil_append]
      rw [← hmodel] at hd hscope haround ⊢
      exact ih hd hscope haround exports under
    · rw [run_scope_of_some hopen, notices_scope_of_some hopen]
      rw [hopen] at hwell
      have hlt {i : Nat} (hi : i ≤ d.model.scopes.size) :
          i < (d.withScope kind scope depth owner).model.scopes.size := lt_withScope hi
      have hopened : Model.Follows o.maxDepth [⟨.opened d.model.scopes.size, under⟩] d.model
          (d.withScope kind scope depth owner).model :=
        ⟨hwell, fun i name => Model.symbolAt?_openScope hscope i name⟩
      have hfirst := hopened.append
        (ihinner hwell (hlt (Nat.le_refl _)) (hlt (Nat.le_of_lt hscope)) exports under)
      exact hfirst.append (ih hfirst.wellFormed (lt_runAll hinner (hlt (Nat.le_of_lt hscope)))
        (lt_runAll hinner (hlt (Nat.le_of_lt haround))) exports under)

/-- Every scope that a run opens is in its log. -/
lemma exists_opened (hx : Laid h xs as) {t : Nat} (hle : d.model.scopes.size ≤ t)
    (hlt : t < (runAll o scope around exports xs d).model.scopes.size) :
    ∃ e ∈ noticesAll o scope around exports under xs d, e.event = .opened t := by
  induction hx generalizing scope around exports under d with
  | nil h =>
    rw [runAll] at hlt
    exact absurd hlt (Nat.not_lt.2 hle)
  | @declare _ x _ _ _ _ ih | @declareOutside _ x _ _ _ _ ih =>
    simp only [runAll, run] at hlt
    obtain ⟨e, he, hevent⟩ := ih (by rwa [declare_scopes_size]) hlt
    exact ⟨e, List.mem_append_right _ he, hevent⟩
  | @exportNames _ names _ _ _ ih =>
    simp only [runAll, run] at hlt
    obtain ⟨e, he, hevent⟩ := ih (by rwa [foldl_exportName_scopes]) hlt
    exact ⟨e, List.mem_append_right _ he, hevent⟩
  | exporting _ _ _ ihinner ih | node _ _ _ _ _ ihinner ih =>
    simp only [runAll, run] at hlt
    simp only [noticesAll, notices, run, List.mem_append]
    rcases Nat.lt_or_ge t _ with hearly | hlate
    · obtain ⟨e, he, hevent⟩ := ihinner hle hearly
      exact ⟨e, .inl he, hevent⟩
    · obtain ⟨e, he, hevent⟩ := ih hlate hlt
      exact ⟨e, .inr he, hevent⟩
  | @scope _ owner kind inner _ _ _ _ _ _ _ _ _ ihinner ih =>
    rw [runAll] at hlt
    rw [noticesAll]
    simp only [List.mem_append]
    obtain ⟨hnone, -, hmodel⟩ | ⟨depth, -, hopen⟩ := openScope_cases o kind scope owner d
    · rw [run_scope_of_none hnone] at hlt ⊢
      obtain ⟨e, he, hevent⟩ := ih (by rwa [hmodel]) hlt
      exact ⟨e, .inr he, hevent⟩
    · rw [run_scope_of_some hopen] at hlt ⊢
      rw [notices_scope_of_some hopen]
      -- the scope is the one just opened, one inside it, or a later one
      by_cases hnew : t = d.model.scopes.size
      · exact ⟨_, .inl List.mem_cons_self, by rw [hnew]⟩
      · have hopened : (d.withScope kind scope depth owner).model.scopes.size ≤ t := by
          rw [withScope_model, Model.openScope_scopes_size]
          omega
        rcases Nat.lt_or_ge t _ with hearly | hlate
        · obtain ⟨e, he, hevent⟩ := ihinner hopened hearly
          exact ⟨e, .inl (List.mem_cons_of_mem _ he), hevent⟩
        · obtain ⟨e, he, hevent⟩ := ih hlate hlt
          exact ⟨e, .inr he, hevent⟩

end Draft

/-! ### The nodes around an event -/

/-- The nodes around the event are among the given stops. A scope is newer than theirs, and a
declaration is made at or below each of them. -/
structure Notice.Placed (stops : List (Node × Nat)) (e : Notice) : Prop where
  stops : ∀ f ∈ e.under, f ∈ stops
  opened : ∀ t, e.event = .opened t → ∀ f ∈ e.under, f.2 < t
  declared : ∀ x spelling, e.event = .declared x spelling → ∀ f ∈ e.under,
    (∀ n ∈ spelling, n ∈ f.1.preorder) ∧ ∀ g ∈ e.under.head?, g.1 ∈ f.1.preorder

/-- The nodes around a run are among the given stops, in scopes that are open already. The run is at
or below `h`, which is below all of them, and the innermost is below the others. -/
structure Stacked (stops : List (Node × Nat)) (h : Node) (size : Nat) (under : List (Node × Nat)) :
    Prop where
  stops : ∀ f ∈ under, f ∈ stops
  older : ∀ f ∈ under, f.2 < size
  around : ∀ f ∈ under, h ∈ f.1.preorder
  chain : ∀ g ∈ under.head?, ∀ f ∈ under, g.1 ∈ f.1.preorder

namespace Stacked

variable {stops under : List (Node × Nat)} {h n : Node} {size size' : Nat}

lemma inward (hunder : Stacked stops h size under) (hn : n ∈ h.preorder) (hsize : size ≤ size') :
    Stacked stops n size' under :=
  ⟨hunder.stops, fun f hf => Nat.lt_of_lt_of_le (hunder.older f hf) hsize,
    fun f hf => Node.mem_preorder_trans hn (hunder.around f hf), hunder.chain⟩

lemma grow (hunder : Stacked stops h size under) (hsize : size ≤ size') :
    Stacked stops h size' under :=
  hunder.inward h.self_mem_preorder hsize

lemma push (hunder : Stacked stops h size under) (hn : n ∈ h.preorder) {i : Nat} (hi : i < size)
    (hstop : (n, i) ∈ stops) : Stacked stops n size ((n, i) :: under) := by
  have haround : ∀ f ∈ (n, i) :: under, n ∈ f.1.preorder :=
    List.forall_mem_cons.2 ⟨n.self_mem_preorder, (hunder.inward hn (Nat.le_refl _)).around⟩
  refine ⟨List.forall_mem_cons.2 ⟨hstop, hunder.stops⟩,
    List.forall_mem_cons.2 ⟨hi, hunder.older⟩, haround, fun g hg => ?_⟩
  obtain rfl : (n, i) = g := Option.some.inj hg
  exact haround

lemma placed_declared (hunder : Stacked stops h size under) {spelling : Option Node}
    (hspelling : ∀ n ∈ spelling, n ∈ h.preorder) (x : Symbol) :
    Notice.Placed stops ⟨.declared x spelling, under⟩ := by
  refine ⟨hunder.stops, ?_, ?_⟩
  · rintro _ ⟨⟩
  · rintro _ _ ⟨⟩ f hf
    exact ⟨fun n hn => Node.mem_preorder_trans (hspelling n hn) (hunder.around f hf),
      fun g hg => hunder.chain g hg f hf⟩

lemma placed_listed (hunder : Stacked stops h size under) (i : Nat) (name : String) :
    Notice.Placed stops ⟨.listed i name, under⟩ := by
  refine ⟨hunder.stops, ?_, ?_⟩
  · rintro _ ⟨⟩
  · rintro _ _ ⟨⟩

lemma placed_opened (hunder : Stacked stops h size under) :
    Notice.Placed stops ⟨.opened size, under⟩ := by
  refine ⟨hunder.stops, ?_, ?_⟩
  · rintro _ ⟨⟩
    exact hunder.older
  · rintro _ _ ⟨⟩

end Stacked

namespace Draft

variable {o : Options} {h root : Node} {d : Draft} {scope around : Nat} {exports : Option Nat}
  {found under : List (Node × Nat)} {xs : List Outline} {as : List Node}

/-- The events of a run take place inside nodes that it came to. -/
lemma placed_noticesAll (hx : Laid h xs as) (hscope : scope < d.model.scopes.size)
    (hfound : ∀ f ∈ stopsAll o scope around exports xs d, f ∈ found)
    (hunder : Stacked found h d.model.scopes.size under) :
    ∀ e ∈ noticesAll o scope around exports under xs d, e.Placed found := by
  induction hx generalizing scope around exports under d with
  | nil h => simp [noticesAll]
  | @declare _ x _ _ hname _ ih =>
    simp only [stopsAll, stops, run, List.nil_append] at hfound
    simp only [noticesAll, notices, run]
    refine List.forall_mem_cons.2 ⟨hunder.placed_declared hname _, ?_⟩
    exact ih (lt_declare hscope) hfound (by rwa [declare_scopes_size])
  | @declareOutside _ x _ _ hclass _ ih =>
    simp only [stopsAll, stops, run, List.nil_append] at hfound
    simp only [noticesAll, notices, run]
    refine List.forall_mem_cons.2 ⟨hunder.placed_declared hclass.mem_preorder _, ?_⟩
    exact ih (lt_declare hscope) hfound (by rwa [declare_scopes_size])
  | @exportNames _ names _ _ _ ih =>
    simp only [stopsAll, stops, run, List.nil_append] at hfound
    simp only [noticesAll, notices, run]
    have hscopes := foldl_exportName_scopes names scope d.model
    refine List.forall_mem_append.2 ⟨?_, ?_⟩
    · simpa using fun name _ => hunder.placed_listed scope name
    · exact ih (hscopes ▸ hscope) hfound (hunder.grow (hscopes ▸ Nat.le_refl _))
  | @exporting _ _ _ _ _ hinner _ _ ihinner ih =>
    simp only [stopsAll, stops, run] at hfound
    obtain ⟨hfirst, hrest⟩ := List.forall_mem_append.1 hfound
    simp only [noticesAll, notices, run]
    refine List.forall_mem_append.2 ⟨ihinner hscope hfirst hunder, ?_⟩
    exact ih (lt_runAll hinner hscope) hrest (hunder.grow (size_le_runAll hinner))
  | @node _ n _ _ _ _ hn hinner _ _ _ ihinner ih =>
    simp only [stopsAll, stops, run, List.cons_append] at hfound
    obtain ⟨hstop, hfound⟩ := List.forall_mem_cons.1 hfound
    obtain ⟨hfirst, hrest⟩ := List.forall_mem_append.1 hfound
    simp only [noticesAll, notices, run]
    refine List.forall_mem_append.2 ⟨ihinner hscope hfirst (hunder.push hn hscope hstop), ?_⟩
    exact ih (lt_runAll hinner hscope) hrest (hunder.grow (size_le_runAll hinner))
  | @scope _ owner kind inner _ _ _ _ howns hinner _ _ _ ihinner ih =>
    rw [stopsAll] at hfound
    obtain ⟨hfirst, hrest⟩ := List.forall_mem_append.1 hfound
    rw [noticesAll]
    obtain ⟨hnone, -, hmodel⟩ | ⟨depth, -, hopen⟩ := openScope_cases o kind scope owner d
    · rw [run_scope_of_none hnone] at hrest ⊢
      rw [notices_scope_of_none hnone, List.nil_append]
      rw [← hmodel] at hscope hunder
      exact ih hscope hrest hunder
    · rw [run_scope_of_some hopen] at hrest ⊢
      rw [notices_scope_of_some hopen]
      rw [stops, hopen] at hfirst
      have hlt {i : Nat} (hi : i ≤ d.model.scopes.size) :
          i < (d.withScope kind scope depth owner).model.scopes.size := lt_withScope hi
      have hsize := Nat.le_of_lt (hlt (Nat.le_refl _))
      -- the new scope has the next number, so it is none of those in which the nodes around stand
      refine List.forall_mem_append.2 ⟨List.forall_mem_cons.2 ⟨hunder.placed_opened, ?_⟩, ?_⟩
      · exact ihinner (hlt (Nat.le_refl _)) hfirst (hunder.inward howns.mem hsize)
      · exact ih (lt_runAll hinner (hlt (Nat.le_of_lt hscope))) hrest
          (hunder.grow (Nat.le_trans hsize (size_le_runAll hinner)))

/-! ### The log of a program -/

/-- The names of the platform open no scope and are not exported. -/
lemma declareBuiltins_start (o : Options) (root : Node) :
    ((start root).declareBuiltins o).model.scopes.size = 1 ∧
      ∀ x ∈ ((start root).declareBuiltins o).model.symbols, x.exported = false := by
  have hstart : (start root).model.scopes.size = 1 ∧
      ∀ x ∈ (start root).model.symbols, x.exported = false := by
    simp [start, Model.start]
  rw [declareBuiltins]
  split_ifs
  · refine List.foldlRecOn o.builtins (fun (m : Model) (name : String) => m.insert o _)
      (motive := fun m => m.scopes.size = 1 ∧ ∀ x ∈ m.symbols, x.exported = false) hstart ?_
    rintro m ⟨hsize, hm⟩ name -
    refine ⟨(Model.insert_scopes_size ..).trans hsize, fun x hx => ?_⟩
    rcases Model.mem_symbols_insert hx with rfl | hx
    · rfl
    · exact hm x hx
  · exact hstart

lemma sourced_noticesOf (o : Options) (root : Node) : ∀ e ∈ noticesOf o root, e.Sourced :=
  forall_mem_noticesAll fun x hx _ => sourced_notices (attributed_outline root x hx) rfl

lemma placed_noticesOf (o : Options) (root : Node) :
    ∀ e ∈ noticesOf o root, e.Placed (stopsOf o root) := by
  have hglobal := (logged_builtins o root).wellFormed.nested.nonempty
  refine placed_noticesAll (laid_outline root root.self_mem_preorder) hglobal (fun _ hf => hf) ?_
  constructor <;> simp

lemma follows_ofRoot (o : Options) (root : Node) :
    Model.Follows o.maxDepth (noticesOf o root) ((start root).declareBuiltins o).model
      (ofRoot o root).model := by
  have hstart := (logged_builtins o root).wellFormed
  have hglobal := hstart.nested.nonempty
  exact follows_runAll (laid_outline root root.self_mem_preorder) hstart hglobal hglobal none []

/-- Every scope but the global one is opened in the run over the program. -/
lemma exists_opened_noticesOf (o : Options) (root : Node) {t : Nat} (hpos : 0 < t)
    (hlt : t < (ofRoot o root).model.scopes.size) :
    ∃ e ∈ noticesOf o root, e.event = .opened t := by
  refine exists_opened (laid_outline root root.self_mem_preorder) ?_ hlt
  rw [(declareBuiltins_start o root).1]
  exact hpos

end Draft

/-! ### The finished model -/

lemma Model.Indexed.symbolAt?_of_mem {m : Model} (h : m.Indexed) {x : Symbol} (hx : x ∈ m.symbols) :
    m.symbolAt? x.scope x.name = some x := by
  obtain ⟨k, hk⟩ := Array.mem_iff_getElem?.1 hx
  rw [symbolAt?, h.idAt?_eq_some_iff.2 ⟨x, hk, rfl, rfl⟩, Option.bind_some, hk]

/-- But for their uses, the symbols of the finished model are those of the draft. -/
lemma mem_symbols_ofRoot {o : Options} {root : Node} {x : Symbol}
    (hx : x ∈ (analyze o root).symbols) :
    { x with uses := #[] } ∈ (Draft.ofRoot o root).model.symbols := by
  have hsame : (analyze o root).withoutUses = (Draft.ofRoot o root).model := by
    rw [← Draft.ofRoot_references o false]
    exact withoutUses_analyze o root o.references
  rw [← hsame]
  exact Array.mem_map_of_mem hx

/-- The run came to the export statement in the scope of the symbol. It was inside the statement
when it declared the symbol, at or below it, or the statement lists the name of the symbol. -/
structure ExportedBy (o : Options) (root : Node) (x : Symbol) (statement : Node) : Prop where
  kind : statement.kind = "export_statement"
  stop : (statement, x.scope) ∈ Draft.stopsOf o root
  reason : (∃ spelling under,
      ⟨.declared { x with uses := #[] } spelling, under⟩ ∈ Draft.noticesOf o root ∧
      (statement, x.scope) ∈ under ∧ (∀ n ∈ spelling, n ∈ statement.preorder) ∧
      ∀ g ∈ under.head?, g.1 ∈ statement.preorder) ∨
    ListsName statement x.name

/-- A symbol of the finished model and the log of the run. -/
lemma foldl_act_noticesOf {o : Options} {root : Node} {x : Symbol}
    (hx : x ∈ (analyze o root).symbols) :
    ∃ s : Option Symbol, (∀ y ∈ s, y.exported = false) ∧
      (Draft.noticesOf o root).foldl (Notice.act x.scope x.name) s
        = some { x with uses := #[] } := by
  have hfollows := Draft.follows_ofRoot o root
  refine ⟨((Draft.start root).declareBuiltins o).model.symbolAt? x.scope x.name,
    fun y hy => ?_, ?_⟩
  · obtain ⟨k, -, hk⟩ := Option.bind_eq_some_iff.1 hy
    exact (Draft.declareBuiltins_start o root).2 y (Array.mem_of_getElem? hk)
  · rw [← hfollows.symbolAt?]
    exact hfollows.wellFormed.indexed.symbolAt?_of_mem (mem_symbols_ofRoot hx)

lemma exists_exportedBy {o : Options} {root : Node} {x : Symbol}
    (hx : x ∈ (analyze o root).symbols) (hexported : x.exported = true) :
    ∃ statement, ExportedBy o root x statement := by
  obtain ⟨s, hs, hfold⟩ := foldl_act_noticesOf hx
  obtain ⟨e, he, ⟨spelling, hevent⟩ | hevent⟩ := exists_source_of_foldl_act hs hfold hexported
  · have hplaced := Draft.placed_noticesOf o root e he
    obtain ⟨statement, hfind⟩ :=
      ((Draft.sourced_noticesOf o root e he).declared _ _ hevent).1 hexported
    obtain ⟨hmem, hkind⟩ := exporter?_eq_some hfind
    obtain ⟨hspelling, hinner⟩ := hplaced.declared _ _ hevent _ hmem
    refine ⟨statement, hkind, hplaced.stops _ hmem, .inl ?_⟩
    refine ⟨spelling, e.under, ?_, hmem, hspelling, hinner⟩
    rw [← hevent]
    exact he
  · obtain ⟨statement, rest, hunder, hkind, hlists⟩ :=
      (Draft.sourced_noticesOf o root e he).listed _ _ hevent
    refine ⟨statement, hkind, (Draft.placed_noticesOf o root e he).stops _ ?_, .inr hlists⟩
    rw [hunder]
    exact List.mem_cons_self

/-- Going through a node leaves the scope that exports as it was. A symbol is exported just in case
the log says so, and then by an export statement that the run came to in the scope of the symbol. No
such statement is one that the run was inside of when it opened this scope. -/
theorem analyze_exports (o : Options) (root : Node) :
    (∀ n scope around m, Marked.collect o scope around n m
      = ⟨Draft.runAll o scope around m.exports (outline n) m.draft, m.exports⟩) ∧
    (∀ x ∈ (analyze o root).symbols,
      x.exported = true ↔ ExportedIn (Draft.noticesOf o root) x.scope x.name) ∧
    (∀ x ∈ (analyze o root).symbols, x.exported = true → ∃ e, ExportedBy o root x e) ∧
    ∀ t, 0 < t → t < (analyze o root).scopes.size →
      (∃ under, ⟨.opened t, under⟩ ∈ Draft.noticesOf o root) ∧
      ∀ under, ⟨.opened t, under⟩ ∈ Draft.noticesOf o root → ∀ f ∈ under, f.2 ≠ t := by
  refine ⟨fun n scope around m => Marked.runAll_eq o scope around _ m, fun x hx => ?_,
    fun x hx => exists_exportedBy hx, fun t hpos hlt => ⟨?_, fun under hmem f hf => ?_⟩⟩
  · obtain ⟨s, hs, hfold⟩ := foldl_act_noticesOf hx
    have hexported := exported_foldl_act_iff hs (Draft.sourced_noticesOf o root) hfold
    exact hexported
  · rw [analyze_scopes] at hlt
    obtain ⟨⟨_, under⟩, he, rfl⟩ := Draft.exists_opened_noticesOf o root hpos hlt
    exact ⟨under, he⟩
  · exact Nat.ne_of_lt ((Draft.placed_noticesOf o root _ hmem).opened t rfl f hf)

end Arbor.Symbols
