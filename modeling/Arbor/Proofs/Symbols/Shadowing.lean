import Arbor.Proofs.Symbols.Builtins
import Arbor.Proofs.Symbols.Nesting
import Arbor.Proofs.Symbols.Truncation

/-!
# What a declaration hides

A declaration notes what it hides when it is made: what its name stands for, from the scope around
its own outward, among the declarations before it. The log of all declarations in their order says
this without the model. A later declaration may change what the name stands for there, and then it
is one in the scope of the hidden declaration or in a scope between the two.
-/

namespace Arbor.Symbols

open Outline

/-! ### Names in a log of declarations -/

/-- The last declaration of a name in a scope. -/
def lastIn? (log : List Symbol) (name : String) (i : Nat) : Option Symbol :=
  log.reverse.find? fun x => x.scope == i && x.name == name

/-- From a scope outward, the declaration is the last one of the name in the first scope that
declares the name. -/
inductive StandsFor (scopes : Array Scope) (log : List Symbol) (name : String) :
    Nat → Symbol → Prop where
  | own {i : Nat} {x : Symbol} : lastIn? log name i = some x → StandsFor scopes log name i x
  | outward {i p : Nat} {x : Symbol} : lastIn? log name i = none → around? scopes i = some p →
    StandsFor scopes log name p x → StandsFor scopes log name i x

/-- What a declaration hides when the log before it is given. -/
inductive Shadows (scopes : Array Scope) (before : List Symbol) (x : Symbol) :
    Shadowing → Prop where
  | intro {p : Nat} {hidden : Symbol} : x.builtin = false → x.isLexical = true →
    around? scopes x.scope = some p → StandsFor scopes before x.name p hidden →
    hidden.builtin = false →
    Shadows scopes before x ⟨x.name, x.span, x.scope, hidden.span, hidden.scope⟩

section

variable {m : Model} {limit : Nat} {scopes : Array Scope} {log before after : List Symbol}
  {name : String} {i p : Nat} {x : Symbol}

lemma lastIn?_eq_some (h : lastIn? log name i = some x) :
    x ∈ log ∧ x.scope = i ∧ x.name = name := by
  have hmem := List.mem_of_find?_eq_some h
  have hfound := List.find?_some h
  rw [Bool.and_eq_true, beq_iff_eq, beq_iff_eq] at hfound
  exact ⟨List.mem_reverse.1 hmem, hfound⟩

lemma lastIn?_append (before after : List Symbol) (name : String) (i : Nat) :
    lastIn? (before ++ after) name i = (lastIn? after name i).or (lastIn? before name i) := by
  rw [lastIn?, List.reverse_append, List.find?_append, lastIn?, lastIn?]

lemma lastIn?_concat (log : List Symbol) (x : Symbol) (name : String) (i : Nat) :
    lastIn? (log ++ [x]) name i
      = if x.scope = i ∧ x.name = name then some x else lastIn? log name i := by
  rw [lastIn?_append]
  by_cases hx : x.scope = i ∧ x.name = name
  · simp [lastIn?, hx]
  · have hnone : lastIn? [x] name i = none := by simpa [lastIn?] using hx
    rw [hnone, if_neg hx, Option.none_or]

/-- A name stands for a declaration in a scope at or around the one where it is looked up. -/
lemma StandsFor.encloses (h : StandsFor scopes log name i x) : Encloses scopes x.scope i := by
  induction h with
  | own hx =>
    rw [(lastIn?_eq_some hx).2.1]
    exact .refl
  | outward _ hp _ ih => exact ih.inward hp

lemma standsFor_iff : StandsFor scopes log name i x ↔ lastIn? log name i = some x ∨
    (lastIn? log name i = none ∧ ∃ p, around? scopes i = some p ∧
      StandsFor scopes log name p x) := by
  constructor
  · rintro (hx | ⟨hnone, hp, hstands⟩)
    · exact .inl hx
    · exact .inr ⟨hnone, _, hp, hstands⟩
  · rintro (hx | ⟨hnone, p, hp, hstands⟩)
    · exact .own hx
    · exact .outward hnone hp hstands

/-- What a name stands for depends on the scopes at and around the given one only. -/
lemma standsFor_congr (hnested : Nested limit m.scopes)
    (hsame : ∀ j < m.scopes.size, around? scopes j = around? m.scopes j) (hi : i < m.scopes.size) :
    StandsFor scopes log name i x ↔ StandsFor m.scopes log name i x := by
  induction i using Model.outward_induction hnested with
  | step i ih =>
    rw [standsFor_iff, standsFor_iff, hsame i hi]
    have hout (p : Nat) (hp : around? m.scopes i = some p) :=
      ih p hp (Nat.lt_trans (Model.around?_lt hnested hp) hi)
    constructor
    · rintro (hx | ⟨hnone, p, hp, hstands⟩)
      · exact .inl hx
      · exact .inr ⟨hnone, p, hp, (hout p hp).1 hstands⟩
    · rintro (hx | ⟨hnone, p, hp, hstands⟩)
      · exact .inl hx
      · exact .inr ⟨hnone, p, hp, (hout p hp).2 hstands⟩

lemma shadows_congr (hnested : Nested limit m.scopes)
    (hsame : ∀ j < m.scopes.size, around? scopes j = around? m.scopes j)
    (hx : x.scope < m.scopes.size) {e : Shadowing} :
    Shadows scopes before x e ↔ Shadows m.scopes before x e := by
  have hcongr {p : Nat} {hidden : Symbol} (hp : around? m.scopes x.scope = some p) :
      StandsFor scopes before x.name p hidden ↔ StandsFor m.scopes before x.name p hidden :=
    standsFor_congr hnested hsame (Nat.lt_trans (Model.around?_lt hnested hp) hx)
  constructor
  · rintro ⟨hbuiltin, hlexical, hp, hstands, hhidden⟩
    rw [hsame _ hx] at hp
    exact ⟨hbuiltin, hlexical, hp, (hcongr hp).1 hstands, hhidden⟩
  · rintro ⟨hbuiltin, hlexical, hp, hstands, hhidden⟩
    have hstands := (hcongr hp).2 hstands
    rw [← hsame _ hx] at hp
    exact ⟨hbuiltin, hlexical, hp, hstands, hhidden⟩

/-- With more declarations a name stands for what it stood for, or for one of the new ones, which is
then in the same scope or further inside. -/
lemma StandsFor.extend {hidden : Symbol} (h : StandsFor scopes before name i hidden)
    (after : List Symbol) : ∃ x, StandsFor scopes (before ++ after) name i x ∧
      Encloses scopes hidden.scope x.scope ∧ (x = hidden ∨ x ∈ after ∧ x.name = name) := by
  have hnew {j : Nat} {x : Symbol} (hx : lastIn? after name j = some x) :
      StandsFor scopes (before ++ after) name j x := by
    refine .own ?_
    rw [lastIn?_append, hx, Option.some_or]
  induction h with
  | @own j hidden hlast =>
    cases hx : lastIn? after name j with
    | none =>
      refine ⟨hidden, .own ?_, .refl, .inl rfl⟩
      rw [lastIn?_append, hx, Option.none_or, hlast]
    | some x =>
      obtain ⟨hmem, hscope, hname⟩ := lastIn?_eq_some hx
      refine ⟨x, hnew hx, ?_, .inr ⟨hmem, hname⟩⟩
      rw [hscope, (lastIn?_eq_some hlast).2.1]
      exact .refl
  | @outward j p hidden hnone hp hstands ih =>
    cases hx : lastIn? after name j with
    | none =>
      obtain ⟨x, hstands, hin, hcases⟩ := ih
      refine ⟨x, .outward ?_ hp hstands, hin, hcases⟩
      rw [lastIn?_append, hx, hnone, Option.none_or]
    | some x =>
      obtain ⟨hmem, hscope, hname⟩ := lastIn?_eq_some hx
      refine ⟨x, hnew hx, ?_, .inr ⟨hmem, hname⟩⟩
      rw [hscope]
      exact hstands.encloses.inward hp

/-- A scope around another has a lower number, unless it is the same. -/
lemma Encloses.le (hnested : Nested limit m.scopes) {j : Nat} (h : Encloses m.scopes i j) :
    i ≤ j := by
  induction h with
  | refl => exact Nat.le_refl i
  | inward _ hp ih => exact Nat.le_trans ih (Nat.le_of_lt (Model.around?_lt hnested hp))

end

/-! ### A model and the log of its declarations -/

/-- What of a symbol is settled when it is declared. -/
def Symbol.site (x : Symbol) : Nat × Span × Bool := (x.scope, x.span, x.builtin)

namespace Model

variable {o : Options} {limit : Nat} {log : List Symbol} {m : Model} {x : Symbol}

/-- The model comes from the declarations of the log, in their order. -/
structure Logged (o : Options) (limit : Nat) (log : List Symbol) (m : Model) : Prop where
  wellFormed : m.WellFormed limit
  placed : ∀ x ∈ log, x.scope < m.scopes.size
  last : ∀ i name, (m.symbolAt? i name).map Symbol.site = (lastIn? log name i).map Symbol.site
  shadowings : o.shadowing = true → ∀ e, e ∈ m.shadowings ↔
    ∃ before x after, log = before ++ x :: after ∧ Shadows m.scopes before x e

/-- The model and the log agree on what a name stands for. -/
lemma Logged.map_site_resolve? (h : m.Logged o limit log) (name : String) (i : Nat)
    (site : Nat × Span × Bool) : (m.resolve? name i).map Symbol.site = some site ↔
      ∃ x, StandsFor m.scopes log name i x ∧ x.site = site := by
  induction i using outward_induction h.wellFormed.nested with
  | step i ih =>
    rw [resolve?_eq h.wellFormed]
    simp only [standsFor_iff (i := i)]
    have hlast := h.last i name
    cases hx : lastIn? log name i with
    | some x =>
      rw [hx, Option.map_some] at hlast
      obtain ⟨y, hy, hsite⟩ := Option.map_eq_some_iff.1 hlast
      simp [hy, hsite]
    | none =>
      rw [hx, Option.map_none, Option.map_eq_none_iff] at hlast
      rw [hlast, Option.none_or]
      cases hp : around? m.scopes i with
      | none => simp
      | some p => simp [ih p hp]

/-- What a declaration hides, by the log. -/
lemma Logged.shadowing?_eq_some_iff (h : m.Logged o limit log) {e : Shadowing} :
    m.shadowing? x = some e ↔ Shadows m.scopes log x e := by
  have hnested := h.wellFormed.nested
  rw [shadowing?_eq]
  constructor
  · intro he
    split_ifs at he with hcond
    obtain ⟨hbuiltin, hlexical⟩ : x.builtin = false ∧ x.isLexical = true := by simpa using hcond
    obtain ⟨p, hp, he⟩ := Option.bind_eq_some_iff.1 he
    obtain ⟨y, hy, he⟩ := Option.bind_eq_some_iff.1 he
    split_ifs at he with hhidden
    obtain ⟨hidden, hstands, hsite⟩ :=
      (h.map_site_resolve? x.name p y.site).1 (by rw [hy, Option.map_some])
    obtain ⟨hscope, hspan, hplatform⟩ : hidden.scope = y.scope ∧ hidden.span = y.span ∧
        hidden.builtin = y.builtin := by simpa [Symbol.site] using hsite
    rw [← Option.some.inj he, ← hscope, ← hspan]
    refine .intro hbuiltin hlexical hp hstands ?_
    rw [hplatform]
    simp_all
  · rintro ⟨hbuiltin, hlexical, hp, hstands, hhidden⟩
    rename_i p hidden
    obtain ⟨y, hy, hsite⟩ := Option.map_eq_some_iff.1
      ((h.map_site_resolve? x.name p hidden.site).2 ⟨hidden, hstands, rfl⟩)
    obtain ⟨hscope, hspan, hplatform⟩ : y.scope = hidden.scope ∧ y.span = hidden.span ∧
        y.builtin = hidden.builtin := by simpa [Symbol.site] using hsite
    -- what is hidden lies further out, so it is not in the scope of the declaration
    have hne : hidden.scope ≠ x.scope :=
      Nat.ne_of_lt (Nat.lt_of_le_of_lt (hstands.encloses.le hnested) (around?_lt hnested hp))
    simp [hbuiltin, hlexical, hp, hy, hscope, hspan, hplatform, hhidden, hne]

/-! ### Operations -/

lemma Logged.insert (h : m.Logged o limit log) (hx : x.scope < m.scopes.size) :
    (m.insert o x).Logged o limit (log ++ [x]) := by
  have hsame (j : Nat) : around? (m.insert o x).scopes j = around? m.scopes j :=
    around?_eq_of_frames (insert_frames m o x) j
  have hcongr {before : List Symbol} {y : Symbol} {e : Shadowing} (hy : y.scope < m.scopes.size) :
      Shadows (m.insert o x).scopes before y e ↔ Shadows m.scopes before y e :=
    shadows_congr h.wellFormed.nested (fun j _ => hsame j) hy
  constructor
  case wellFormed => exact h.wellFormed.insert o x
  case placed =>
    rw [insert_scopes_size]
    exact List.forall_mem_append.2 ⟨h.placed, by simpa using hx⟩
  case last =>
    intro i name
    rw [symbolAt?_insert h.wellFormed.indexed, lastIn?_concat]
    by_cases hat : x.scope = i ∧ x.name = name
    · obtain ⟨rfl, rfl⟩ := hat
      simp [hx]
    · rw [if_neg hat, if_neg fun hplace => hat hplace.2, h.last]
  case shadowings =>
    intro hshadowing e
    rw [insert_shadowings, if_pos hshadowing, Array.mem_append, h.shadowings hshadowing]
    have hnew : e ∈ (m.shadowing? x).toArray ↔ Shadows m.scopes log x e := by
      rw [← h.shadowing?_eq_some_iff]
      cases m.shadowing? x <;> simp [eq_comm]
    rw [hnew]
    constructor
    · rintro (⟨before, y, after, rfl, hy⟩ | hlast)
      · refine ⟨before, y, after ++ [x], by simp, (hcongr ?_).2 hy⟩
        exact h.placed y (by simp)
      · exact ⟨log, x, [], rfl, (hcongr hx).2 hlast⟩
    · rintro ⟨before, y, after, hlog, hy⟩
      -- The symbol that shadows is the new one, if none comes behind it in the log.
      rcases List.eq_nil_or_concat after with rfl | ⟨after, z, rfl⟩
      · obtain ⟨rfl, hlast⟩ := List.append_inj' hlog rfl
        obtain rfl := List.singleton_inj.1 hlast
        exact .inr ((hcongr hx).1 hy)
      · rw [List.concat_eq_append, ← List.cons_append, ← List.append_assoc] at hlog
        obtain ⟨rfl, -⟩ := List.append_inj' hlog rfl
        exact .inl ⟨before, y, after, rfl, (hcongr (h.placed y (by simp))).1 hy⟩

lemma Logged.exportName (h : m.Logged o limit log) (scope : Nat) (name : String) :
    (m.exportName scope name).Logged o limit log := by
  constructor
  case wellFormed => exact h.wellFormed.exportName scope name
  case placed =>
    rw [exportName_scopes]
    exact h.placed
  case last =>
    intro i other
    rw [symbolAt?_exportName h.wellFormed.indexed, ← h.last]
    split_ifs
    · rw [Option.map_map]
      rfl
    · rfl
  case shadowings =>
    rw [exportName_shadowings, exportName_scopes]
    exact h.shadowings

lemma Logged.openScope (h : m.Logged o limit log) {kind : ScopeKind} {parent depth : Nat}
    {span : Span} (hwell : (m.openScope kind parent depth span).WellFormed limit)
    (hparent : parent < m.scopes.size) :
    (m.openScope kind parent depth span).Logged o limit log := by
  have hsame (j : Nat) (hj : j < m.scopes.size) :
      around? (m.openScope kind parent depth span).scopes j = around? m.scopes j := by
    rw [around?_openScope hparent, if_neg (Nat.ne_of_lt hj)]
  constructor
  case wellFormed => exact hwell
  case placed =>
    intro x hx
    rw [openScope_scopes_size]
    exact Nat.lt_succ_of_lt (h.placed x hx)
  case last =>
    intro i name
    rw [symbolAt?_openScope hparent, h.last]
  case shadowings =>
    intro hshadowing e
    refine (h.shadowings hshadowing e).trans ?_
    constructor
    · rintro ⟨before, x, after, rfl, hx⟩
      exact ⟨before, x, after, rfl,
        (shadows_congr h.wellFormed.nested hsame (h.placed x (by simp))).2 hx⟩
    · rintro ⟨before, x, after, rfl, hx⟩
      exact ⟨before, x, after, rfl,
        (shadows_congr h.wellFormed.nested hsame (h.placed x (by simp))).1 hx⟩

end Model

/-! ### The log of a run -/

namespace Draft

mutual

/-- The symbols that a run declares, in their order. -/
def inserts (o : Options) (scope around : Nat) (exports : Option Nat) :
    Outline → Draft → List Symbol
  | .declare x, _ => [x.symbol scope exports]
  | .declareOutside x, _ => [x.symbol around exports]
  | .exportNames _, _ => []
  | .exporting inner, d => insertsAll o scope around (some scope) inner d
  | .node _ inner, d => insertsAll o scope around exports inner d
  | .scope kind owner inner, d =>
    match d.openScope o kind scope owner with
    | (some id, d) => insertsAll o id scope exports inner d
    | (none, _) => []

/-- The symbols that a run over several items declares. -/
def insertsAll (o : Options) (scope around : Nat) (exports : Option Nat) :
    List Outline → Draft → List Symbol
  | [], _ => []
  | x :: xs, d =>
    inserts o scope around exports x d
      ++ insertsAll o scope around exports xs (run o scope around exports x d)

end

/-- The symbols that a program declares, in their order, after those of the platform. -/
def insertsOf (o : Options) (root : Node) : List Symbol :=
  (if o.includeBuiltins then o.builtins.map Model.platformSymbol else [])
    ++ insertsAll o Model.globalScope Model.globalScope none (outline root)
      ((start root).declareBuiltins o)

variable {o : Options} {h root : Node} {d : Draft} {log : List Symbol} {scope around : Nat}
  {xs : List Outline} {as : List Node}

lemma inserts_scope_of_none {kind : ScopeKind} {owner : Node} {inner : List Outline}
    {exports : Option Nat} (hnone : (d.openScope o kind scope owner).1 = none) :
    inserts o scope around exports (.scope kind owner inner) d = [] := by
  rw [inserts]
  generalize d.openScope o kind scope owner = opened at hnone
  obtain ⟨id, d'⟩ := opened
  obtain rfl : id = none := hnone
  rfl

lemma inserts_scope_of_some {kind : ScopeKind} {owner : Node} {inner : List Outline} {id : Nat}
    {d' : Draft} {exports : Option Nat} (hopen : d.openScope o kind scope owner = (some id, d')) :
    inserts o scope around exports (.scope kind owner inner) d
      = insertsAll o id scope exports inner d' := by
  rw [inserts, hopen]

lemma logged_declare (hd : d.model.Logged o o.maxDepth log) {into : Nat}
    (hinto : into < d.model.scopes.size) (exports : Option Nat) (x : Declaration) :
    (d.declare o into exports x).model.Logged o o.maxDepth (log ++ [x.symbol into exports]) :=
  hd.insert hinto

/-- The log grows by what a run declares. -/
lemma logged_runAll (hx : Laid h xs as) (hd : d.model.Logged o o.maxDepth log)
    (hscope : scope < d.model.scopes.size) (haround : around < d.model.scopes.size)
    (exports : Option Nat) :
    (runAll o scope around exports xs d).model.Logged o o.maxDepth
      (log ++ insertsAll o scope around exports xs d) := by
  induction hx generalizing scope around exports d log with
  | nil h =>
    simp only [runAll, insertsAll, List.append_nil]
    exact hd
  | @declare _ x _ _ _ _ ih =>
    simp only [runAll, run, insertsAll, inserts, ← List.append_assoc]
    exact ih (logged_declare hd hscope exports x) (lt_declare hscope) (lt_declare haround) exports
  | @declareOutside _ x _ _ _ _ ih =>
    simp only [runAll, run, insertsAll, inserts, ← List.append_assoc]
    exact ih (logged_declare hd haround exports x) (lt_declare hscope) (lt_declare haround) exports
  | @exportNames _ names _ _ _ ih =>
    simp only [runAll, run, insertsAll, inserts, List.nil_append]
    have hnames : (names.foldl (Model.exportName scope) d.model).Logged o o.maxDepth log :=
      List.foldlRecOn names _ hd fun _ hm name _ => hm.exportName scope name
    have hscopes := foldl_exportName_scopes names scope d.model
    exact ih hnames (hscopes ▸ hscope) (hscopes ▸ haround) exports
  | @exporting _ _ _ _ _ hinner _ _ ihinner ih =>
    simp only [runAll, run, insertsAll, inserts, ← List.append_assoc]
    exact ih (ihinner hd hscope haround (some scope)) (lt_runAll hinner hscope)
      (lt_runAll hinner haround) exports
  | @node _ _ _ _ _ _ _ hinner _ _ _ ihinner ih =>
    simp only [runAll, run, insertsAll, inserts, ← List.append_assoc]
    exact ih (ihinner hd hscope haround exports) (lt_runAll hinner hscope)
      (lt_runAll hinner haround) exports
  | @scope _ owner kind inner _ _ _ hkind _ hinner _ _ _ ihinner ih =>
    rw [runAll, insertsAll, ← List.append_assoc]
    have hwell := wellFormed_openScope hkind hd.wellFormed scope owner
    -- A scope that lies too deep declares nothing; any other comes before what it holds.
    obtain ⟨hnone, -, hmodel⟩ | ⟨depth, -, hopen⟩ := openScope_cases o kind scope owner d
    · rw [run_scope_of_none hnone, inserts_scope_of_none hnone, List.append_nil]
      rw [← hmodel] at hd hscope haround
      exact ih hd hscope haround exports
    · rw [run_scope_of_some hopen, inserts_scope_of_some hopen]
      rw [hopen] at hwell
      have hopened : (d.withScope kind scope depth owner).model.Logged o o.maxDepth log :=
        hd.openScope hwell hscope
      have hlt {i : Nat} (hi : i ≤ d.model.scopes.size) :
          i < (d.withScope kind scope depth owner).model.scopes.size := lt_withScope hi
      exact ih (ihinner hopened (hlt (Nat.le_refl _)) (hlt (Nat.le_of_lt hscope)) exports)
        (lt_runAll hinner (hlt (Nat.le_of_lt hscope)))
        (lt_runAll hinner (hlt (Nat.le_of_lt haround))) exports

lemma logged_builtins (o : Options) (root : Node) :
    ((start root).declareBuiltins o).model.Logged o o.maxDepth
      (if o.includeBuiltins then o.builtins.map Model.platformSymbol else []) := by
  have hstart : (start root).model.Logged o o.maxDepth [] := by
    constructor
    case wellFormed => exact Model.wellFormed_start ..
    case placed => simp
    case last =>
      intro i name
      have hempty : (start root).model.symbolAt? i name = none := by
        cases hx : (start root).model.symbolAt? i name with
        | none => rfl
        | some x =>
          obtain ⟨k, -, hk⟩ := Option.bind_eq_some_iff.1 hx
          simp [start, Model.start] at hk
      rw [hempty]
      rfl
    case shadowings => simp [start, Model.start]
  have hrun (names : List String) (log : List Symbol) (m : Model) (hm : m.Logged o o.maxDepth log) :
      (names.foldl (fun m name => m.insert o (Model.platformSymbol name)) m).Logged o o.maxDepth
        (log ++ names.map Model.platformSymbol) := by
    induction names generalizing log m with
    | nil =>
      rw [List.map_nil, List.append_nil]
      exact hm
    | cons name names ih =>
      rw [List.map_cons, List.append_cons]
      exact ih _ _ (hm.insert hm.wellFormed.nested.nonempty)
  rw [declareBuiltins]
  split_ifs
  · exact hrun o.builtins [] _ hstart
  · exact hstart

/-- The model of a program comes from the declarations of its log. -/
lemma logged_ofRoot (o : Options) (root : Node) :
    (ofRoot o root).model.Logged o o.maxDepth (insertsOf o root) := by
  have hstart := logged_builtins o root
  have hglobal := hstart.wellFormed.nested.nonempty
  exact logged_runAll (laid_outline root root.self_mem_preorder) hstart hglobal hglobal none

end Draft

/-! ### The finished model -/

/-- The uses do not change what a name stands for. -/
lemma map_site_resolve?_analyze (o : Options) (root : Node) (name : String) (i : Nat) :
    ((analyze o root).resolve? name i).map Symbol.site
      = ((Draft.ofRoot o root).model.resolve? name i).map Symbol.site := by
  by_cases hreferences : o.references = true
  · rw [(recorded_of_references o root hreferences).resolve?_eq, Option.map_map]
    rfl
  · rw [analyze, if_neg hreferences]

/-- An entry is noted just in case a declaration of the log hides, when it is made, what the entry
says. In the finished model its name stands, from the scope around the declaration, for what the
entry says, or for a later declaration in the same scope as the hidden one or further inside. -/
theorem shadowings_analyze (o : Options) (root : Node) (hshadowing : o.shadowing = true)
    (e : Shadowing) :
    e ∈ (analyze o root).shadowings ↔ ∃ before x after,
      Draft.insertsOf o root = before ++ x :: after ∧ Shadows (analyze o root).scopes before x e ∧
      ∃ p y, around? (analyze o root).scopes e.scope = some p ∧
        (analyze o root).resolve? e.name p = some y ∧
        Encloses (analyze o root).scopes e.hiddenScope y.scope ∧
        Encloses (analyze o root).scopes y.scope p ∧
        ((y.scope = e.hiddenScope ∧ y.span = e.hiddenSpan) ∨
          ∃ z ∈ after, z.name = e.name ∧ z.scope = y.scope ∧ z.span = y.span) := by
  have hlogged := Draft.logged_ofRoot o root
  rw [analyze_scopes, analyze_shadowings, hlogged.shadowings hshadowing]
  constructor
  · rintro ⟨before, x, after, hlog, hx⟩
    refine ⟨before, x, after, hlog, hx, ?_⟩
    obtain ⟨-, -, hp, hstands, -⟩ := hx
    rename_i p hidden
    obtain ⟨z, hz, hin, hcases⟩ := hstands.extend (x :: after)
    rw [← hlog] at hz
    obtain ⟨y, hy, hsite⟩ := Option.map_eq_some_iff.1 <|
      (map_site_resolve?_analyze o root x.name p).trans
        ((hlogged.map_site_resolve? x.name p z.site).2 ⟨z, hz, rfl⟩)
    obtain ⟨hscope, hspan, -⟩ : y.scope = z.scope ∧ y.span = z.span ∧ y.builtin = z.builtin := by
      simpa [Symbol.site] using hsite
    refine ⟨p, y, hp, hy, hscope ▸ hin, hscope ▸ hz.encloses, ?_⟩
    rcases hcases with rfl | ⟨hmem, hname⟩
    · exact .inl ⟨hscope, hspan⟩
    · rcases List.mem_cons.1 hmem with rfl | hmem
      · -- the declaration itself lies inside the scope where its name is looked up
        have hnested := hlogged.wellFormed.nested
        exact absurd (hz.encloses.le hnested) (Nat.not_le.2 (Model.around?_lt hnested hp))
      · exact .inr ⟨z, hmem, hname, hscope.symm, hspan.symm⟩
  · rintro ⟨before, x, after, hlog, hx, -⟩
    exact ⟨before, x, after, hlog, hx⟩

/-- A variable, a block with a variable of the same name and, if wanted, the variable again. -/
def variableAroundBlock (again : Bool) : Node :=
  let declaration (column : Nat) : Tree :=
    let name : Tree := ⟨"identifier", "x", ⟨⟨0, column⟩, ⟨0, column + 1⟩⟩, [], ∅⟩
    ⟨"variable_declaration", "", .zero,
      [⟨"variable_declarator", "", .zero, [name], .ofList [("name", 0)]⟩], ∅⟩
  let block : Tree := ⟨"statement_block", "", .zero, [declaration 13], ∅⟩
  .root ⟨"program", "", .zero,
    [declaration 4, block] ++ if again then [declaration 22] else [], ∅⟩

/-- Without the last declaration, the name stands around the block for what is hidden in it. -/
theorem shadowings_analyze_variableAroundBlock :
    let o : Options := { includeBuiltins := false }
    ∃ e ∈ (analyze o (variableAroundBlock false)).shadowings, ∃ before x after,
      Draft.insertsOf o (variableAroundBlock false) = before ++ x :: after ∧
      Shadows (analyze o (variableAroundBlock false)).scopes before x e ∧
      ((analyze o (variableAroundBlock false)).resolve? e.name 0).map (·.span)
        = some e.hiddenSpan := by
  intro o
  have he : (⟨"x", ⟨⟨0, 13⟩, ⟨0, 14⟩⟩, 1, ⟨⟨0, 4⟩, ⟨0, 5⟩⟩, 0⟩ : Shadowing)
      ∈ (analyze o (variableAroundBlock false)).shadowings := by
    decide +kernel
  obtain ⟨before, x, after, hlog, hshadows, -⟩ :=
    (shadowings_analyze o (variableAroundBlock false) rfl _).1 he
  exact ⟨_, he, before, x, after, hlog, hshadows, by decide +kernel⟩

/-- A later declaration in the scope of the hidden one takes its place, and the entry stays. -/
theorem shadowings_variableAroundBlock_again :
    let m := analyze { includeBuiltins := false } (variableAroundBlock true)
    m.shadowings = #[⟨"x", ⟨⟨0, 13⟩, ⟨0, 14⟩⟩, 1, ⟨⟨0, 4⟩, ⟨0, 5⟩⟩, 0⟩] ∧
      around? m.scopes 1 = some 0 ∧
      (m.resolve? "x" 0).map (fun y => (y.scope, y.span)) = some (0, ⟨⟨0, 22⟩, ⟨0, 23⟩⟩) := by
  decide +kernel

end Arbor.Symbols
