import Arbor.Symbols.Analysis
import Mathlib.Data.List.Basic

/-!
# Scopes and symbols refer to each other

The model of names keeps scopes and symbols in two arrays that refer to each other by number. Here
the references are shown to be in order: the scopes form a tree in which every scope knows what lies
around and inside it, and every symbol stands in exactly one table, under its own name and in its
own scope. Each operation of the analysis keeps both, so the finished model has them.
-/

namespace Arbor

namespace Symbols

/-! ### The tree of scopes -/

/-- The number of the scope around a scope. -/
def around? (scopes : Array Scope) (i : Nat) : Option Nat :=
  scopes[i]?.bind (·.parent)

/-- The numbers of the scopes that lie directly inside a scope, in increasing order. -/
def inside (scopes : Array Scope) (i : Nat) : List Nat :=
  (List.range scopes.size).filter (around? scopes · == some i)

/-- A scope at its place: the first scope is the global one, every other lies one level inside an
earlier one, none deeper than a limit. -/
structure Scope.At (limit : Nat) (scopes : Array Scope) (i : Nat) (s : Scope) : Prop where
  id : s.id = i
  outermost : i = 0 → s.kind = .global ∧ s.parent = none ∧ s.depth = 0
  inner : i ≠ 0 → s.kind ≠ .global ∧ s.depth ≤ limit ∧
    ∃ p around, s.parent = some p ∧ p < i ∧ scopes[p]? = some around ∧ s.depth = around.depth + 1

/-- Scopes that form a tree with the global scope at its root. -/
structure Nested (limit : Nat) (scopes : Array Scope) : Prop where
  nonempty : 0 < scopes.size
  place : ∀ {i : Nat} {s : Scope}, scopes[i]? = some s → s.At limit scopes i
  children : ∀ {i : Nat} {s : Scope}, scopes[i]? = some s → s.children.toList = inside scopes i

/-- Scopes that may differ in the names they declare and the scopes inside them only. -/
structure Scope.Alike (s t : Scope) : Prop where
  id : t.id = s.id
  kind : t.kind = s.kind
  parent : t.parent = s.parent
  depth : t.depth = s.depth

namespace Scope

variable {limit i : Nat} {scopes scopes' : Array Scope} {s t : Scope}

@[simp]
theorem Alike.refl (s : Scope) : s.Alike s := ⟨rfl, rfl, rfl, rfl⟩

@[simp]
theorem Alike.withChildren (s : Scope) (children : Array Nat) : s.Alike { s with children } :=
  ⟨rfl, rfl, rfl, rfl⟩

@[simp]
theorem Alike.withSymbols (s : Scope) (symbols : Table Nat) : s.Alike { s with symbols } :=
  ⟨rfl, rfl, rfl, rfl⟩

theorem At.of_alike (hkept : ∀ {j : Nat} {s : Scope}, scopes[j]? = some s →
      ∃ t, scopes'[j]? = some t ∧ s.Alike t)
    (h : s.At limit scopes i) (halike : s.Alike t) : t.At limit scopes' i := by
  constructor
  case id => exact halike.id.trans h.id
  case outermost =>
    intro hi
    simpa only [halike.kind, halike.parent, halike.depth] using h.outermost hi
  case inner =>
    intro hi
    obtain ⟨hkind, hlimit, p, around, hparent, hp, haround, hdepth⟩ := h.inner hi
    obtain ⟨around', haround', hsame⟩ := hkept haround
    refine ⟨halike.kind ▸ hkind, halike.depth ▸ hlimit, p, around', halike.parent.trans hparent, hp,
      haround', ?_⟩
    rw [halike.depth, hsame.depth, hdepth]

end Scope

/-- Only the tables of the scopes differ. -/
theorem Nested.of_alike {limit : Nat} {scopes scopes' : Array Scope} (h : Nested limit scopes)
    (hsize : scopes'.size = scopes.size)
    (hsame : ∀ i : Nat, ∃ f : Scope → Scope, scopes'[i]? = scopes[i]?.map f ∧
      ∀ s, s.Alike (f s) ∧ (f s).children = s.children) :
    Nested limit scopes' := by
  have haround : ∀ c, around? scopes' c = around? scopes c := by
    intro c
    obtain ⟨f, hf, halike⟩ := hsame c
    rw [around?, hf, around?]
    cases scopes[c]? with
    | none => rfl
    | some s => exact (halike s).1.parent
  have hkept : ∀ {j : Nat} {s : Scope}, scopes[j]? = some s →
      ∃ t, scopes'[j]? = some t ∧ s.Alike t := by
    intro j s hs
    obtain ⟨f, hf, halike⟩ := hsame j
    exact ⟨f s, by rw [hf, hs]; rfl, (halike s).1⟩
  constructor
  case nonempty => exact hsize ▸ h.nonempty
  case place =>
    intro i t ht
    obtain ⟨f, hf, halike⟩ := hsame i
    obtain ⟨s, hs, rfl⟩ := Option.map_eq_some_iff.1 (hf ▸ ht)
    exact (h.place hs).of_alike hkept (halike s).1
  case children =>
    intro i t ht
    obtain ⟨f, hf, halike⟩ := hsame i
    obtain ⟨s, hs, rfl⟩ := Option.map_eq_some_iff.1 (hf ▸ ht)
    rw [(halike s).2, h.children hs]
    simp only [inside, hsize, haround]

/-! ### Opening a scope -/

namespace Model

variable {m : Model} {kind : ScopeKind} {parent depth : Nat} {span : Span}

theorem openScope_getElem? (hparent : parent < m.scopes.size) (i : Nat) :
    (m.openScope kind parent depth span).scopes[i]?
      = if i = m.scopes.size then some ⟨i, kind, some parent, #[], ∅, span, depth⟩
        else m.scopes[i]?.map fun s =>
          if parent = i then { s with children := s.children.push m.scopes.size } else s := by
  rw [openScope, Array.getElem?_modify, Array.getElem?_push]
  by_cases hi : i = m.scopes.size
  · subst hi
    simp [Nat.ne_of_lt hparent]
  · by_cases hp : parent = i <;> simp [hi, hp]

/-- A scope of the model with another scope opened is the new one or an old one, which may have one
more scope inside it. -/
theorem openScope_cases {i : Nat} {t : Scope} (hparent : parent < m.scopes.size)
    (ht : (m.openScope kind parent depth span).scopes[i]? = some t) :
    (i = m.scopes.size ∧ t = ⟨i, kind, some parent, #[], ∅, span, depth⟩) ∨
      ∃ s, m.scopes[i]? = some s ∧ s.Alike t ∧ t.symbols = s.symbols ∧
        t.children.toList = s.children.toList ++ if parent = i then [m.scopes.size] else [] := by
  rw [openScope_getElem? hparent] at ht
  by_cases hi : i = m.scopes.size
  · rw [if_pos hi] at ht
    exact .inl ⟨hi, (Option.some.inj ht).symm⟩
  · rw [if_neg hi] at ht
    obtain ⟨s, hs, rfl⟩ := Option.map_eq_some_iff.1 ht
    refine .inr ⟨s, hs, ?_⟩
    by_cases hp : parent = i <;> simp [hp, Array.toList_push]

theorem openScope_kept {i : Nat} {s : Scope} (hparent : parent < m.scopes.size)
    (hs : m.scopes[i]? = some s) :
    ∃ t, (m.openScope kind parent depth span).scopes[i]? = some t ∧ s.Alike t ∧
      t.symbols = s.symbols := by
  obtain ⟨hi, -⟩ := Array.getElem?_eq_some_iff.1 hs
  rw [openScope_getElem? hparent, if_neg (Nat.ne_of_lt hi), hs]
  refine ⟨_, rfl, ?_⟩
  by_cases hp : parent = i <;> simp [hp]

theorem around?_openScope (hparent : parent < m.scopes.size) (i : Nat) :
    around? (m.openScope kind parent depth span).scopes i
      = if i = m.scopes.size then some parent else around? m.scopes i := by
  rw [around?, openScope_getElem? hparent, around?]
  by_cases hi : i = m.scopes.size
  · simp [hi]
  · cases m.scopes[i]? with
    | none => simp [hi]
    | some s => by_cases hp : parent = i <;> simp [hi, hp]

theorem inside_openScope (hparent : parent < m.scopes.size) (i : Nat) :
    inside (m.openScope kind parent depth span).scopes i
      = inside m.scopes i ++ if parent = i then [m.scopes.size] else [] := by
  have hsize : (m.openScope kind parent depth span).scopes.size = m.scopes.size + 1 := by
    simp [openScope]
  rw [inside, hsize, List.range_succ, List.filter_append, inside]
  congr 1
  · apply List.filter_congr
    intro c hc
    rw [around?_openScope hparent, if_neg (Nat.ne_of_lt (List.mem_range.1 hc))]
  · rw [List.filter_cons, around?_openScope hparent, if_pos rfl]
    by_cases hp : parent = i <;> simp [hp]

/-- Nothing lies inside a scope that is still to be opened. -/
theorem inside_size {limit : Nat} {scopes : Array Scope} (h : Nested limit scopes) :
    inside scopes scopes.size = [] := by
  apply List.filter_eq_nil_iff.2
  intro c hc haround
  obtain ⟨s, hs, hparent⟩ := Option.bind_eq_some_iff.1 (beq_iff_eq.1 haround)
  have hc' : c < scopes.size := List.mem_range.1 hc
  by_cases hzero : c = 0
  · simp [((h.place hs).outermost hzero).2.1] at hparent
  · obtain ⟨-, -, p, -, hp, hlt, -⟩ := (h.place hs).inner hzero
    obtain rfl : p = scopes.size := Option.some.inj (hp.symm.trans hparent)
    exact absurd hc' (Nat.lt_asymm hlt)

/-- A scope of an inner kind may be opened in any scope that is not too deep. -/
theorem nested_openScope {limit : Nat} {around : Scope} (h : Nested limit m.scopes)
    (hkind : kind ≠ .global) (haround : m.scopes[parent]? = some around)
    (hlimit : around.depth + 1 ≤ limit) :
    Nested limit (m.openScope kind parent (around.depth + 1) span).scopes := by
  obtain ⟨hparent, -⟩ := Array.getElem?_eq_some_iff.1 haround
  have hkept {j : Nat} {s : Scope} (hs : m.scopes[j]? = some s) :
      ∃ t, (m.openScope kind parent (around.depth + 1) span).scopes[j]? = some t ∧ s.Alike t := by
    obtain ⟨t, ht, halike, -⟩ := openScope_kept hparent hs
    exact ⟨t, ht, halike⟩
  constructor
  case nonempty => simp [openScope]
  case place =>
    intro i t ht
    obtain ⟨rfl, rfl⟩ | ⟨s, hs, halike, -⟩ := openScope_cases hparent ht
    · refine ⟨rfl, fun hzero => absurd h.nonempty (by simp [hzero]), fun _ => ⟨hkind, hlimit, ?_⟩⟩
      obtain ⟨around', haround', hsame⟩ := hkept haround
      exact ⟨parent, around', rfl, hparent, haround', by rw [hsame.depth]⟩
    · exact (h.place hs).of_alike hkept halike
  case children =>
    intro i t ht
    rw [inside_openScope hparent]
    obtain ⟨rfl, rfl⟩ | ⟨s, hs, -, -, hchildren⟩ := openScope_cases hparent ht
    · rw [inside_size h, if_neg (Nat.ne_of_lt hparent)]
      rfl
    · rw [hchildren, h.children hs]

end Model

/-! ### Tables and symbols -/

namespace Model

/-- The table of scope `i` has the entry of symbol `k` under a name. -/
def Lists (m : Model) (i : Nat) (name : String) (k : Nat) : Prop :=
  ∃ s, m.scopes[i]? = some s ∧ (name, k) ∈ s.symbols.entries

/-- The tables list every symbol once, under its name and in its scope, and nothing else. -/
def Indexed (m : Model) : Prop :=
  ∀ i name k, m.Lists i name k ↔ ∃ x, m.symbols[k]? = some x ∧ x.scope = i ∧ x.name = name

/-- The references between scopes and symbols are in order. -/
structure WellFormed (limit : Nat) (m : Model) : Prop where
  nested : Nested limit m.scopes
  indexed : m.Indexed

variable {m m' : Model} {limit i j k : Nat} {name : String}

/-- Nothing is known of a symbol but its name and scope. -/
theorem Indexed.congr (h : m.Indexed) (hlists : ∀ i name k, m'.Lists i name k ↔ m.Lists i name k)
    (hsymbols : ∀ k : Nat, ∃ f : Symbol → Symbol, m'.symbols[k]? = m.symbols[k]?.map f ∧
      ∀ x, m.symbols[k]? = some x → (f x).scope = x.scope ∧ (f x).name = x.name) :
    m'.Indexed := by
  intro i name k
  rw [hlists, h]
  obtain ⟨f, hf, hsame⟩ := hsymbols k
  rw [hf]
  cases hx : m.symbols[k]? with
  | none => simp
  | some x => simp [hsame x hx]

/-- Changing a symbol in place keeps the index if it keeps the symbol's name and scope. -/
theorem Indexed.modify {f : Symbol → Symbol} (h : m.Indexed)
    (hf : ∀ x, (f x).scope = x.scope ∧ (f x).name = x.name) :
    Indexed { m with symbols := m.symbols.modify j f } := by
  refine h.congr (fun _ _ _ => Iff.rfl) fun k => ⟨fun x => if j = k then f x else x, ?_, ?_⟩
  · rw [Array.getElem?_modify]
    by_cases hj : j = k <;> simp [hj]
  · intro x _
    by_cases hj : j = k <;> simp [hj, hf]

theorem Indexed.exportName (h : m.Indexed) (scope : Nat) (name : String) :
    (m.exportName scope name).Indexed := by
  simp only [Model.exportName]
  split
  · exact h.modify fun _ => ⟨rfl, rfl⟩
  · exact h

theorem Indexed.addUse (h : m.Indexed) (x : Occurrence) : (m.addUse x).Indexed := by
  simp only [Model.addUse]
  split
  · exact h.modify fun _ => ⟨rfl, rfl⟩
  · exact h

theorem Indexed.openScope {kind : ScopeKind} {parent depth : Nat} {span : Span} (h : m.Indexed)
    (hparent : parent < m.scopes.size) : (m.openScope kind parent depth span).Indexed := by
  have hlists : ∀ i name k,
      (m.openScope kind parent depth span).Lists i name k ↔ m.Lists i name k := by
    intro i name k
    constructor
    · rintro ⟨t, ht, hmem⟩
      obtain ⟨-, rfl⟩ | ⟨s, hs, -, hsymbols, -⟩ := openScope_cases hparent ht
      · cases hmem
      · exact ⟨s, hs, hsymbols ▸ hmem⟩
    · rintro ⟨s, hs, hmem⟩
      obtain ⟨t, ht, -, hsymbols⟩ := openScope_kept hparent hs
      exact ⟨t, ht, hsymbols ▸ hmem⟩
  exact h.congr hlists fun k => ⟨fun x => x, by simp [Model.openScope], fun _ _ => ⟨rfl, rfl⟩⟩

/-! ### Declaring a symbol -/

section

variable {x : Symbol} {scope : Scope}

/-- A name that a scope declares again keeps its number. -/
theorem Indexed.replace (h : m.Indexed) (hlists : m.Lists x.scope x.name k) :
    Indexed { m with symbols := m.symbols.setIfInBounds k x } := by
  obtain ⟨old, hold, hscope, hname⟩ := (h x.scope x.name k).1 hlists
  refine h.congr (fun _ _ _ => Iff.rfl) fun j => ⟨fun y => if k = j then x else y, ?_, ?_⟩
  · rw [Array.getElem?_setIfInBounds]
    obtain ⟨hk, -⟩ := Array.getElem?_eq_some_iff.1 hold
    by_cases hj : k = j
    · subst hj
      simp [hk]
    · simp [hj]
  · intro y hy
    by_cases hj : k = j
    · subst hj
      obtain rfl : old = y := Option.some.inj (hold.symm.trans hy)
      simp [hscope, hname]
    · simp [hj]

/-- The model with a symbol that its scope has not declared before. -/
def append (m : Model) (x : Symbol) : Model :=
  { m with
    symbols := m.symbols.push x
    scopes := m.scopes.modify x.scope fun f =>
      { f with symbols := f.symbols.insert x.name m.symbols.size } }

theorem append_getElem? (m : Model) (x : Symbol) (i : Nat) :
    (m.append x).scopes[i]? = m.scopes[i]?.map fun s =>
      if x.scope = i then { s with symbols := s.symbols.insert x.name m.symbols.size } else s := by
  rw [append, Array.getElem?_modify]
  by_cases hi : x.scope = i <;> simp [hi]

theorem lists_append (hs : m.scopes[x.scope]? = some scope)
    (hnone : scope.symbols.get? x.name = none) (i : Nat) (name : String) (k : Nat) :
    (m.append x).Lists i name k
      ↔ m.Lists i name k ∨ (x.scope = i ∧ x.name = name ∧ k = m.symbols.size) := by
  by_cases hi : x.scope = i
  · subst hi
    simp only [Lists, append_getElem?, hs, Option.map_some, Option.some.injEq, if_pos,
      exists_eq_left', Table.mem_entries_insert hnone, true_and, eq_comm (b := name)]
  · simp only [Lists, append_getElem?, hi, if_false, false_and, or_false, Option.map_id']

theorem Indexed.append (h : m.Indexed) (hs : m.scopes[x.scope]? = some scope)
    (hnone : scope.symbols.get? x.name = none) : (m.append x).Indexed := by
  intro i name k
  rw [lists_append hs hnone, h]
  have hsymbols : (m.append x).symbols[k]? = if k = m.symbols.size then some x else m.symbols[k]? :=
    Array.getElem?_push
  rw [hsymbols]
  by_cases hk : k = m.symbols.size
  · subst hk
    simp
  · simp [hk]

theorem nested_append (h : Nested limit m.scopes) (x : Symbol) :
    Nested limit (m.append x).scopes := by
  have hsize : (m.append x).scopes.size = m.scopes.size := Array.size_modify ..
  apply h.of_alike hsize
  intro i
  refine ⟨_, append_getElem? m x i, fun s => ?_⟩
  by_cases hi : x.scope = i <;> simp [hi]

/-- What declaring a symbol does to the model. -/
theorem place_cases (m : Model) (x : Symbol) :
    m.place x = m ∨
      (∃ k, m.Lists x.scope x.name k ∧
        m.place x = { m with symbols := m.symbols.setIfInBounds k x }) ∨
      ∃ scope, m.scopes[x.scope]? = some scope ∧ scope.symbols.get? x.name = none ∧
        m.place x = m.append x := by
  rw [place]
  split
  next => exact .inl rfl
  next scope hs =>
    split
    next k hk => exact .inr (.inl ⟨k, ⟨scope, hs, Table.mem_entries_iff.2 hk⟩, rfl⟩)
    next hnone => exact .inr (.inr ⟨scope, hs, hnone, rfl⟩)

theorem WellFormed.place (h : m.WellFormed limit) (x : Symbol) : (m.place x).WellFormed limit := by
  obtain hsame | ⟨k, hlists, hplace⟩ | ⟨scope, hs, hnone, hplace⟩ := place_cases m x
  · rw [hsame]
    exact h
  · rw [hplace]
    exact ⟨h.nested, h.indexed.replace hlists⟩
  · rw [hplace]
    exact ⟨nested_append h.nested x, h.indexed.append hs hnone⟩

theorem WellFormed.insert (h : m.WellFormed limit) (o : Options) (x : Symbol) :
    (m.insert o x).WellFormed limit := by
  rw [Model.insert]
  apply WellFormed.place
  exact ⟨h.nested, h.indexed⟩

end

theorem WellFormed.exportName (h : m.WellFormed limit) (scope : Nat) (name : String) :
    (m.exportName scope name).WellFormed limit := by
  refine ⟨?_, h.indexed.exportName scope name⟩
  simp only [Model.exportName]
  split <;> exact h.nested

theorem WellFormed.addUse (h : m.WellFormed limit) (x : Occurrence) :
    (m.addUse x).WellFormed limit := by
  refine ⟨?_, h.indexed.addUse x⟩
  simp only [Model.addUse]
  split <;> exact h.nested

theorem wellFormed_start (limit : Nat) (span : Span) : (Model.start span).WellFormed limit := by
  have hone : ∀ {i : Nat} {s : Scope}, (Model.start span).scopes[i]? = some s →
      i = 0 ∧ s = ⟨0, .global, none, #[], ∅, span, 0⟩ := by
    intro i s hs
    cases i with
    | zero => exact ⟨rfl, (Option.some.inj hs).symm⟩
    | succ i => cases hs
  refine ⟨⟨Nat.one_pos, ?_, ?_⟩, ?_⟩
  · intro i s hs
    obtain ⟨rfl, rfl⟩ := hone hs
    exact ⟨rfl, fun _ => ⟨rfl, rfl, rfl⟩, fun h => absurd rfl h⟩
  · intro i s hs
    obtain ⟨rfl, rfl⟩ := hone hs
    rfl
  · intro i name k
    constructor
    · rintro ⟨s, hs, hmem⟩
      obtain ⟨rfl, rfl⟩ := hone hs
      cases hmem
    · rintro ⟨x, hx, -⟩
      cases hx

end Model

/-! ### Outlines -/

namespace Outline

/-- An item that opens no second global scope. -/
inductive Inner : Outline → Prop where
  | node {n : Node} {inner : List Outline} : (∀ x ∈ inner, Inner x) → Inner (.node n inner)
  | declare (d : Declaration) : Inner (.declare d)
  | declareOutside (d : Declaration) : Inner (.declareOutside d)
  | scope {kind : ScopeKind} {owner : Node} {inner : List Outline} :
    kind ≠ .global → (∀ x ∈ inner, Inner x) → Inner (.scope kind owner inner)
  | exporting {inner : List Outline} : (∀ x ∈ inner, Inner x) → Inner (.exporting inner)
  | exportNames (names : List String) : Inner (.exportNames names)

/-- What a declaration has, and a scope if the items inside it have it. Nodes and exports among the
items are left open. -/
structure Inherited (P : Outline → Prop) : Prop where
  declare : ∀ d, P (.declare d)
  declareOutside : ∀ d, P (.declareOutside d)
  scope : ∀ {kind owner inner}, kind ≠ .global → (∀ x ∈ inner, P x) → P (.scope kind owner inner)

/-- What an item has, if the items inside it have it. Nodes among the items are left open. -/
structure Hereditary (P : Outline → Prop) : Prop extends Inherited P where
  exporting : ∀ {inner}, (∀ x ∈ inner, P x) → P (.exporting inner)
  exportNames : ∀ names, P (.exportNames names)

theorem hereditary_inner : Hereditary Inner :=
  ⟨⟨.declare, .declareOutside, .scope⟩, .exporting, .exportNames⟩

/-- All items of a list have a property. -/
def AllOf (P : Outline → Prop) (xs : List Outline) : Prop := ∀ x ∈ xs, P x

section

variable {P : Outline → Prop}

@[simp]
theorem allOf_nil : AllOf P [] := by simp [AllOf]

@[simp]
theorem allOf_cons {x : Outline} {xs : List Outline} :
    AllOf P (x :: xs) ↔ P x ∧ AllOf P xs := by
  simp [AllOf]

@[simp]
theorem allOf_append {xs ys : List Outline} :
    AllOf P (xs ++ ys) ↔ AllOf P xs ∧ AllOf P ys := by
  simp only [AllOf, List.mem_append, or_imp, forall_and]

theorem allOf_flatMap {α : Type} {xs : List α} {f : α → List Outline}
    (h : ∀ a ∈ xs, AllOf P (f a)) : AllOf P (xs.flatMap f) := by
  intro x hx
  obtain ⟨a, ha, hx⟩ := List.mem_flatMap.1 hx
  exact h a ha x hx

theorem allOf_map {α : Type} {xs : List α} {f : α → Outline} (h : ∀ a, P (f a)) :
    AllOf P (xs.map f) := by
  intro x hx
  obtain ⟨a, -, rfl⟩ := List.mem_map.1 hx
  exact h a

end

section

variable {P : Outline → Prop} {n : Node} {visit : Below n → List Outline}
  (h : ∀ c, AllOf P (visit c))

include h

theorem allOf_body (c : Below n) : AllOf P (body visit c) := by
  rw [body]
  split
  · exact allOf_flatMap fun c _ => h c
  · exact h c

theorem allOf_part (name : String) : AllOf P (part visit name) :=
  allOf_flatMap fun c _ => h c

end

namespace Inherited

variable {P : Outline → Prop} (hP : Inherited P) {n : Node} {visit : Below n → List Outline}

include hP

theorem allOf_declareAll (kind : SymbolKind) (names : List Node) :
    AllOf P (declareAll kind names) :=
  allOf_map fun _ => hP.declare _

variable (h : ∀ c, AllOf P (visit c))

include h

theorem functionScope (isMethod : Bool) : P (functionScope n visit isMethod) := by
  refine hP.scope (by simp) ?_
  have hthis : AllOf P (if isMethod then
      [.declare { name := "this", kind := .parameter, span := n.span, node := none }] else []) := by
    cases isMethod <;> simp [hP.declare]
  have hname : AllOf P (if Form.of n = .function then []
      else declareAll .function ((n.field? "name").filter (·.kind == "identifier")).toList) := by
    split <;> simp [hP.allOf_declareAll]
  have hparameters : AllOf P (n.belowParameters.flatMap fun p =>
      declareAll .parameter p.1.boundNames ++ p.bindingDefaults.flatMap visit) :=
    allOf_flatMap fun p _ =>
      allOf_append.2 ⟨hP.allOf_declareAll _ _, allOf_flatMap fun c _ => h c⟩
  have hbody : AllOf P ((n.belowField? "body").toList.flatMap (body visit)) :=
    allOf_flatMap fun c _ => allOf_body h c
  exact allOf_append.2 ⟨allOf_append.2 ⟨allOf_append.2 ⟨hthis, hname⟩, hparameters⟩, hbody⟩

theorem allOf_namedFunction (kind : SymbolKind) : AllOf P (namedFunction n visit kind) := by
  refine allOf_append.2 ⟨allOf_map fun _ => hP.declare _, ?_⟩
  simp [hP.functionScope h]

theorem classScope : P (classScope n visit) := by
  refine hP.scope (by simp) (allOf_append.2 ⟨allOf_map fun name => ?_, allOf_flatMap ?_⟩)
  · split
    · exact hP.declare _
    · exact hP.declareOutside _
  · intro c _
    split
    · exact allOf_flatMap fun c _ => h c
    · exact h c

theorem allOf_enumeration : AllOf P (enumeration n visit) := by
  refine allOf_append.2 ⟨hP.allOf_declareAll _ _, allOf_map fun members => ?_⟩
  refine hP.scope (by simp) (allOf_flatMap fun m _ => ?_)
  exact allOf_append.2 ⟨hP.allOf_declareAll _ _, allOf_flatMap fun c _ => h c⟩

theorem loopScope : P (loopScope n visit) :=
  hP.scope (by simp)
    (allOf_append.2 ⟨hP.allOf_declareAll _ _, allOf_flatMap fun c _ => h c⟩)

theorem allOf_side (branch : Below n) : AllOf P (side n visit branch) :=
  allOf_map fun b => hP.scope (by simp) (allOf_body h b)

theorem allOf_conditional : AllOf P (conditional n visit) := by
  refine allOf_append.2 ⟨allOf_append.2 ⟨allOf_part h _, ?_⟩, ?_⟩
  · exact allOf_flatMap fun c _ => hP.allOf_side h c
  · exact allOf_flatMap fun c _ => hP.allOf_side h c

theorem handler : P (handler n visit) :=
  hP.scope (by simp) (allOf_append.2
    ⟨hP.allOf_declareAll _ _, allOf_flatMap fun c _ => allOf_body h c⟩)

/-- If the items of the nodes below have the property, so have those of the node, unless it is an
export. -/
theorem allOf_step (hform : Form.of n ≠ .exporting) : AllOf P (step n visit) := by
  have hbelow : ∀ {cs : List (Below n)}, AllOf P (cs.flatMap visit) :=
    allOf_flatMap fun c _ => h c
  rw [step]
  cases hn : Form.of n with
  | function => exact hP.allOf_namedFunction h _
  | functionExpression => simp [hP.functionScope h]
  | method => exact hP.allOf_namedFunction h _
  | classDef => simp [hP.classScope h]
  | property => exact allOf_append.2 ⟨allOf_map fun _ => hP.declare _, allOf_part h _⟩
  | declarator =>
    refine allOf_append.2 ⟨allOf_part h _, allOf_flatMap fun target _ => ?_⟩
    exact allOf_append.2 ⟨hP.allOf_declareAll _ _, hbelow⟩
  | importing => exact allOf_flatMap fun _ _ => allOf_map fun _ => hP.declare _
  | exporting => exact absurd hn hform
  | interface => exact hP.allOf_declareAll _ _
  | typeAlias => exact hP.allOf_declareAll _ _
  | enum => exact hP.allOf_enumeration h
  | module => exact allOf_append.2 ⟨hP.allOf_declareAll _ _, allOf_part h _⟩
  | block => exact allOf_cons.2 ⟨hP.scope (by simp) hbelow, allOf_nil⟩
  | loop => simp [hP.loopScope h]
  | conditional => exact hP.allOf_conditional h
  | switch =>
    refine allOf_append.2 ⟨allOf_part h _, allOf_map fun _ => ?_⟩
    exact hP.scope (by simp) hbelow
  | catchClause => simp [hP.handler h]
  | other => exact hbelow

end Inherited

namespace Hereditary

variable {P : Outline → Prop} (hP : Hereditary P) {n : Node} {visit : Below n → List Outline}
  (h : ∀ c, AllOf P (visit c))

include hP h

theorem exportItems : P (exportItems n visit) := by
  refine hP.exporting (allOf_flatMap fun c _ => ?_)
  split
  · simp [hP.exportNames]
  · exact h c

/-- If the items of the nodes below have the property, so have those of the node, whatever its
form. -/
theorem allOf_step : AllOf P (step n visit) := by
  by_cases hform : Form.of n = .exporting
  · simp [step, hform, hP.exportItems h]
  · exact hP.toInherited.allOf_step h hform

end Hereditary

end Outline

theorem allInner_outline (n : Node) : ∀ x ∈ outline n, x.Inner := by
  rw [outline]
  have hstep := Outline.hereditary_inner.allOf_step fun c : Below n => allInner_outline c.1
  simp [Outline.Inner.node hstep]
termination_by n.size
decreasing_by exact c.2

/-! ### The run over an outline -/

namespace Draft

variable {o : Options} {d : Draft}

theorem wellFormed_declareBuiltins (h : d.model.WellFormed o.maxDepth) :
    (d.declareBuiltins o).model.WellFormed o.maxDepth := by
  rw [declareBuiltins]
  split
  · exact List.foldlRecOn o.builtins _ h fun _ hm _ _ => hm.insert o _
  · exact h

theorem wellFormed_openScope {kind : ScopeKind} (hkind : kind ≠ .global)
    (h : d.model.WellFormed o.maxDepth) (parent : Nat) (owner : Node) :
    (d.openScope o kind parent owner).2.model.WellFormed o.maxDepth := by
  rw [openScope]
  split
  next => exact h
  next around haround =>
    split
    next => exact h
    next hlimit =>
      obtain ⟨hparent, -⟩ := Array.getElem?_eq_some_iff.1 haround
      exact ⟨Model.nested_openScope h.nested hkind haround (Nat.not_lt.1 hlimit),
        h.indexed.openScope hparent⟩

/-- Items one after the other keep what each of them keeps. -/
theorem wellFormed_runAll {xs : List Outline} {scope around : Nat} {exports : Option Nat}
    (hrun : ∀ x ∈ xs, ∀ d : Draft, d.model.WellFormed o.maxDepth →
      (run o scope around exports x d).model.WellFormed o.maxDepth)
    (h : d.model.WellFormed o.maxDepth) :
    (runAll o scope around exports xs d).model.WellFormed o.maxDepth := by
  induction xs generalizing d with
  | nil =>
    rw [runAll]
    exact h
  | cons x xs ih =>
    rw [runAll]
    apply ih
    · intro y hy
      exact hrun y (List.mem_cons_of_mem x hy)
    · exact hrun x List.mem_cons_self d h

theorem wellFormed_run {x : Outline} (hx : x.Inner) (scope around : Nat) (exports : Option Nat)
    (d : Draft) (h : d.model.WellFormed o.maxDepth) :
    (run o scope around exports x d).model.WellFormed o.maxDepth := by
  induction hx generalizing scope around exports d with
  | node _ ih =>
    rw [run]
    exact wellFormed_runAll (fun x hx d hd => ih x hx scope around exports d hd) h
  | declare x =>
    rw [run]
    exact h.insert o _
  | declareOutside x =>
    rw [run]
    exact h.insert o _
  | @scope kind owner inner hkind _ ih =>
    rw [run]
    have hopen := wellFormed_openScope hkind h scope owner
    generalize d.openScope o kind scope owner = r at hopen
    obtain ⟨id | id, d'⟩ := r
    · exact hopen
    · exact wellFormed_runAll (fun x hx d hd => ih x hx id scope exports d hd) hopen
  | exporting _ ih =>
    rw [run]
    exact wellFormed_runAll (fun x hx d hd => ih x hx scope around (some scope) d hd) h
  | exportNames names =>
    rw [run]
    exact List.foldlRecOn names _ h fun _ hm _ _ => hm.exportName scope _

theorem wellFormed_ofRoot (o : Options) (root : Node) :
    (ofRoot o root).model.WellFormed o.maxDepth := by
  rw [ofRoot]
  apply wellFormed_runAll
  · intro x hx d hd
    exact wellFormed_run (allInner_outline root x hx) _ _ _ d hd
  · exact wellFormed_declareBuiltins (Model.wellFormed_start ..)

end Draft

/-- The model of every program is well-formed, whatever is looked for. -/
theorem analyze_wellFormed (o : Options) (root : Node) :
    (analyze o root).WellFormed o.maxDepth := by
  have hdraft := Draft.wellFormed_ofRoot o root
  rw [analyze]
  split
  · exact List.foldlRecOn _ _ hdraft fun _ hm x _ => hm.addUse x
  · exact hdraft

end Symbols

end Arbor
