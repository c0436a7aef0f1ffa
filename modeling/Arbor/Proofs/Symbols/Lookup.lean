import Arbor.Proofs.Symbols.WellFormed
import Mathlib.Tactic.Common

/-!
# What a name stands for

A scope and a name lead to a symbol through the table of the scope. Seen this way, a model has no
numbers of symbols, and each operation of the analysis does one simple thing: it puts a symbol under
a name, changes the symbol under a name, or leaves everything as it is. What a name stands for in a
scope is the symbol there, or else what the name stands for in the scope around it.
-/

namespace Arbor.Symbols

/-- The scope but for what it declares. -/
def Scope.frame (s : Scope) : Scope := { s with symbols := ∅ }

namespace Model

/-- The number that a scope lists under a name. -/
def idAt? (m : Model) (i : Nat) (name : String) : Option Nat :=
  m.scopes[i]?.bind (·.symbols.get? name)

/-- The symbol that a scope declares under a name. -/
def symbolAt? (m : Model) (i : Nat) (name : String) : Option Symbol :=
  (m.idAt? i name).bind (m.symbols[·]?)

variable {m : Model} {limit i j k : Nat} {name : String} {x : Symbol}

lemma lists_iff : m.Lists i name k ↔ m.idAt? i name = some k := by
  simp only [Lists, idAt?, Option.bind_eq_some_iff, Table.mem_entries_iff]

lemma Indexed.idAt?_eq_some_iff (h : m.Indexed) :
    m.idAt? i name = some k ↔ ∃ x, m.symbols[k]? = some x ∧ x.scope = i ∧ x.name = name := by
  rw [← lists_iff, h]

/-- Two places that list the same number are the same. -/
lemma Indexed.idAt?_inj (h : m.Indexed) {other : String} (hi : m.idAt? i name = some k)
    (hj : m.idAt? j other = some k) : i = j ∧ name = other := by
  obtain ⟨x, hx, rfl, rfl⟩ := h.idAt?_eq_some_iff.1 hi
  obtain ⟨y, hy, rfl, rfl⟩ := h.idAt?_eq_some_iff.1 hj
  obtain rfl : x = y := Option.some.inj (hx.symm.trans hy)
  exact ⟨rfl, rfl⟩

/-- What a table lists is there. -/
lemma Indexed.symbolAt?_isSome (h : m.Indexed) (hid : m.idAt? i name = some k) :
    ∃ x, m.symbols[k]? = some x ∧ m.symbolAt? i name = some x := by
  obtain ⟨x, hx, -⟩ := h.idAt?_eq_some_iff.1 hid
  exact ⟨x, hx, by rw [symbolAt?, hid, Option.bind_some, hx]⟩

lemma Indexed.symbolAt?_eq_none_iff (h : m.Indexed) :
    m.symbolAt? i name = none ↔ m.idAt? i name = none := by
  cases hid : m.idAt? i name with
  | none => simp [symbolAt?, hid]
  | some k =>
    obtain ⟨x, -, hx⟩ := h.symbolAt?_isSome hid
    simp [hx]

/-- A symbol knows where it stands. -/
lemma Indexed.of_symbolAt? (h : m.Indexed) (hx : m.symbolAt? i name = some x) :
    x.scope = i ∧ x.name = name := by
  obtain ⟨k, hk, hxk⟩ := Option.bind_eq_some_iff.1 hx
  obtain ⟨y, hy, hplace⟩ := h.idAt?_eq_some_iff.1 hk
  obtain rfl : x = y := Option.some.inj (hxk.symm.trans hy)
  exact hplace

/-! ### Resolution -/

/-- What lies around a scope lies before it. -/
lemma around?_lt (h : Nested limit m.scopes) (hj : around? m.scopes i = some j) : j < i := by
  obtain ⟨s, hs, hparent⟩ := Option.bind_eq_some_iff.1 hj
  by_cases hzero : i = 0
  · rw [((h.place hs).outermost hzero).2.1] at hparent
    cases hparent
  · obtain ⟨-, -, p, -, hp, hlt, -⟩ := (h.place hs).inner hzero
    obtain rfl : p = j := Option.some.inj (hp.symm.trans hparent)
    exact hlt

/-- What passes from the scope around a scope to the scope itself holds of all scopes. -/
lemma outward_induction (h : Nested limit m.scopes) {P : Nat → Prop}
    (step : ∀ i, (∀ j, around? m.scopes i = some j → P j) → P i) (i : Nat) : P i := by
  induction i using Nat.strongRecOn with
  | ind i ih => exact step i fun j hj => ih j (around?_lt h hj)

lemma resolveId?_eq (h : Nested limit m.scopes) (name : String) (i : Nat) :
    m.resolveId? name i
      = (m.idAt? i name).or ((around? m.scopes i).bind (m.resolveId? name)) := by
  have hdown : ∀ {i p : Nat} {s : Scope}, m.scopes[i]? = some s → s.parent = some p → p < i := by
    intro i p s hs hp
    exact around?_lt h (by rw [around?, hs, Option.bind_some, hp])
  cases hs : m.scopes[i]? with
  | none =>
    rw [resolveId?, chain, chain_of_none hs]
    simp [idAt?, around?, hs]
  | some s =>
    rw [resolveId?, chain, chain_of_some hdown hs]
    simp only [idAt?, around?, hs, Option.bind_some, List.findSome?_cons]
    cases hname : s.symbols.get? name with
    | some k => simp
    | none =>
      cases hp : s.parent with
      | none => simp
      | some p => simp [resolveId?, chain]

/-- A name stands for the symbol in the scope itself, or else for what it stands for in the scope
around it. -/
lemma resolve?_eq (h : m.WellFormed limit) (name : String) (i : Nat) :
    m.resolve? name i = (m.symbolAt? i name).or ((around? m.scopes i).bind (m.resolve? name)) := by
  rw [resolve?, resolveId?_eq h.nested]
  cases hid : m.idAt? i name with
  | some k =>
    obtain ⟨x, hx, hat⟩ := h.indexed.symbolAt?_isSome hid
    simp [hat, hx]
  | none =>
    rw [h.indexed.symbolAt?_eq_none_iff.2 hid]
    cases around? m.scopes i with
    | none => simp
    | some p => simp [resolve?]

/-- Resolution ends at an entry of some table. -/
lemma exists_idAt?_of_resolveId? (h : Nested limit m.scopes) (hk : m.resolveId? name i = some k) :
    ∃ j, m.idAt? j name = some k := by
  induction i using outward_induction h with
  | step i ih =>
    rw [resolveId?_eq h, Option.or_eq_some_iff] at hk
    rcases hk with hid | ⟨-, hout⟩
    · exact ⟨i, hid⟩
    · obtain ⟨j, hj, hk⟩ := Option.bind_eq_some_iff.1 hout
      exact ih j hj hk

lemma resolve?_eq_none_iff (h : m.WellFormed limit) :
    m.resolve? name i = none ↔ m.resolveId? name i = none := by
  cases hk : m.resolveId? name i with
  | none => simp [resolve?, hk]
  | some k =>
    obtain ⟨j, hj⟩ := exists_idAt?_of_resolveId? h.nested hk
    obtain ⟨x, hx, -⟩ := h.indexed.symbolAt?_isSome hj
    simp [resolve?, hk, hx]

/-- What a name stands for is the symbol that its own scope has under this name. -/
lemma symbolAt?_of_resolve? (h : m.WellFormed limit) (hx : m.resolve? name i = some x) :
    m.symbolAt? x.scope name = some x := by
  induction i using outward_induction h.nested with
  | step i ih =>
    rw [resolve?_eq h, Option.or_eq_some_iff] at hx
    rcases hx with hat | ⟨-, hout⟩
    · rw [(h.indexed.of_symbolAt? hat).1]
      exact hat
    · obtain ⟨j, hj, hx⟩ := Option.bind_eq_some_iff.1 hout
      exact ih j hj hx

/-- A name of the global scope stands for something in every scope. -/
lemma resolve?_ne_none_of_global (h : m.WellFormed limit)
    (hname : m.symbolAt? globalScope name ≠ none) (hi : i < m.scopes.size) :
    m.resolve? name i ≠ none := by
  induction i using outward_induction h.nested with
  | step i ih =>
    rw [resolve?_eq h]
    intro hnone
    obtain ⟨hat, hout⟩ := Option.or_eq_none_iff.1 hnone
    by_cases hzero : i = 0
    · subst hzero
      exact hname hat
    · obtain ⟨s, hs⟩ : ∃ s, m.scopes[i]? = some s := ⟨m.scopes[i], Array.getElem?_eq_getElem hi⟩
      obtain ⟨-, -, p, around, hp, hlt, haround, -⟩ := (h.nested.place hs).inner hzero
      have hparent : around? m.scopes i = some p := by rw [around?, hs, Option.bind_some, hp]
      rw [hparent, Option.bind_some] at hout
      exact ih p hparent (Nat.lt_trans hlt hi) hout

/-! ### Operations -/

lemma around?_eq (scopes : Array Scope) (i : Nat) :
    around? scopes i = (scopes[i]?.map Scope.frame).bind (·.parent) := by
  rw [around?]
  cases scopes[i]? <;> rfl

lemma place_frames (m : Model) (x : Symbol) :
    (m.place x).scopes.map Scope.frame = m.scopes.map Scope.frame := by
  obtain hsame | ⟨k, -, hplace⟩ | ⟨scope, -, -, hplace⟩ := place_cases m x
  · rw [hsame]
  · rw [hplace]
  · rw [hplace]
    apply Array.ext_getElem?
    intro i
    rw [Array.getElem?_map, append_getElem?, Array.getElem?_map, Option.map_map]
    congr 1
    funext s
    by_cases hi : x.scope = i <;> simp [hi, Scope.frame]

lemma insert_frames (m : Model) (o : Options) (x : Symbol) :
    (m.insert o x).scopes.map Scope.frame = m.scopes.map Scope.frame :=
  place_frames _ x

/-- The symbol under one name is changed. -/
lemma symbolAt?_of_changed (h : m.Indexed) {f : Symbol → Symbol} {symbols : Array Symbol}
    (hk : m.idAt? j name = some k)
    (hsymbols : ∀ l : Nat, symbols[l]? = if k = l then m.symbols[l]?.map f else m.symbols[l]?)
    (i : Nat) (other : String) :
    { m with symbols := symbols }.symbolAt? i other
      = if j = i ∧ name = other then (m.symbolAt? i other).map f else m.symbolAt? i other := by
  have hid : { m with symbols := symbols }.idAt? i other = m.idAt? i other := rfl
  rw [symbolAt?, hid, symbolAt?]
  cases hl : m.idAt? i other with
  | none => simp
  | some l =>
    simp only [Option.bind_some, hsymbols]
    by_cases hkl : k = l
    · subst hkl
      simp [h.idAt?_inj hk hl]
    · have hne : ¬ (j = i ∧ name = other) := by
        rintro ⟨rfl, rfl⟩
        exact hkl (Option.some.inj (hk.symm.trans hl))
      simp [hkl, hne]

lemma symbolAt?_append (h : m.Indexed) (hx : x.scope < m.scopes.size) (i : Nat) (name : String) :
    (m.append x).symbolAt? i name
      = if x.scope = i ∧ x.name = name then some x else m.symbolAt? i name := by
  have hs : m.scopes[x.scope]? = some m.scopes[x.scope] := Array.getElem?_eq_getElem hx
  have hid : (m.append x).idAt? i name
      = if x.scope = i ∧ x.name = name then some m.symbols.size else m.idAt? i name := by
    rw [idAt?, append_getElem?, idAt?]
    by_cases hi : x.scope = i
    · subst hi
      by_cases hname : x.name = name
      · simp [hs, Table.get?_insert, hname]
      · simp [hs, Table.get?_insert, hname, Ne.symm hname]
    · simp [hi]
  have hsymbols (l : Nat) :
      (m.append x).symbols[l]? = if l = m.symbols.size then some x else m.symbols[l]? :=
    Array.getElem?_push
  rw [symbolAt?, hid]
  split_ifs with hplace
  · simp [hsymbols]
  · -- the numbers in the tables are those of earlier symbols
    cases hl : m.idAt? i name with
    | none => simp [symbolAt?, hl]
    | some l =>
      obtain ⟨y, hy, -⟩ := h.idAt?_eq_some_iff.1 hl
      obtain ⟨hlt, -⟩ := Array.getElem?_eq_some_iff.1 hy
      simp [symbolAt?, hl, hsymbols, Nat.ne_of_lt hlt]

/-- Declaring a symbol puts it under its name, if its scope is there. -/
lemma symbolAt?_place (h : m.Indexed) (x : Symbol) (i : Nat) (name : String) :
    (m.place x).symbolAt? i name
      = if i < m.scopes.size ∧ x.scope = i ∧ x.name = name then some x
        else m.symbolAt? i name := by
  by_cases hx : x.scope < m.scopes.size
  · have hcond : (i < m.scopes.size ∧ x.scope = i ∧ x.name = name)
        ↔ (x.scope = i ∧ x.name = name) := by
      constructor
      · exact fun h => h.2
      · rintro ⟨rfl, rfl⟩
        exact ⟨hx, rfl, rfl⟩
    have hs : m.scopes[x.scope]? = some m.scopes[x.scope] := Array.getElem?_eq_getElem hx
    simp only [hcond, place, hs]
    -- The symbol is new in its scope, or it takes the place of one with its name.
    cases hget : m.scopes[x.scope].symbols.get? x.name with
    | none => exact symbolAt?_append h hx i name
    | some k =>
      have hk : m.idAt? x.scope x.name = some k := by rw [idAt?, hs, Option.bind_some, hget]
      obtain ⟨y, hy, hat⟩ := h.symbolAt?_isSome hk
      obtain ⟨hlt, -⟩ := Array.getElem?_eq_some_iff.1 hy
      have hsymbols (l : Nat) : (m.symbols.setIfInBounds k x)[l]?
          = if k = l then m.symbols[l]?.map (fun _ => x) else m.symbols[l]? := by
        rw [Array.getElem?_setIfInBounds]
        by_cases hl : k = l
        · subst hl
          simp [hlt]
        · simp [hl]
      refine (symbolAt?_of_changed h hk hsymbols i name).trans ?_
      split_ifs with hplace
      · obtain ⟨rfl, rfl⟩ := hplace
        simp [hat]
      · rfl
  · have hs : m.scopes[x.scope]? = none := Array.getElem?_eq_none (Nat.not_lt.1 hx)
    have hcond : ¬ (i < m.scopes.size ∧ x.scope = i ∧ x.name = name) := by
      rintro ⟨hi, rfl, -⟩
      exact hx hi
    simp only [if_neg hcond, place, hs]

lemma symbolAt?_insert (h : m.Indexed) (o : Options) (x : Symbol) (i : Nat) (name : String) :
    (m.insert o x).symbolAt? i name
      = if i < m.scopes.size ∧ x.scope = i ∧ x.name = name then some x
        else m.symbolAt? i name := by
  let found := if o.shadowing then (m.shadowing? x).toArray else #[]
  have hfound : Indexed { m with shadowings := m.shadowings ++ found } := h
  exact symbolAt?_place hfound x i name

lemma symbolAt?_exportName (h : m.Indexed) (scope : Nat) (name : String) (i : Nat)
    (other : String) :
    (m.exportName scope name).symbolAt? i other
      = if scope = i ∧ name = other
        then (m.symbolAt? i other).map fun s => { s with exported := true }
        else m.symbolAt? i other := by
  rw [exportName]
  cases hk : m.idAt? scope name with
  | none =>
    have hat : m.symbolAt? scope name = none := h.symbolAt?_eq_none_iff.2 hk
    rw [idAt?] at hk
    simp only [hk]
    split_ifs with hplace
    · obtain ⟨rfl, rfl⟩ := hplace
      simp [hat]
    · rfl
  | some k =>
    have hfound := hk
    rw [idAt?] at hfound
    simp only [hfound]
    apply symbolAt?_of_changed h hk
    intro l
    exact Array.getElem?_modify

lemma symbolAt?_openScope {kind : ScopeKind} {parent depth : Nat} {span : Span}
    (hparent : parent < m.scopes.size) (i : Nat) (name : String) :
    (m.openScope kind parent depth span).symbolAt? i name = m.symbolAt? i name := by
  have hid : (m.openScope kind parent depth span).idAt? i name = m.idAt? i name := by
    rw [idAt?, openScope_getElem? hparent, idAt?]
    by_cases hi : i = m.scopes.size
    · subst hi
      simp
      rfl
    · cases m.scopes[i]? with
      | none => simp [hi]
      | some s => by_cases hp : parent = i <;> simp [hi, hp]
  rw [symbolAt?, hid]
  rfl

/-- A use changes the symbol that it stands for. -/
lemma symbolAt?_addUse (h : m.WellFormed limit) {u : Occurrence}
    (hx : m.resolve? u.node.text u.scope = some x) (i : Nat) (name : String) :
    (m.addUse u).symbolAt? i name
      = if x.scope = i ∧ u.node.text = name
        then (m.symbolAt? i name).map fun s => { s with uses := s.uses.push ⟨u.node.span, u.kind⟩ }
        else m.symbolAt? i name := by
  obtain ⟨k, hk, hxk⟩ := Option.bind_eq_some_iff.1 hx
  obtain ⟨j, hj⟩ := exists_idAt?_of_resolveId? h.nested hk
  have hplace : x.scope = j := by
    obtain ⟨y, hy, rfl, -⟩ := h.indexed.idAt?_eq_some_iff.1 hj
    rw [Option.some.inj (hxk.symm.trans hy)]
  subst hplace
  rw [addUse]
  simp only [hk]
  apply symbolAt?_of_changed h.indexed hj
  intro l
  exact Array.getElem?_modify

lemma addUse_of_resolve?_eq_none (h : m.WellFormed limit) {u : Occurrence}
    (hnone : m.resolve? u.node.text u.scope = none) :
    m.addUse u
      = { m with unresolved := m.unresolved.push ⟨u.node.text, u.node.span, u.scope⟩ } := by
  rw [addUse, (resolve?_eq_none_iff h).1 hnone]

lemma addUse_unresolved_of_resolve? {u : Occurrence}
    (hx : m.resolve? u.node.text u.scope = some x) : (m.addUse u).unresolved = m.unresolved := by
  obtain ⟨k, hk, -⟩ := Option.bind_eq_some_iff.1 hx
  rw [addUse, hk]

@[simp]
lemma addUse_scopes (m : Model) (u : Occurrence) : (m.addUse u).scopes = m.scopes := by
  rw [addUse]
  split <;> rfl

@[simp]
lemma addUse_shadowings (m : Model) (u : Occurrence) : (m.addUse u).shadowings = m.shadowings := by
  rw [addUse]
  split <;> rfl

@[simp]
lemma exportName_scopes (m : Model) (scope : Nat) (name : String) :
    (m.exportName scope name).scopes = m.scopes := by
  rw [exportName]
  split <;> rfl

@[simp]
lemma place_scopes_size (m : Model) (x : Symbol) : (m.place x).scopes.size = m.scopes.size := by
  obtain hsame | ⟨k, -, hplace⟩ | ⟨scope, -, -, hplace⟩ := place_cases m x
  · rw [hsame]
  · rw [hplace]
  · rw [hplace, append, Array.size_modify]

@[simp]
lemma insert_scopes_size (m : Model) (o : Options) (x : Symbol) :
    (m.insert o x).scopes.size = m.scopes.size :=
  place_scopes_size _ x

@[simp]
lemma openScope_scopes_size (m : Model) (kind : ScopeKind) (parent depth : Nat) (span : Span) :
    (m.openScope kind parent depth span).scopes.size = m.scopes.size + 1 := by
  simp [openScope]

lemma mem_symbols_place {y : Symbol} (hy : y ∈ (m.place x).symbols) : y = x ∨ y ∈ m.symbols := by
  obtain hsame | ⟨k, -, hplace⟩ | ⟨scope, -, -, hplace⟩ := place_cases m x
  · rw [hsame] at hy
    exact .inr hy
  · rw [hplace] at hy
    exact (Array.mem_or_eq_of_mem_setIfInBounds hy).symm
  · rw [hplace] at hy
    exact (Array.mem_push.1 hy).symm

lemma mem_symbols_insert {o : Options} {y : Symbol} (hy : y ∈ (m.insert o x).symbols) :
    y = x ∨ y ∈ m.symbols := by
  rw [insert] at hy
  have hplace := mem_symbols_place hy
  exact hplace

@[simp]
lemma place_unresolved (m : Model) (x : Symbol) : (m.place x).unresolved = m.unresolved := by
  obtain hsame | ⟨k, -, hplace⟩ | ⟨scope, -, -, hplace⟩ := place_cases m x
  · rw [hsame]
  · rw [hplace]
  · rw [hplace, append]

@[simp]
lemma insert_unresolved (m : Model) (o : Options) (x : Symbol) :
    (m.insert o x).unresolved = m.unresolved :=
  place_unresolved _ x

@[simp]
lemma exportName_unresolved (m : Model) (scope : Nat) (name : String) :
    (m.exportName scope name).unresolved = m.unresolved := by
  rw [exportName]
  split <;> rfl

/-- Exporting a name keeps the uses of each symbol. -/
lemma exists_of_mem_exportName {scope : Nat} {y : Symbol}
    (hy : y ∈ (m.exportName scope name).symbols) : ∃ x ∈ m.symbols, y.uses = x.uses := by
  rw [exportName] at hy
  split at hy
  next k _ =>
    obtain ⟨l, hl⟩ := Array.mem_iff_getElem?.1 hy
    rw [Array.getElem?_modify] at hl
    split_ifs at hl
    · obtain ⟨x, hx, rfl⟩ := Option.map_eq_some_iff.1 hl
      exact ⟨x, Array.mem_of_getElem? hx, rfl⟩
    · exact ⟨y, Array.mem_of_getElem? hl, rfl⟩
  next => exact ⟨y, hy, rfl⟩

end Model

/-! ### Runs over outlines -/

namespace Draft

/-- What is kept by each operation, in two runs side by side that open their scopes alike, is kept
by the whole runs. -/
structure Kept (o o' : Options) (R : Draft → Draft → Prop) : Prop where
  declare : ∀ {d d' : Draft} (scope : Nat) (exports : Option Nat) (x : Declaration),
    R d d' → R (d.declare o scope exports x) (d'.declare o' scope exports x)
  openScope : ∀ {d d' : Draft} {kind : ScopeKind} (parent : Nat) (owner : Node),
    kind ≠ .global → R d d' →
      (d.openScope o kind parent owner).1 = (d'.openScope o' kind parent owner).1 ∧
        R (d.openScope o kind parent owner).2 (d'.openScope o' kind parent owner).2
  exportName : ∀ {d d' : Draft} (scope : Nat) (name : String), R d d' →
    R { d with model := d.model.exportName scope name }
      { d' with model := d'.model.exportName scope name }

variable {o o' : Options} {R : Draft → Draft → Prop} {d d' : Draft}

lemma Kept.exportNames (h : Kept o o' R) (scope : Nat) (names : List String) (hd : R d d') :
    R { d with model := names.foldl (Model.exportName scope) d.model }
      { d' with model := names.foldl (Model.exportName scope) d'.model } := by
  induction names generalizing d d' with
  | nil => exact hd
  | cons name names ih => exact ih (h.exportName scope name hd)

lemma Kept.runAll_of {scope around : Nat} {exports : Option Nat} {xs : List Outline}
    (hrun : ∀ x ∈ xs, ∀ {d d' : Draft}, R d d' →
      R (run o scope around exports x d) (run o' scope around exports x d'))
    (hd : R d d') :
    R (runAll o scope around exports xs d) (runAll o' scope around exports xs d') := by
  induction xs generalizing d d' with
  | nil =>
    simp only [runAll]
    exact hd
  | cons x xs ih =>
    simp only [runAll]
    apply ih
    · intro y hy d d' hd
      exact hrun y (List.mem_cons_of_mem x hy) hd
    · exact hrun x List.mem_cons_self hd

lemma Kept.run (h : Kept o o' R) {x : Outline} (hx : x.Inner) (scope around : Nat)
    (exports : Option Nat) {d d' : Draft} (hd : R d d') :
    R (Draft.run o scope around exports x d) (Draft.run o' scope around exports x d') := by
  induction hx generalizing scope around exports d d' with
  | node _ ih =>
    simp only [Draft.run]
    exact runAll_of (fun x hx _ _ hd => ih x hx scope around exports hd) hd
  | declare x =>
    simp only [Draft.run]
    exact h.declare scope exports x hd
  | declareOutside x =>
    simp only [Draft.run]
    exact h.declare around exports x hd
  | @scope kind owner inner hkind _ ih =>
    obtain ⟨hid, hopen⟩ := h.openScope scope owner hkind hd
    simp only [Draft.run]
    generalize d.openScope o kind scope owner = r at hid hopen
    generalize d'.openScope o' kind scope owner = r' at hid hopen
    obtain ⟨id, e⟩ := r
    obtain ⟨id', e'⟩ := r'
    obtain rfl : id = id' := hid
    cases id with
    | none => exact hopen
    | some id => exact runAll_of (fun x hx _ _ hd => ih x hx id scope exports hd) hopen
  | exporting _ ih =>
    simp only [Draft.run]
    exact runAll_of (fun x hx _ _ hd => ih x hx scope around (some scope) hd) hd
  | exportNames names =>
    simp only [Draft.run]
    exact h.exportNames scope names hd

/-- What each operation keeps, the declarations of a program keep. -/
lemma Kept.ofRoot (h : Kept o o' R) (root : Node)
    (hstart : R ((start root).declareBuiltins o) ((start root).declareBuiltins o')) :
    R (ofRoot o root) (ofRoot o' root) := by
  simp only [Draft.ofRoot]
  exact runAll_of (fun x hx _ _ hd => h.run (allInner_outline root x hx) _ _ _ hd) hstart

lemma mem_of_scopeOf? {n : Node} {i : Nat} (h : d.scopeOf? n = some i) :
    (n.number, i) ∈ d.scopeOf := by
  obtain ⟨before, after, hsplit, -⟩ := List.lookup_eq_some_iff.1 h
  rw [hsplit]
  exact List.mem_append_right _ List.mem_cons_self

/-- The draft has what the uses of names rely on: a well-formed model, in which nothing is used yet,
and nodes that open scopes of the model only. -/
structure Sound (limit : Nat) (d : Draft) : Prop where
  wellFormed : d.model.WellFormed limit
  opened : ∀ e ∈ d.scopeOf, e.2 < d.model.scopes.size
  unresolved : d.model.unresolved = #[]
  unused : ∀ x ∈ d.model.symbols, x.uses = #[]

/-- Declarations open no scope. -/
@[simp]
lemma declare_scopes_size (d : Draft) (o : Options) (scope : Nat) (exports : Option Nat)
    (x : Declaration) : (d.declare o scope exports x).model.scopes.size = d.model.scopes.size :=
  Model.insert_scopes_size ..

lemma Sound.declare {limit : Nat} (h : d.Sound limit) (scope : Nat) (exports : Option Nat)
    (x : Declaration) : (d.declare o scope exports x).Sound limit := by
  refine ⟨h.wellFormed.insert o _, ?_, ?_, ?_⟩
  · intro e he
    rw [declare_scopes_size]
    exact h.opened e he
  · exact (Model.insert_unresolved ..).trans h.unresolved
  · intro y hy
    rcases Model.mem_symbols_insert hy with rfl | hy
    · rfl
    · exact h.unused y hy

lemma Sound.openScope (h : d.Sound o.maxDepth) {kind : ScopeKind} (hkind : kind ≠ .global)
    (parent : Nat) (owner : Node) : (d.openScope o kind parent owner).2.Sound o.maxDepth := by
  have hmodel := wellFormed_openScope hkind h.wellFormed parent owner
  rw [Draft.openScope] at hmodel ⊢
  split at hmodel
  next => exact h
  next around haround =>
    split_ifs at hmodel ⊢ with hlimit
    · exact ⟨hmodel, h.opened, h.unresolved, h.unused⟩
    · refine ⟨hmodel, ?_, h.unresolved, h.unused⟩
      intro e he
      rw [Model.openScope_scopes_size]
      rcases List.mem_cons.1 he with rfl | he
      · exact Nat.lt_succ_self _
      · exact Nat.lt_succ_of_lt (h.opened e he)

lemma Sound.exportName {limit : Nat} (h : d.Sound limit) (scope : Nat) (name : String) :
    Sound limit { d with model := d.model.exportName scope name } := by
  refine ⟨h.wellFormed.exportName scope name, ?_, ?_, ?_⟩
  · intro e he
    rw [Model.exportName_scopes]
    exact h.opened e he
  · exact (Model.exportName_unresolved ..).trans h.unresolved
  · intro y hy
    obtain ⟨x, hx, huses⟩ := Model.exists_of_mem_exportName hy
    rw [huses]
    exact h.unused x hx

lemma sound_start (o : Options) (root : Node) :
    ((start root).declareBuiltins o).Sound o.maxDepth := by
  have hstart : (start root).Sound o.maxDepth := by
    refine ⟨Model.wellFormed_start .., ?_, rfl, ?_⟩
    · simp [start, Model.start, Model.globalScope]
    · simp [start, Model.start]
  rw [declareBuiltins]
  split_ifs
  · refine List.foldlRecOn o.builtins
      (fun (m : Model) (name : String) => m.insert o _)
      (motive := fun m => Sound o.maxDepth { start root with model := m }) hstart ?_
    intro m hm name _
    refine ⟨hm.wellFormed.insert o _, ?_, ?_, ?_⟩
    · intro e he
      rw [Model.insert_scopes_size]
      exact hm.opened e he
    · exact (Model.insert_unresolved ..).trans hm.unresolved
    · intro y hy
      rcases Model.mem_symbols_insert hy with rfl | hy
      · rfl
      · exact hm.unused y hy
  · exact hstart

lemma sound_ofRoot (o : Options) (root : Node) : (ofRoot o root).Sound o.maxDepth := by
  have hkept : Kept o o fun d d' => d' = d ∧ d.Sound o.maxDepth := by
    constructor
    case declare =>
      rintro d _ scope exports x ⟨rfl, hd⟩
      exact ⟨rfl, hd.declare scope exports x⟩
    case openScope =>
      rintro d _ kind parent owner hkind ⟨rfl, hd⟩
      exact ⟨rfl, rfl, hd.openScope hkind parent owner⟩
    case exportName =>
      rintro d _ scope name ⟨rfl, hd⟩
      exact ⟨rfl, hd.exportName scope name⟩
  exact (hkept.ofRoot root ⟨rfl, sound_start o root⟩).2

end Draft

end Arbor.Symbols
