import Arbor.Proofs.Symbols.Shadowing

/-!
# Looking up one name and listing all of them

There are two ways to find out what a name stands for in a scope. One goes outward and stops at the
first scope that declares the name. The other goes all the way out, and collects what the scopes
declare without giving up what it has. Both end, since the scopes around a scope have lower numbers,
and both come to the entry of the nearest scope that has one.
-/

namespace Arbor.Symbols

/-! ### The way out -/

/-- The way outward from a scope comes past these scopes, and then to its end: a scope that nothing
lies around, or a number without a scope. -/
inductive Outward (scopes : Array Scope) : Option Nat → List Scope → Prop where
  | outside : Outward scopes none []
  | missing {i : Nat} (h : scopes[i]? = none) : Outward scopes (some i) []
  | step {i : Nat} {s : Scope} {rest : List Scope} (h : scopes[i]? = some s)
    (hrest : Outward scopes s.parent rest) : Outward scopes (some i) (s :: rest)

variable {scopes : Array Scope} {m : Model} {limit i j k : Nat} {name : String}

lemma Outward.mem {start : Option Nat} {passed : List Scope} (h : Outward scopes start passed)
    {s : Scope} (hs : s ∈ passed) : ∃ i : Nat, scopes[i]? = some s := by
  induction h with
  | outside | missing => cases hs
  | @step i t rest ht _ ih =>
    rcases List.mem_cons.1 hs with rfl | hs
    · exact ⟨i, ht⟩
    · exact ih hs

/-- The way outward has an end, and the chain of a scope is all of it. -/
lemma Model.outward_chain (h : Nested limit m.scopes) (i : Nat) :
    Outward m.scopes (some i) (m.chain i) := by
  have hdown {i p : Nat} {s : Scope} (hs : m.scopes[i]? = some s) (hp : s.parent = some p) :
      p < i := around?_lt h (by rw [around?, hs, Option.bind_some, hp])
  induction i using outward_induction h with
  | step i ih =>
    cases hs : m.scopes[i]? with
    | none =>
      rw [chain, chain_of_none hs]
      exact .missing hs
    | some s =>
      rw [chain, chain_of_some hdown hs]
      refine .step hs ?_
      cases hp : s.parent with
      | none => exact .outside
      | some p => exact ih p (by rw [around?, hs, Option.bind_some, hp])

/-! ### What is collected -/

namespace Model

lemma see_get? (m : Model) (seen : Table Nat) {e : String × Nat} (he : e.2 < m.symbols.size)
    (name : String) :
    (m.see seen e).get? name = (seen.get? name).or (if name = e.1 then some e.2 else none) := by
  unfold see
  cases hseen : seen.get? e.1 with
  | some k =>
    by_cases hname : name = e.1
    · simp [Table.contains, hseen, hname]
    · simp [Table.contains, hseen, hname]
  | none =>
    by_cases hname : name = e.1
    · simp [Table.contains, hseen, he, Table.get?_insert, hname]
    · simp [Table.contains, hseen, he, Table.get?_insert, hname]

/-- The entries of one scope are added to those of the scopes inside it. -/
lemma foldl_see_get? (m : Model) {es : List (String × Nat)} (hes : ∀ e ∈ es, e.2 < m.symbols.size)
    (seen : Table Nat) (name : String) :
    (es.foldl m.see seen).get? name = (seen.get? name).or (es.lookup name) := by
  induction es generalizing seen with
  | nil => simp
  | cons e es ih =>
    rw [List.foldl_cons, ih fun e' he' => hes e' (List.mem_cons_of_mem e he'),
      see_get? m seen (hes e List.mem_cons_self), Option.or_assoc, List.lookup_cons]
    by_cases hname : name = e.1
    · simp [hname]
    · have hne : (name == e.1) = false := by simpa using hname
      simp [hname, hne]

/-- Scope after scope, the first entry of a name is kept. -/
lemma foldl_scopes_get? (m : Model) {passed : List Scope}
    (hpassed : ∀ s ∈ passed, ∀ e ∈ s.symbols.entries, e.2 < m.symbols.size) (seen : Table Nat)
    (name : String) :
    (passed.foldl (fun seen s => s.symbols.entries.foldl m.see seen) seen).get? name =
      (seen.get? name).or (passed.findSome? (·.symbols.get? name)) := by
  induction passed generalizing seen with
  | nil => simp
  | cons s passed ih =>
    have hown : (s.symbols.entries.foldl m.see seen).get? name =
        (seen.get? name).or (s.symbols.get? name) :=
      foldl_see_get? m (hpassed s List.mem_cons_self) seen name
    rw [List.foldl_cons, ih fun t ht => hpassed t (List.mem_cons_of_mem s ht), hown,
      Option.or_assoc, List.findSome?_cons]
    cases s.symbols.get? name with
    | none => rw [Option.none_or]
    | some k => rw [Option.some_or]

/-- The entries of the tables are numbers of symbols. -/
lemma Indexed.lt_size (h : m.Indexed) {s : Scope} (hs : m.scopes[i]? = some s) {e : String × Nat}
    (he : e ∈ s.symbols.entries) : e.2 < m.symbols.size := by
  obtain ⟨x, hx, -⟩ := (h i e.1 e.2).1 ⟨s, hs, he⟩
  exact (Array.getElem?_eq_some_iff.1 hx).1

/-- Among all names that are collected, each stands for what it is found to stand for. -/
theorem visible_get? (h : m.WellFormed limit) (i : Nat) (name : String) :
    (m.visible i).get? name = m.resolveId? name i := by
  have hchain : ∀ s ∈ m.chain i, ∀ e ∈ s.symbols.entries, e.2 < m.symbols.size := by
    intro s hs e he
    obtain ⟨j, hj⟩ := (outward_chain h.nested i).mem hs
    exact h.indexed.lt_size hj he
  exact (m.foldl_scopes_get? hchain ∅ name).trans Option.none_or

/-! ### The nearest entry -/

/-- Of the scopes at and around `i` that declare the name, `j` is the nearest. -/
structure Nearest (m : Model) (name : String) (i j : Nat) : Prop where
  encloses : Encloses m.scopes j i
  declares : m.idAt? j name ≠ none
  nearest : ∀ k, Encloses m.scopes k i → m.idAt? k name ≠ none → Encloses m.scopes k j

/-- A scope that declares the name is the nearest to itself. -/
lemma nearest_self_iff (h : Nested limit m.scopes) (hi : m.idAt? i name ≠ none) :
    m.Nearest name i j ↔ j = i := by
  constructor
  · rintro ⟨hout, -, hnearest⟩
    exact Nat.le_antisymm (hout.le h) ((hnearest i .refl hi).le h)
  · rintro rfl
    exact ⟨.refl, hi, fun k hk _ => hk⟩

/-- A scope that does not declare the name leaves it to the scope around it. -/
lemma nearest_outward_iff (hi : m.idAt? i name = none) :
    m.Nearest name i j ↔ ∃ p, around? m.scopes i = some p ∧ m.Nearest name p j := by
  constructor
  · rintro ⟨hout, hdeclares, hnearest⟩
    cases hout with
    | refl => exact absurd hi hdeclares
    | @inward p _ hout hp => exact ⟨p, hp, hout, hdeclares, fun k hk => hnearest k (hk.inward hp)⟩
  · rintro ⟨p, hp, hout, hdeclares, hnearest⟩
    refine ⟨hout.inward hp, hdeclares, fun k hk hname => ?_⟩
    cases hk with
    | refl => exact absurd hi hname
    | @inward q _ hk hq =>
      obtain rfl : p = q := Option.some.inj (hp.symm.trans hq)
      exact hnearest k hk hname

/-- A name stands for the entry of the nearest scope that declares it. -/
theorem resolveId?_eq_some_iff (h : Nested limit m.scopes) :
    m.resolveId? name i = some k ↔ ∃ j, m.Nearest name i j ∧ m.idAt? j name = some k := by
  induction i using outward_induction h with
  | step i ih =>
    rw [resolveId?_eq h]
    cases hi : m.idAt? i name with
    | some l =>
      simp only [nearest_self_iff h (by simp [hi] : m.idAt? i name ≠ none), exists_eq_left, hi,
        Option.some_or]
    | none =>
      simp only [nearest_outward_iff hi, Option.none_or, Option.bind_eq_some_iff]
      constructor
      · rintro ⟨p, hp, hk⟩
        obtain ⟨j, hj, hid⟩ := (ih p hp).1 hk
        exact ⟨j, ⟨p, hp, hj⟩, hid⟩
      · rintro ⟨j, ⟨p, hp, hj⟩, hid⟩
        exact ⟨p, hp, (ih p hp).2 ⟨j, hj, hid⟩⟩

theorem resolve?_eq_some_iff (h : m.WellFormed limit) {x : Symbol} :
    m.resolve? name i = some x ↔ ∃ j, m.Nearest name i j ∧ m.symbolAt? j name = some x := by
  simp only [resolve?, symbolAt?, Option.bind_eq_some_iff, resolveId?_eq_some_iff h.nested]
  constructor
  · rintro ⟨k, ⟨j, hj, hid⟩, hx⟩
    exact ⟨j, hj, k, hid, hx⟩
  · rintro ⟨j, hj, k, hid, hx⟩
    exact ⟨k, ⟨j, hj, hid⟩, hx⟩

/-! ### Both ways -/

/-- In all scopes, and for all numbers that no scope has, the two ways to find out what a name
stands for agree. -/
structure LookupsAgree (m : Model) : Prop where
  /-- The way outward has an end. -/
  ends : ∀ i, Outward m.scopes (some i) (m.chain i)
  listed : ∀ i name, (m.visible i).contains name = true ↔ (m.resolve? name i).isSome = true
  same : ∀ i name, ((m.visible i).get? name).bind (m.symbols[·]?) = m.resolve? name i
  nearest : ∀ i name x, m.resolve? name i = some x ↔
    ∃ j, m.Nearest name i j ∧ m.symbolAt? j name = some x

theorem WellFormed.lookupsAgree (h : m.WellFormed limit) : m.LookupsAgree := by
  refine ⟨outward_chain h.nested, fun i name => ?_, fun i name => ?_,
    fun _ _ _ => resolve?_eq_some_iff h⟩
  · rw [Table.contains, visible_get? h, Option.isSome_iff_ne_none, Option.isSome_iff_ne_none, ne_eq,
      ne_eq, resolve?_eq_none_iff h]
  · rw [visible_get? h, resolve?]

end Model

/-- In the model of every program, listing the names of a scope and looking them up agree. -/
theorem analyze_lookupsAgree (o : Options) (root : Node) : (analyze o root).LookupsAgree := by
  have hdraft := Draft.wellFormed_ofRoot o root
  rw [analyze]
  split
  · exact (List.foldlRecOn _ _ hdraft fun _ hm u _ => hm.addUse u).lookupsAgree
  · exact hdraft.lookupsAgree

end Arbor.Symbols
