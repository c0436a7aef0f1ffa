import Arbor.Proofs.Spans
import Arbor.Proofs.Symbols.Nesting
import Arbor.Proofs.Symbols.Truncation

/-!
# The scope at a position

In a tree whose spans nest, two nodes that reach over one position stand one below the other. The
scopes over a position then lie one inside the other, since they nest as their owners do. So the
scope that is found at a position is the innermost of them, and at a name it is the scope in which
the name is looked up.
-/

namespace Arbor

namespace Symbols

/-! ### The deepest scope at a position -/

namespace Nested

variable {limit : Nat} {scopes : Array Scope} {s t : Scope}

lemma getElem?_id (h : Nested limit scopes) (hs : s ∈ scopes) : scopes[s.id]? = some s := by
  obtain ⟨i, hi⟩ := Array.mem_iff_getElem?.1 hs
  rw [(h.place hi).id, hi]

/-- A scope around another is not as deep, unless it is the same. -/
lemma eq_of_depth_le (h : Nested limit scopes) (hs : s ∈ scopes) (ht : t ∈ scopes)
    (hin : Encloses scopes s.id t.id) (hle : t.depth ≤ s.depth) : s = t := by
  obtain ⟨hdepth, hsame⟩ := hin.depth_le h (h.getElem?_id hs) (h.getElem?_id ht)
  have hid := hsame (Nat.le_antisymm hdepth hle)
  exact Option.some.inj ((h.getElem?_id hs).symm.trans (hid ▸ h.getElem?_id ht))

lemma eq_of_encloses (h : Nested limit scopes) (hs : s ∈ scopes) (ht : t ∈ scopes)
    (hst : Encloses scopes s.id t.id) (hts : Encloses scopes t.id s.id) : s = t :=
  h.eq_of_depth_le hs ht hst (hts.depth_le h (h.getElem?_id ht) (h.getElem?_id hs)).1

end Nested

namespace Model

variable {m : Model} {p : Position}

/-- The search keeps the deepest scope over the position of those it has come to. -/
lemma foldl_deepest (p : Position) (ss : List Scope) (best : Option Scope) :
    (∀ s, ss.foldl (fun best s =>
        if s.span.contains p && best.all (·.depth ≤ s.depth) then some s else best) best = some s →
      (s ∈ ss ∧ s.span.contains p = true ∨ best = some s) ∧
        (∀ t, best = some t → t.depth ≤ s.depth) ∧
        ∀ t ∈ ss, t.span.contains p = true → t.depth ≤ s.depth) ∧
    (ss.foldl (fun best s =>
        if s.span.contains p && best.all (·.depth ≤ s.depth) then some s else best) best = none →
      best = none ∧ ∀ t ∈ ss, t.span.contains p = false) := by
  induction ss generalizing best with
  | nil => grind
  | cons x ss ih =>
    rw [List.foldl_cons]
    split_ifs with hx
    · rw [Bool.and_eq_true, Option.all_eq_true] at hx
      obtain ⟨hsome, hnone⟩ := ih (some x)
      constructor
      · intro s hs
        obtain ⟨hmem, hbest, hrest⟩ := hsome s hs
        have hxs := hbest x rfl
        refine ⟨.inl ?_, ?_, ?_⟩
        · rcases hmem with ⟨hmem, hp⟩ | heq
          · exact ⟨List.mem_cons_of_mem x hmem, hp⟩
          · obtain rfl := Option.some.inj heq
            exact ⟨List.mem_cons_self, hx.1⟩
        · intro t ht
          exact Nat.le_trans (of_decide_eq_true (hx.2 t ht)) hxs
        · intro t ht htp
          rcases List.mem_cons.1 ht with rfl | ht
          · exact hxs
          · exact hrest t ht htp
      · intro hs
        cases (hnone hs).1
    · obtain ⟨hsome, hnone⟩ := ih best
      constructor
      · intro s hs
        obtain ⟨hmem, hbest, hrest⟩ := hsome s hs
        refine ⟨?_, hbest, ?_⟩
        · exact hmem.imp_left fun ⟨hmem, hp⟩ => ⟨List.mem_cons_of_mem x hmem, hp⟩
        · intro t ht htp
          rcases List.mem_cons.1 ht with rfl | ht
          · -- it was passed over for a deeper one
            obtain ⟨y, hy, hlt⟩ : ∃ y, best = some y ∧ t.depth < y.depth := by
              simpa [htp, Option.all_eq_true] using hx
            exact Nat.le_of_lt (Nat.lt_of_lt_of_le hlt (hbest y hy))
          · exact hrest t ht htp
      · intro hs
        obtain ⟨rfl, hrest⟩ := hnone hs
        refine ⟨rfl, fun t ht => ?_⟩
        rcases List.mem_cons.1 ht with rfl | ht
        · simpa using hx
        · exact hrest t ht

lemma scopeAt?_eq_some {s : Scope} (h : m.scopeAt? p = some s) :
    s ∈ m.scopes ∧ s.span.contains p = true ∧
      ∀ t ∈ m.scopes, t.span.contains p = true → t.depth ≤ s.depth := by
  rw [scopeAt?, ← Array.foldl_toList] at h
  obtain ⟨hmem, -, hdeepest⟩ := (foldl_deepest p m.scopes.toList none).1 s h
  rcases hmem with ⟨hmem, hp⟩ | hmem
  · exact ⟨Array.mem_toList_iff.1 hmem, hp, fun t ht => hdeepest t (Array.mem_toList_iff.2 ht)⟩
  · cases hmem

lemma scopeAt?_eq_none_iff :
    m.scopeAt? p = none ↔ ∀ t ∈ m.scopes, t.span.contains p = false := by
  constructor
  · intro h t ht
    rw [scopeAt?, ← Array.foldl_toList] at h
    exact ((foldl_deepest p m.scopes.toList none).2 h).2 t (Array.mem_toList_iff.2 ht)
  · intro h
    cases hs : m.scopeAt? p with
    | none => rfl
    | some s =>
      obtain ⟨hmem, hp, -⟩ := scopeAt?_eq_some hs
      rw [h s hmem] at hp
      cases hp

/-- Where the scopes over a position lie one inside the other, the innermost of them is found. -/
lemma scopeAt?_eq_some_iff {limit : Nat} (hnested : Nested limit m.scopes)
    (htotal : ∀ s ∈ m.scopes, ∀ t ∈ m.scopes, s.span.contains p = true → t.span.contains p = true →
      Encloses m.scopes s.id t.id ∨ Encloses m.scopes t.id s.id) {s : Scope} :
    m.scopeAt? p = some s ↔ s ∈ m.scopes ∧ s.span.contains p = true ∧
      ∀ t ∈ m.scopes, t.span.contains p = true → Encloses m.scopes t.id s.id := by
  constructor
  · intro h
    obtain ⟨hs, hp, hdeepest⟩ := scopeAt?_eq_some h
    refine ⟨hs, hp, fun t ht htp => ?_⟩
    rcases htotal s hs t ht hp htp with hin | hin
    · rw [hnested.eq_of_depth_le hs ht hin (hdeepest t ht htp)]
      exact .refl
    · exact hin
  · rintro ⟨hs, hp, hinner⟩
    cases hbest : m.scopeAt? p with
    | none =>
      rw [scopeAt?_eq_none_iff.1 hbest s hs] at hp
      cases hp
    | some t =>
      obtain ⟨ht, htp, hdeepest⟩ := scopeAt?_eq_some hbest
      rw [hnested.eq_of_depth_le ht hs (hinner t ht htp) (hdeepest s hs hp)]

end Model

/-! ### Scopes over a position -/

section

variable {root : Node} {d : Draft} {p : Position}

/-- A scope over a position belongs to a node over the position. -/
lemma Draft.Nests.exists_owner (hd : d.Nests root) {limit : Nat}
    (hnested : Nested limit d.model.scopes) {s : Scope} (hs : s ∈ d.model.scopes) :
    ∃ b ∈ root.preorder, d.Owner b s.id ∧ b.span = s.span := by
  obtain ⟨i, hi⟩ := Array.mem_iff_getElem?.1 hs
  obtain ⟨b, hb, hown⟩ := hd.owner i (Array.getElem?_eq_some_iff.1 hi).1
  have hspan := hd.span b hb i hown
  rw [span?, hi] at hspan
  exact ⟨b, hb, (hnested.place hi).id ▸ hown, (Option.some.inj hspan).symm⟩

/-- The scopes over a position lie one inside the other. -/
lemma Draft.Nests.total (hd : d.Nests root) {limit : Nat} (hnested : Nested limit d.model.scopes)
    (hspans : root.SpansNest) {s t : Scope} (hs : s ∈ d.model.scopes) (ht : t ∈ d.model.scopes)
    (hsp : s.span.contains p = true) (htp : t.span.contains p = true) :
    Encloses d.model.scopes s.id t.id ∨ Encloses d.model.scopes t.id s.id := by
  obtain ⟨a, ha, hs, hspan⟩ := hd.exists_owner hnested hs
  obtain ⟨b, hb, ht, hspan'⟩ := hd.exists_owner hnested ht
  rw [← hspan] at hsp
  rw [← hspan'] at htp
  rcases Node.place_cases ha hb with rfl | hin | hin | hapart
  · -- both are around the scope that the node has opened last
    obtain ⟨k, hk⟩ := hs.exists_latest
    exact (hd.latest a ha k _ hk hs).total (hd.latest a ha k _ hk ht)
  · exact .inr (hd.nested a ha b hb _ _ hs ht hin)
  · exact .inl (hd.nested b hb a ha _ _ ht hs hin)
  · rcases hspans.mem_preorder_or ha hb hsp htp with hmem | hmem
    · exact absurd hmem (hapart a a.self_mem_preorder)
    · exact absurd b.self_mem_preorder (hapart b hmem)

/-- At a name without parts, a scope that reaches over its start is at or around its scope. -/
lemma Draft.Nests.encloses_of_contains (hd : d.Nests root) {limit : Nat}
    (hnested : Nested limit d.model.scopes) (hspans : root.SpansNest) {n : Node} {i : Nat}
    (hin : d.InScope root n i) (hleaf : n.children = []) (hp : n.span.contains p = true)
    {s : Scope} (hs : s ∈ d.model.scopes) (hsp : s.span.contains p = true) :
    Encloses d.model.scopes s.id i := by
  obtain ⟨b, hb, hown, hspan⟩ := hd.exists_owner hnested hs
  rw [← hspan] at hsp
  refine hd.encloses_of_inScope hin hb hown ?_
  rcases hspans.mem_preorder_or hin.mem_preorder hb hp hsp with hmem | hmem
  · exact hmem
  · rcases Node.mem_preorder.1 hmem with rfl | ⟨c, hc, -⟩
    · exact b.self_mem_preorder
    · rw [hleaf] at hc
      cases hc

/-- At a name without parts the scope is found in which the name is looked up. -/
lemma Draft.Nests.scopeAt?_start (hd : d.Nests root) {limit : Nat}
    (hnested : Nested limit d.model.scopes) (hspans : root.SpansNest) {n : Node} {i : Nat}
    (hin : d.InScope root n i) (hleaf : n.children = []) (hp : n.span.contains p = true) :
    (d.model.scopeAt? p).map (·.id) = some i := by
  obtain ⟨b, hb, hown, hn⟩ := hd.exists_owner_of_inScope hin
  obtain ⟨s, hs, hspan⟩ := Option.map_eq_some_iff.1 (hd.span b hb i hown)
  have hid := (hnested.place hs).id
  have hsp : s.span.contains p = true := hspan ▸ (hspans.of_mem_preorder hb).contains hn hp
  have hmem : s ∈ d.model.scopes := Array.mem_of_getElem? hs
  have hfound : d.model.scopeAt? p = some s := by
    refine (Model.scopeAt?_eq_some_iff hnested ?_).2 ⟨hmem, hsp, fun t ht htp => ?_⟩
    · exact fun _ hs _ ht hsp htp => hd.total hnested hspans hs ht hsp htp
    · exact hid ▸ hd.encloses_of_contains hnested hspans hin hleaf hp ht htp
  rw [hfound, Option.map_some, hid]

end

/-- In a tree whose spans nest, in which names have no parts and no two fields of a node name one
child, the scopes over a position lie one inside the other, and the innermost of them is found
there. None is found just in case the position lies outside the tree. Where a name stands for
nothing, the scope in which it was looked up is found. -/
theorem scopeAt_analyze (o : Options) {root : Node} (hspans : root.SpansNest)
    (hleaf : ∀ n ∈ root.preorder, UseForm.of n = .name → n.children = [])
    (hfields : root.FieldsDistinct) :
    (∀ p, (∀ s ∈ (analyze o root).scopes, ∀ t ∈ (analyze o root).scopes,
        s.span.contains p = true → t.span.contains p = true →
        (Encloses (analyze o root).scopes s.id t.id ∨ Encloses (analyze o root).scopes t.id s.id) ∧
        (Encloses (analyze o root).scopes s.id t.id → Encloses (analyze o root).scopes t.id s.id →
          s = t)) ∧
      (∀ s, (analyze o root).scopeAt? p = some s ↔
        s ∈ (analyze o root).scopes ∧ s.span.contains p = true ∧
          ∀ t ∈ (analyze o root).scopes, t.span.contains p = true →
            Encloses (analyze o root).scopes t.id s.id) ∧
      ((analyze o root).scopeAt? p = none ↔ root.span.contains p = false)) ∧
    ∀ u ∈ (analyze o root).unresolved, u.span.start < u.span.stop →
      ((analyze o root).scopeAt? u.span.start).map (·.id) = some u.scope := by
  have hd := Draft.nests_ofRoot o hfields
  have hnested := (analyze_wellFormed o root).nested
  have hscopeAt (p : Position) :
      (analyze o root).scopeAt? p = (Draft.ofRoot o root).model.scopeAt? p := by
    rw [Model.scopeAt?, analyze_scopes, Model.scopeAt?]
  rw [analyze_scopes] at hnested ⊢
  refine ⟨fun p => ⟨?_, ?_, ?_⟩, ?_⟩
  · intro s hs t ht hsp htp
    exact ⟨hd.total hnested hspans hs ht hsp htp, hnested.eq_of_encloses hs ht⟩
  · intro s
    rw [hscopeAt]
    exact Model.scopeAt?_eq_some_iff hnested
      fun _ hs _ ht hsp htp => hd.total hnested hspans hs ht hsp htp
  · rw [hscopeAt, Model.scopeAt?_eq_none_iff]
    constructor
    · intro h
      -- The scope of the whole program has the span of the root.
      obtain ⟨s, hs, hspan⟩ :=
        Option.map_eq_some_iff.1 (hd.span root root.self_mem_preorder _ hd.global)
      rw [← hspan]
      exact h s (Array.mem_of_getElem? hs)
    · intro h s hs
      obtain ⟨b, hb, -, hspan⟩ := hd.exists_owner hnested hs
      by_contra hsp
      rw [Bool.not_eq_false, ← hspan] at hsp
      rw [hspans.contains hb hsp] at h
      cases h
  · intro u hu hlt
    have hrecorded := recorded_of_references o root (references_of_mem_unresolved hu)
    obtain ⟨v, hv, -, rfl⟩ := hrecorded.mem_unresolved_iff.1 hu
    obtain ⟨hvisit, huse⟩ := List.mem_filter.1 hv
    -- The use was recorded in the scope in which the walk came to the name.
    have hin := inScope_of_mem_visits (Draft.owned_ofRoot o root) v hvisit
    have hname : UseForm.of v.node = .name := by
      rw [Draft.isUse, Bool.and_eq_true, decide_eq_true_eq] at huse
      exact huse.1
    rw [hscopeAt]
    exact hd.scopeAt?_start hnested hspans hin (hleaf _ hin.mem_preorder hname)
      (Span.contains_start hlt)

/-- A block around one name and a name behind the block. -/
def nameInBlock : Node :=
  let inner : Tree := ⟨"identifier", "a", ⟨⟨0, 2⟩, ⟨0, 3⟩⟩, [], ∅⟩
  let outer : Tree := ⟨"identifier", "b", ⟨⟨0, 6⟩, ⟨0, 7⟩⟩, [], ∅⟩
  .root ⟨"program", "", ⟨⟨0, 0⟩, ⟨0, 8⟩⟩,
    [⟨"statement_block", "", ⟨⟨0, 0⟩, ⟨0, 5⟩⟩, [inner], ∅⟩, outer], ∅⟩

/-- Each of the two names is found in its scope, and behind the program no scope is found. -/
theorem scopeAt_analyze_nameInBlock :
    let m := analyze { includeBuiltins := false } nameInBlock
    (m.scopeAt? ⟨0, 2⟩).map (·.id) = some 1 ∧ (m.scopeAt? ⟨0, 6⟩).map (·.id) = some 0 ∧
      m.scopeAt? ⟨0, 8⟩ = none := by
  intro m
  have hspans : nameInBlock.SpansNest := by
    refine ⟨by decide +kernel, fun n hn => ?_⟩
    have hordered : ∀ n ∈ nameInBlock.preorder,
        n.children.Pairwise fun c d => c.span.stop ≤ d.span.start := by
      decide +kernel
    exact (hordered n hn).imp Span.disjoint_of_le
  obtain ⟨hat, hnames⟩ := scopeAt_analyze { includeBuiltins := false } hspans
    (by decide +kernel) (by decide +kernel)
  have hunresolved : m.unresolved = #[⟨"a", ⟨⟨0, 2⟩, ⟨0, 3⟩⟩, 1⟩, ⟨"b", ⟨⟨0, 6⟩, ⟨0, 7⟩⟩, 0⟩] := by
    decide +kernel
  refine ⟨?_, ?_, (hat ⟨0, 8⟩).2.2.2 (by decide +kernel)⟩
  · exact hnames ⟨"a", ⟨⟨0, 2⟩, ⟨0, 3⟩⟩, 1⟩ (by rw [hunresolved]; simp) (by decide)
  · exact hnames ⟨"b", ⟨⟨0, 6⟩, ⟨0, 7⟩⟩, 0⟩ (by rw [hunresolved]; simp) (by decide)

end Symbols

end Arbor
