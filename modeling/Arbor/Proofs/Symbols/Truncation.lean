import Arbor.Proofs.Symbols.Embedding
import Arbor.Proofs.Symbols.Passes
import Arbor.Proofs.Symbols.Records

/-!
# Unresolved names under two limits

An analysis does not look into scopes that lie too deep, so it misses the names used there. It
should not find more names unresolved than an analysis that looks deeper. This holds but for
classes: the name of a class right at the limit is dropped, and its uses outside the class are left
unresolved.

The walk under the lower limit keeps out of everything whose declarations were not run over. Hence
the walk under the higher limit makes the same visits, in the same scopes under other numbers.
-/

namespace Arbor.Symbols

open Outline

/-! ### The walk keeps out of hidden nodes -/

namespace Draft

variable {root : Node} {d : Draft}

/-- Below a node that is not hidden, a part is hidden only by its own scope. -/
lemma not_hides_child {p c : Node} (hp : p ∈ root.preorder) (hseen : ¬ d.Hides root p)
    (hc : c ∈ p.children) (hopen : d.isTruncated c = false) : ¬ d.Hides root c := by
  rintro ⟨t, ht, htruncated, hct⟩
  rcases Node.mem_preorder_iff_inside.1 hct with rfl | hin
  · simp [hopen] at htruncated
  · exact hseen ⟨t, ht, htruncated, hin.parent_mem_preorder hp ht hc⟩

lemma Owned.isTruncated_eq_false {n : Node} (h : d.Owned root) (hn : n ∈ root.preorder)
    (hno : ¬ Owns root n) : d.isTruncated n = false := by
  rw [Bool.eq_false_iff]
  intro htruncated
  obtain ⟨b, hb, hnumber⟩ := h.truncated n.number (by simpa [isTruncated] using htruncated)
  exact hno (Node.eq_of_number_eq hn hb.mem hnumber.symm ▸ hb)

/-- The brackets around what is written to hide nothing. -/
lemma not_hides_target (howned : d.Owned root) {p t n : Node} (hin : InBrackets t n)
    (hp : p ∈ root.preorder) (hseen : ¬ d.Hides root p) (ht : t ∈ p.children)
    (hkind : p.kind ∉ partedKinds)
    (hn : (Form.of n).opens = false ∨ d.isTruncated n = false) : ¬ d.Hides root n := by
  have hopen {p c : Node} (hp : p ∈ root.preorder) (hc : c ∈ p.children)
      (hkind : p.kind ∉ partedKinds) (hform : (Form.of c).opens = false) :
      d.isTruncated c = false :=
    howned.isTruncated_eq_false ((Node.inside_of_mem_children hc).up hp).mem_preorder
      (not_owns hp hc hkind hform)
  induction hin generalizing p with
  | refl t =>
    rcases hn with hform | htruncated
    · exact not_hides_child hp hseen ht (hopen hp ht hkind hform)
    · exact not_hides_child hp hseen ht htruncated
  | @step m c n hm hc _ ih =>
    have hmseen := not_hides_child hp hseen ht (hopen hp ht hkind (opens_of_brackets hm))
    exact ih ((Node.inside_of_mem_children ht).up hp).mem_preorder hmseen (List.mem_of_head? hc)
      (by simp [hm, partedKinds]) hn

/-- The walk does not go on to hidden nodes. -/
lemma not_hides_of_mem_next (howned : d.Owned root) {v w : Visit} (hv : v.node ∈ root.preorder)
    (hseen : ¬ d.Hides root v.node) (hw : w ∈ v.next d) : ¬ d.Hides root w.node := by
  obtain ⟨hcut, -, ⟨-, hwrites, -⟩ | ⟨hwriter, hholds⟩⟩ := Visit.mem_next_iff.1 hw
  · obtain ⟨t, ht, hin⟩ := hwrites.exists_target
    apply not_hides_target howned hin hv hseen ht hwrites.not_mem_partedKinds
    -- a name that is written to is never cut, but it opens no scope either
    cases hwrite : w.isWrite d with
    | true =>
      left
      apply opens_of_name
      simp_all [Visit.isWrite, isUse]
    | false =>
      right
      simpa [Visit.isCut, hwrite] using hcut
  · apply not_hides_child hv hseen hholds.mem_children
    simpa [Visit.isCut, Visit.isWrite, hwriter] using hcut

lemma not_hides_root (hopen : d.isTruncated root = false) : ¬ d.Hides root root := by
  rintro ⟨t, ht, htruncated, hroot⟩
  rcases Node.mem_preorder_iff_inside.1 ht with rfl | hin
  · simp [hopen] at htruncated
  · exact hin.not_mem_preorder hroot

end Draft

/-! ### The same visits under a higher limit -/

/-- The visit to the same node, with the scope around it renumbered. -/
def Visit.renumber (f : Nat → Nat) (v : Visit) : Visit :=
  { v with around := f v.around }

section

variable {root : Node} {f : Nat → Nat} {low high : Nat} {d e : Draft}

lemma Draft.Embeds.isUse_eq (h : d.Embeds root f low high e) {n : Node} (hn : n ∈ root.preorder)
    (hseen : ¬ d.Hides root n) : e.isUse n = d.isUse n := by
  rw [Draft.isUse, Draft.isUse, h.declared n hn hseen]

lemma Draft.Embeds.isTruncated_eq_false (h : d.Embeds root f low high e) {n : Node}
    (hn : n ∈ root.preorder) (hseen : ¬ d.Hides root n) : e.isTruncated n = false := by
  rw [Bool.eq_false_iff]
  exact fun htruncated => hseen (h.truncated n hn htruncated)

lemma Draft.Embeds.scope_renumber (h : d.Embeds root f low high e) {v : Visit}
    (hv : v.node ∈ root.preorder) (hseen : ¬ d.Hides root v.node) :
    (v.renumber f).scope e = f (v.scope d) := by
  have hwrite : (v.renumber f).isWrite e = v.isWrite d := by
    simp only [Visit.isWrite, Visit.renumber, h.isUse_eq hv hseen]
  rw [Visit.scope, Visit.scope, hwrite]
  split_ifs
  · rfl
  · simp only [Visit.renumber, h.scopeOf v.node hv hseen]
    cases d.scopeOf? v.node <;> rfl

/-- The visit comes to a node that is not hidden, and the walk under the higher limit makes it
too. -/
structure Visit.Matched (root : Node) (f : Nat → Nat) (d e : Draft) (v : Visit) : Prop where
  mem_preorder : v.node ∈ root.preorder
  seen : ¬ d.Hides root v.node
  around_lt : v.around < d.model.scopes.size
  mem_visits : v.renumber f ∈ visits e root

/-- What a matched visit leads to is matched. -/
lemma Visit.Matched.next (h : d.Embeds root f low high e) (howned : d.Owned root) {v w : Visit}
    (hv : v.Matched root f d e) (hw : w ∈ v.next d) : w.Matched root f d e := by
  have hnode : w.node ∈ root.preorder :=
    ((Visit.inside_of_mem_next hw).up hv.mem_preorder).mem_preorder
  have hseen := Draft.not_hides_of_mem_next howned hv.mem_preorder hv.seen hw
  obtain ⟨-, haround, hreason⟩ := Visit.mem_next_iff.1 hw
  refine ⟨hnode, hseen, ?_, ?_⟩
  · rw [haround]
    exact Visit.scope_lt h.soundLow hv.around_lt
  · obtain ⟨hcut, hwalk⟩ := Arbor.Symbols.mem_visits.1 hv.mem_visits
    refine Arbor.Symbols.mem_visits.2 ⟨hcut, mem_walk_of_mem_next hwalk ?_⟩
    rw [Visit.mem_next_iff, h.scope_renumber hv.mem_preorder hv.seen]
    refine ⟨?_, congrArg f haround, hreason⟩
    simp [Visit.isCut, Visit.renumber, h.isTruncated_eq_false hnode hseen]

/-- All visits are matched. -/
lemma Draft.Embeds.matched (h : d.Embeds root f low high e) (howned : d.Owned root) :
    ∀ v ∈ visits d root, v.Matched root f d e := by
  intro v hv
  obtain ⟨hcut, hv⟩ := mem_visits.1 hv
  have hseen : ¬ d.Hides root root :=
    Draft.not_hides_root (by simpa [Visit.isCut, Visit.isWrite] using hcut)
  have hfirst : Visit.Matched root f d e ⟨root, Model.globalScope, none⟩ := by
    refine ⟨root.self_mem_preorder, hseen, h.soundLow.wellFormed.nested.nonempty, ?_⟩
    rw [Visit.renumber, h.model.scopes.global, mem_visits]
    refine ⟨?_, mem_walk.2 (.inl rfl)⟩
    simp [Visit.isCut, h.isTruncated_eq_false root.self_mem_preorder hseen]
  exact walk_induction hfirst (fun hv w hw => hv.next h howned hw) v hv

end

/-! ### Unresolved names -/

section

variable {o : Options} {root : Node} {d : Draft} {m : Model}

lemma recorded_of_references (o : Options) (root : Node) (hreferences : o.references = true) :
    Recorded (Draft.ofRoot o root) root (analyze o root) := by
  rw [analyze, if_pos hreferences]
  exact (Draft.sound_ofRoot o root).recorded root

lemma references_of_mem_unresolved {u : Unresolved} (hu : u ∈ (analyze o root).unresolved) :
    o.references = true := by
  by_contra hreferences
  rw [analyze, if_neg hreferences, (Draft.sound_ofRoot o root).unresolved] at hu
  simp at hu

lemma Recorded.resolve?_eq (h : Recorded d root m) (name : String) (i : Nat) :
    d.model.resolve? name i = (m.resolve? name i).map fun s => { s with uses := #[] } := by
  simp only [Model.resolve?, Model.resolveId?, Model.chain, h.scopes, ← h.symbols,
    Array.getElem?_map, Option.map_bind]
  rfl

lemma Recorded.mem_unresolved_iff (h : Recorded d root m) {u : Unresolved} :
    u ∈ m.unresolved ↔ ∃ v ∈ nameVisits d root,
      m.resolve? v.node.text (v.scope d) = none ∧ ⟨v.node.text, v.node.span, v.scope d⟩ = u := by
  rw [← Array.mem_toList_iff, h.unresolved]
  simp [Visit.use, and_assoc]

/-- A symbol keeps the uses that stand for it. -/
lemma Recorded.exists_use (h : Recorded d root m) {v : Visit} (hv : v ∈ nameVisits d root)
    {x : Symbol} (hx : m.resolve? v.node.text (v.scope d) = some x) :
    x ∈ m.symbols ∧ ∃ use ∈ x.uses, use.span = v.node.span := by
  obtain ⟨k, hk, hxk⟩ := Option.bind_eq_some_iff.1 hx
  refine ⟨Array.mem_of_getElem? hxk, ⟨v.node.span, (v.use d).kind⟩, ?_, rfl⟩
  rw [← Array.mem_toList_iff, h.uses hxk, List.mem_map]
  refine ⟨v.use d, List.mem_filter.2 ⟨List.mem_map_of_mem hv, ?_⟩, rfl⟩
  simpa [Visit.use] using hk

/-- A name that stands for something under the higher limit only is that of a dropped class. -/
lemma Draft.Embeds.lost {e : Draft} {m' : Model} {f : Nat → Nat} {low high : Nat}
    (he : d.Embeds root f low high e) (hm : Recorded d root m) (hm' : Recorded e root m')
    {i : Nat} (hi : i < d.model.scopes.size) {name : String} (hnone : m.resolve? name i = none)
    {x : Symbol} (hx : m'.resolve? name (f i) = some x) :
    x.name = name ∧ Dropped root x ∧ depth? m'.scopes x.scope = some low := by
  have hwell := he.soundHigh.wellFormed
  have hnone' : d.model.resolve? name i = none := by
    rw [hm.resolve?_eq, hnone]
    rfl
  have hx' : e.model.resolve? name (f i) = some { x with uses := #[] } := by
    rw [hm'.resolve?_eq, hx]
    rfl
  obtain ⟨j, hj, hscope, hdepth, hdropped⟩ :=
    he.model.lost_of_resolve? he.soundLow.wellFormed hwell hi hnone' hx'
  refine ⟨?_, hdropped, ?_⟩
  · exact (hwell.indexed.of_symbolAt? (Model.symbolAt?_of_resolve? hwell hx')).2
  · rw [hm'.scopes, ← hdepth, ← he.model.scopes.depth j hj]
    exact congrArg (depth? e.model.scopes) hscope

end

/-- A use that stands for nothing under a limit stands for nothing under a higher limit, unless it
stands there for a class that is declared in a scope at the lower limit. -/
theorem unresolved_of_le (o : Options) (root : Node) {low high : Nat} (hle : low ≤ high)
    {u : Unresolved} (hu : u ∈ (analyze { o with maxDepth := low } root).unresolved) :
    (∃ w ∈ (analyze { o with maxDepth := high } root).unresolved,
      w.name = u.name ∧ w.span = u.span) ∨
    ∃ x ∈ (analyze { o with maxDepth := high } root).symbols,
      (∃ use ∈ x.uses, use.span = u.span) ∧ x.name = u.name ∧ Dropped root x ∧
        depth? (analyze { o with maxDepth := high } root).scopes x.scope = some low := by
  have hreferences := references_of_mem_unresolved hu
  have hlow := recorded_of_references { o with maxDepth := low } root hreferences
  have hhigh := recorded_of_references { o with maxDepth := high } root hreferences
  obtain ⟨f, hf⟩ := Draft.exists_embeds_ofRoot o hle root
  obtain ⟨v, hv, hnone, rfl⟩ := hlow.mem_unresolved_iff.1 hu
  obtain ⟨hvisit, huse⟩ := List.mem_filter.1 hv
  have hmatched := hf.matched (Draft.owned_ofRoot _ root) v hvisit
  have hlt := Visit.scope_lt hf.soundLow hmatched.around_lt
  have hscope := hf.scope_renumber hmatched.mem_preorder hmatched.seen
  have hv' : v.renumber f ∈ nameVisits (Draft.ofRoot { o with maxDepth := high } root) root := by
    refine List.mem_filter.2 ⟨hmatched.mem_visits, ?_⟩
    exact (hf.isUse_eq hmatched.mem_preorder hmatched.seen).trans huse
  cases hx : (analyze { o with maxDepth := high } root).resolve? v.node.text
      ((v.renumber f).scope (Draft.ofRoot { o with maxDepth := high } root)) with
  | none => exact .inl ⟨_, hhigh.mem_unresolved_iff.2 ⟨v.renumber f, hv', hx, rfl⟩, rfl, rfl⟩
  | some x =>
    obtain ⟨hmem, hused⟩ := hhigh.exists_use hv' hx
    rw [hscope] at hx
    exact .inr ⟨x, hmem, hused, hf.lost hlow hhigh hlt hnone hx⟩

/-- A block with a class and, behind it, a use of the name of the class. -/
def classInBlock : Node :=
  let name : Tree := ⟨"identifier", "A", ⟨⟨0, 8⟩, ⟨0, 9⟩⟩, [], ∅⟩
  let classDef : Tree := ⟨"class_declaration", "", .zero, [name], .ofList [("name", 0)]⟩
  let use : Tree := ⟨"identifier", "A", ⟨⟨0, 13⟩, ⟨0, 14⟩⟩, [], ∅⟩
  .root ⟨"program", "", .zero, [⟨"statement_block", "", .zero, [classDef, use], ∅⟩], ∅⟩

/-- The scope of the class lies too deep for the limit 1, and so the use stands for nothing. -/
theorem unresolved_of_le_classInBlock :
    let o : Options := { includeBuiltins := false }
    ∃ u ∈ (analyze { o with maxDepth := 1 } classInBlock).unresolved, u.name = "A" ∧
      ∃ x ∈ (analyze { o with maxDepth := 2 } classInBlock).symbols,
        (∃ use ∈ x.uses, use.span = u.span) ∧ x.name = "A" ∧ Dropped classInBlock x ∧
          depth? (analyze { o with maxDepth := 2 } classInBlock).scopes x.scope = some 1 := by
  intro o
  obtain ⟨u, hu, hname⟩ :
      ∃ u ∈ (analyze { o with maxDepth := 1 } classInBlock).unresolved, u.name = "A" := by
    decide +kernel
  have hnone : (analyze { o with maxDepth := 2 } classInBlock).unresolved = #[] := by
    decide +kernel
  have hcases := unresolved_of_le o classInBlock (Nat.le_succ 1) hu
  rw [hnone, hname] at hcases
  rcases hcases with ⟨w, hw, -⟩ | hlost
  · simp at hw
  · exact ⟨u, hu, hname, hlost⟩

/-- A higher limit may leave fewer uses unresolved. -/
theorem unresolved_classInBlock :
    let o : Options := { includeBuiltins := false }
    (analyze { o with maxDepth := 1 } classInBlock).unresolved
        = #[⟨"A", ⟨⟨0, 13⟩, ⟨0, 14⟩⟩, 1⟩] ∧
      (analyze { o with maxDepth := 2 } classInBlock).unresolved = #[] := by
  decide +kernel

end Arbor.Symbols
