import Arbor.Proofs.Symbols.Counterparts
import Arbor.Proofs.Symbols.Visits

/-!
# Comments and the analysis of names

Outlines that are alike open the same scopes and make the same declarations, and what is noted about
nodes is noted about their counterparts. So the same names are uses, in the same scopes, and the
analysis gives the same model.
-/

namespace Arbor.Symbols

/-! ### Drafts -/

variable {E : Node → Node → Prop}

/-- The numbers are those of nodes that are paired. -/
def Numbers (E : Node → Node → Prop) (k k' : Nat) : Prop :=
  ∃ n n', E n n' ∧ n.number = k ∧ n'.number = k'

/-- The drafts have the same model, and what they say of nodes they say of nodes that are paired. -/
structure Draft.Alike (E : Node → Node → Prop) (d d' : Draft) : Prop where
  model : d'.model = d.model
  scopeOf : List.Forall₂ (fun a a' => Numbers E a.1 a'.1 ∧ a'.2 = a.2) d.scopeOf d'.scopeOf
  declared : List.Forall₂ (Numbers E) d.declared d'.declared
  truncated : List.Forall₂ (Numbers E) d.truncated d'.truncated

lemma Numbers.of {n n' : Node} (h : E n n') : Numbers E n.number n'.number := ⟨n, n', h, rfl, rfl⟩

section

variable {spares : Node → List Bool → Prop} (hE : Mirrors spares E)
include hE

lemma Numbers.beq {k k' : Nat} {n n' : Node} (h : Numbers E k k') (hn : E n n') :
    (n'.number == k') = (n.number == k) := by
  obtain ⟨m, m', hm, rfl, rfl⟩ := h
  rw [Bool.eq_iff_iff, beq_iff_eq, beq_iff_eq]
  exact hE.number hn hm

lemma contains_numbers {ks ks' : List Nat} (h : List.Forall₂ (Numbers E) ks ks') {n n' : Node}
    (hn : E n n') : ks'.contains n'.number = ks.contains n.number := by
  induction h with
  | nil => rfl
  | cons hk _ ih => rw [List.contains_cons, List.contains_cons, hk.beq hE hn, ih]

namespace Draft.Alike

variable {d d' : Draft} (hd : d.Alike E d')
include hd

lemma scopeOf? {n n' : Node} (hn : E n n') : d'.scopeOf? n' = d.scopeOf? n := by
  obtain ⟨-, hscopes, -, -⟩ := hd
  rw [Draft.scopeOf?, Draft.scopeOf?]
  generalize d.scopeOf = as, d'.scopeOf = as' at hscopes
  induction hscopes with
  | nil => rfl
  | @cons a a' _ _ ha _ ih =>
    obtain ⟨k, i⟩ := a
    obtain ⟨k', i'⟩ := a'
    obtain ⟨hk, rfl⟩ := ha
    rw [List.lookup_cons, List.lookup_cons, hk.beq hE hn, ih]

lemma isDeclared {n n' : Node} (hn : E n n') : d'.isDeclared n' = d.isDeclared n :=
  contains_numbers hE hd.declared hn

lemma isTruncated {n n' : Node} (hn : E n n') : d'.isTruncated n' = d.isTruncated n :=
  contains_numbers hE hd.truncated hn

lemma openScope (o : Options) (kind : ScopeKind) (parent : Nat) {n n' : Node} (hn : E n n') :
    (d'.openScope o kind parent n').1 = (d.openScope o kind parent n).1 ∧
      (d.openScope o kind parent n).2.Alike E (d'.openScope o kind parent n').2 := by
  rw [Draft.openScope, Draft.openScope, hd.model]
  cases d.model.scopes[parent]? with
  | none => exact ⟨rfl, hd⟩
  | some around =>
    dsimp only
    split_ifs
    · exact ⟨rfl, rfl, hd.scopeOf, hd.declared, .cons (.of hn) hd.truncated⟩
    · refine ⟨rfl, ?_, .cons ⟨.of hn, rfl⟩ hd.scopeOf, hd.declared, hd.truncated⟩
      rw [hE.span hn]

omit hE in
lemma declare (o : Options) (scope : Nat) (exports : Option Nat) {x x' : Declaration}
    (hx : x.Alike E x') :
    (d.declare o scope exports x).Alike E (d'.declare o scope exports x') := by
  obtain ⟨hnode, hrest⟩ := hx
  have hsymbol : x'.symbol scope exports = x.symbol scope exports := by
    rw [← hrest]
    rfl
  refine ⟨?_, hd.scopeOf, List.rel_append ?_ hd.declared, hd.truncated⟩
  · rw [Draft.declare, Draft.declare, hd.model, hsymbol]
  · generalize x.node = node, x'.node = node' at hnode
    cases hnode with
    | none => exact .nil
    | some hn => exact .cons (.of hn) .nil

/-- Outlines that are alike have the same effect. -/
theorem runAll {xs xs' : List Outline} (h : Outline.Alike E xs xs') (o : Options)
    (scope around : Nat) (exports : Option Nat) :
    (Draft.runAll o scope around exports xs d).Alike E
      (Draft.runAll o scope around exports xs' d') := by
  induction h generalizing d d' scope around exports with
  | nil => exact hd
  | comment _ ih => exact ih hd scope around exports
  | node _ _ _ ihinner ih => exact ih (ihinner hd scope around exports) scope around exports
  | declare hx _ ih => exact ih (hd.declare o scope exports hx) scope around exports
  | declareOutside hx _ ih => exact ih (hd.declare o around exports hx) scope around exports
  | @scope kind owner owner' inner inner' xs ys howner _ _ ihinner ih =>
    refine ih ?_ scope around exports
    obtain ⟨hid, hopened⟩ := hd.openScope hE o kind scope howner
    rw [Draft.run, Draft.run]
    generalize d.openScope o kind scope owner = p, d'.openScope o kind scope owner' = p'
      at hid hopened
    obtain ⟨id, e⟩ := p
    obtain ⟨id', e'⟩ := p'
    obtain rfl : id' = id := hid
    cases id' with
    | none => exact hopened
    | some id => exact ihinner hopened id scope exports
  | exporting _ _ ihinner ih =>
    exact ih (ihinner hd scope around (some scope)) scope around exports
  | @exportNames names _ _ _ ih =>
    have hexported : (Draft.run o scope around exports (.exportNames names) d).Alike E
        (Draft.run o scope around exports (.exportNames names) d') := by
      rw [Draft.run, Draft.run, hd.model]
      exact ⟨rfl, hd.scopeOf, hd.declared, hd.truncated⟩
    exact ih hexported scope around exports

end Draft.Alike

lemma ofRoot_alike (o : Options) {root root' : Node} (h : E root root') :
    (Draft.ofRoot o root).Alike E (.ofRoot o root') := by
  have hstart : (Draft.start root).Alike E (.start root') := by
    rw [Draft.start, Draft.start, hE.span h]
    exact ⟨rfl, .cons ⟨.of h, rfl⟩ .nil, .nil, .nil⟩
  have hbuiltins : ((Draft.start root).declareBuiltins o).Alike E
      ((Draft.start root').declareBuiltins o) := by
    rw [Draft.declareBuiltins, Draft.declareBuiltins, hstart.model]
    split_ifs
    · exact ⟨rfl, hstart.scopeOf, hstart.declared, hstart.truncated⟩
    · exact hstart
  exact hbuiltins.runAll hE (Outline.alike_outline hE h) o _ _ _

/-! ### Uses -/

/-- The uses are the same but for the nodes, which are paired. -/
structure Occurrence.Alike (E : Node → Node → Prop) (x x' : Occurrence) : Prop where
  node : E x.node x'.node
  scope : x'.scope = x.scope
  kind : x'.kind = x.kind

lemma useForm_counterpart {n n' : Node} (h : E n n') : UseForm.of n' = UseForm.of n := by
  have hnone : (n'.field? "kind").isNone = (n.field? "kind").isNone := by
    rw [← Option.not_isSome, ← Option.not_isSome, hE.isSome_field? h]
  rw [UseForm.of, UseForm.of, hE.kind h, hnone]

omit hE in
lemma useForm_comment {n : Node} (h : n.IsComment) : UseForm.of n = .other := by
  rw [UseForm.of, h.kind]
  rfl

omit hE in
/-- A comment holds no uses. -/
lemma occurrences_comment {n : Node} (h : n.IsComment) (d : Draft) (around : Nat) :
    occurrences d n around = [] := by
  rw [occurrences, usesStep, useForm_comment h]
  cases d.isTruncated n with
  | true => rfl
  | false =>
    change n.below.flatMap _ = []
    rw [Outline.below_comment h]
    rfl

omit hE in
/-- Nothing is written to in a comment. -/
lemma targetUses_comment {n : Node} {c : Below n} (h : c.1.IsComment) (d : Draft) (scope : Nat) :
    targetUses d (fun c scope => occurrences d c.1 scope) scope c = [] := by
  have hself : ungrouped? c.1 = some c.1 := by
    rw [ungrouped?_eq, h.kind]
    rfl
  have hval := (map_val_belowUngrouped? c).trans hself
  rw [targetUses]
  cases hinner : belowUngrouped? c with
  | none => rfl
  | some t =>
    rw [hinner, Option.map_some, Option.some.injEq] at hval
    simp [hval, useForm_comment h, occurrences_comment h]

section

variable {d d' : Draft} (hd : d.Alike E d') {n n' : Node}
  (ih : ∀ (c : Below n) (c' : Below n'), E c.1 c'.1 → ∀ scope,
    List.Forall₂ (Occurrence.Alike E) (occurrences d c.1 scope) (occurrences d' c'.1 scope))
include hd ih

lemma alike_targetUses (hn : E n n') (scope : Nat) {c : Below n} {c' : Below n'}
    (hc : c.1 ∈ targets n) (h : E c.1 c'.1) :
    List.Forall₂ (Occurrence.Alike E)
      (targetUses d (fun c scope => occurrences d c.1 scope) scope c)
      (targetUses d' (fun c scope => occurrences d' c.1 scope) scope c') := by
  have hinner : Option.Rel (fun (c : Below n) (c' : Below n') => E c.1 c'.1)
      (belowUngrouped? c) (belowUngrouped? c') := by
    refine rel_of_map ?_
    rw [map_val_belowUngrouped?, map_val_belowUngrouped?]
    exact hE.target hn hc h
  rw [targetUses, targetUses]
  generalize belowUngrouped? c = t, belowUngrouped? c' = t' at hinner ⊢
  cases hinner with
  | none => exact .nil
  | some ht =>
    simp only [useForm_counterpart hE ht, hd.isDeclared hE ht]
    split_ifs
    · exact .cons ⟨ht, rfl, rfl⟩ .nil
    · exact ih _ _ ht scope

omit hd in
lemma alike_partUses (h : E n n') (scope : Nat) :
    List.Forall₂ (Occurrence.Alike E)
      (partUses (fun (c : Below n) scope => occurrences d c.1 scope) scope)
      (partUses (fun (c : Below n') scope => occurrences d' c.1 scope) scope) :=
  (Outline.spread_below hE h).forall₂_flatMap (fun c _ c' hc => ih c c' hc scope)
    fun _ hc' => occurrences_comment hc' d' scope

lemma alike_usesStep (h : E n n') (around : Nat) :
    List.Forall₂ (Occurrence.Alike E)
      (usesStep d n (fun c scope => occurrences d c.1 scope) around)
      (usesStep d' n' (fun c scope => occurrences d' c.1 scope) around) := by
  rw [usesStep, usesStep, hd.isTruncated hE h, hd.scopeOf? hE h, useForm_counterpart hE h,
    hd.isDeclared hE h]
  generalize (d.scopeOf? n).getD around = scope
  cases d.isTruncated n with
  | true => exact .nil
  | false =>
    simp only [Bool.false_eq_true, if_false]
    have hfield {name : String} {c : Below n} (hc : c ∈ n.belowField? name) :
        n.field? name = some c.1 := by
      rw [← n.map_val_belowField?, Option.mem_def.1 hc, Option.map_some]
    cases hform : UseForm.of n with
    | importing => exact .nil
    | name =>
      dsimp only
      split_ifs
      · exact .nil
      · exact .cons ⟨h, rfl, rfl⟩ .nil
    | assignment =>
      have hleft := Outline.rel_belowField? hE h "left"
      have hright := Outline.rel_belowField? hE h "right"
      refine List.rel_append ?_ (List.rel_flatMap (forall₂_toList hright) ?_)
      · generalize hc : n.belowField? "left" = left at hleft ⊢
        generalize n'.belowField? "left" = left' at hleft ⊢
        cases hleft with
        | none => exact .nil
        | @some c c' hcc' =>
          have htarget : c.1 ∈ targets n := by simp [targets, hform, hfield hc]
          simpa using alike_targetUses hE hd ih h scope htarget hcc'
      · exact fun c c' hc => ih c c' hc scope
    | update =>
      have hargument := Outline.rel_belowField? hE h "argument"
      generalize hc : n.belowField? "argument" = argument at hargument ⊢
      generalize n'.belowField? "argument" = argument' at hargument ⊢
      cases hargument with
      | none => exact alike_partUses hE ih h scope
      | @some c c' hcc' =>
        have htarget : c.1 ∈ targets n := by simp [targets, hform, hfield hc]
        exact alike_targetUses hE hd ih h scope htarget hcc'
    | loopTarget =>
      refine (Outline.spread_below hE h).forall₂_flatMap (fun c hmem c' hc => ?_) fun c' hc' => ?_
      · rw [hE.any_same hc (hE.field? h "left")]
        split_ifs with hleft
        · obtain ⟨left, hleft, hsame⟩ := (Option.any_eq_true _ _).1 hleft
          have hchild : c.1 ∈ n.children := n.map_val_below ▸ List.mem_map_of_mem hmem
          -- The child is the part on the left itself, since no two children share a number.
          have heq : c.1 = left := Node.eq_of_number_eq
            (Node.inside_of_mem_children hchild).mem_preorder
            (Node.inside_of_field? hleft).mem_preorder (beq_iff_eq.1 hsame)
          have htarget : c.1 ∈ targets n := by simp [targets, hform, hleft, heq]
          exact alike_targetUses hE hd ih h scope htarget hc
        · exact ih c c' hc scope
      · rw [targetUses_comment hc', occurrences_comment hc', ite_self]
    | other => exact alike_partUses hE ih h scope

end

theorem alike_occurrences {d d' : Draft} (hd : d.Alike E d') {n n' : Node} (h : E n n')
    (around : Nat) :
    List.Forall₂ (Occurrence.Alike E) (occurrences d n around) (occurrences d' n' around) := by
  rw [occurrences, occurrences]
  exact alike_usesStep hE hd (fun c c' hc scope => alike_occurrences hd hc scope) h around
termination_by n.size
decreasing_by exact c.2

lemma addUse_counterpart (m : Model) {x x' : Occurrence} (h : x.Alike E x') :
    m.addUse x' = m.addUse x := by
  rw [Model.addUse, Model.addUse, hE.text h.node, hE.span h.node, h.scope, h.kind]

/-- The analysis of names says the same of a program and of its counterpart. -/
theorem analyze_counterpart (o : Options) {root root' : Node} (h : E root root') :
    analyze o root' = analyze o root := by
  have hd := ofRoot_alike hE o h
  simp only [analyze, hd.model]
  split_ifs
  · refine (List.rel_foldl (P := Eq) (fun m m' hm x x' hx => ?_) rfl
      (alike_occurrences hE hd h Model.globalScope)).symm
    rw [hm, addUse_counterpart hE m' hx]
  · rfl

end

end Arbor.Symbols
