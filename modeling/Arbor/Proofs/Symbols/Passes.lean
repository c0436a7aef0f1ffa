import Arbor.Proofs.Symbols.Visits
import Arbor.Proofs.Symbols.Layout

/-!
# Both passes see the same scopes

The run over the outline carries the scope at hand along. The walk over the uses finds it again from
the nodes: the scope of a node is the one that the node or the nearest node around it has opened
last. Where no two fields of a node name one child, both agree on every node that opens no scope for
itself, and thus on every name.
-/

namespace Arbor.Symbols

open Outline

/-! ### The scope of a node -/

/-- The scope of a node: the one opened for the node, or else that of its parent. -/
inductive Draft.InScope (d : Draft) (root : Node) : Node → Nat → Prop where
  | root : InScope d root root ((d.scopeOf? root).getD Model.globalScope)
  | child {p c : Node} {s : Nat} : InScope d root p s → c ∈ p.children →
    InScope d root c ((d.scopeOf? c).getD s)

namespace Draft

variable {d : Draft} {root n : Node} {s t : Nat}

lemma InScope.mem_preorder (h : d.InScope root n s) : n ∈ root.preorder := by
  induction h with
  | root => exact root.self_mem_preorder
  | child _ hc ih => exact ((Node.inside_of_mem_children hc).up ih).mem_preorder

/-- A node has one scope. -/
lemma InScope.unique (hs : d.InScope root n s) (ht : d.InScope root n t) : s = t := by
  have hroot {p : Node} (hp : p ∈ root.preorder) : root ∉ p.children := fun hchild =>
    (Node.inside_of_mem_children hchild).not_mem_preorder hp
  induction hs generalizing t with
  | root =>
    cases ht with
    | root => rfl
    | child hp hc => exact absurd hc (hroot hp.mem_preorder)
  | child hp hc ih =>
    cases ht with
    | root => exact absurd hc (hroot hp.mem_preorder)
    | child hq hc' =>
      obtain rfl := Node.eq_of_mem_children_children hp.mem_preorder hq.mem_preorder hc hc'
      rw [ih hq]

/-- Below a node with a scope, every node has one. -/
lemma InScope.exists_below {m : Node} {s : Nat} (h : d.InScope root m s) (hn : n ∈ m.preorder) :
    ∃ t, d.InScope root n t := by
  rcases Node.mem_preorder.1 hn with rfl | ⟨c, hc, hn⟩
  · exact ⟨s, h⟩
  · exact (h.child hc).exists_below hn
termination_by m.size
decreasing_by exact Node.size_lt_of_mem_children hc

/-- The scope that is opened for a node is its scope. -/
lemma inScope_of_scopeOf? (hn : n ∈ root.preorder) (hs : d.scopeOf? n = some s) :
    d.InScope root n s := by
  obtain ⟨t, ht⟩ := InScope.root.exists_below (d := d) hn
  have hsame : t = s := by
    cases ht with
    | root => rw [hs, Option.getD_some]
    | child => rw [hs, Option.getD_some]
  exact hsame ▸ ht

/-- The scope of a node reaches down to the nodes for which another is opened. -/
lemma InScope.down {m : Node} (h : d.InScope root m s) (hn : n.Inside m)
    (hnone : ∀ q, q.Inside m → n ∈ q.preorder → d.scopeOf? q = none) : d.InScope root n s := by
  obtain ⟨c, hc, hn⟩ := hn
  have hinside := Node.inside_of_mem_children hc
  have hchild : d.InScope root c s := by
    have hstep := h.child hc
    rwa [hnone c hinside hn, Option.getD_none] at hstep
  rcases Node.mem_preorder_iff_inside.1 hn with rfl | hn
  · exact hchild
  · exact hchild.down hn fun q hq hqn => hnone q (hq.trans hinside) hqn
termination_by m.size
decreasing_by exact Node.size_lt_of_mem_children hc

/-! ### The stops of a run -/

mutual

/-- The nodes that a run comes to, each with the scope at hand. -/
def stops (o : Options) (scope around : Nat) (exports : Option Nat) :
    Outline → Draft → List (Node × Nat)
  | .node n inner, d => (n, scope) :: stopsAll o scope around exports inner d
  | .scope kind owner inner, d =>
    match d.openScope o kind scope owner with
    | (some id, d) => stopsAll o id scope exports inner d
    | (none, _) => []
  | .exporting inner, d => stopsAll o scope around (some scope) inner d
  | .declare _, _ | .declareOutside _, _ | .exportNames _, _ => []

/-- The nodes that a run over several items comes to. -/
def stopsAll (o : Options) (scope around : Nat) (exports : Option Nat) :
    List Outline → Draft → List (Node × Nat)
  | [], _ => []
  | x :: xs, d =>
    stops o scope around exports x d
      ++ stopsAll o scope around exports xs (run o scope around exports x d)

end

/-- The nodes that the run over a program comes to, each with the scope at hand. -/
def stopsOf (o : Options) (root : Node) : List (Node × Nat) :=
  stopsAll o Model.globalScope Model.globalScope none (outline root)
    ((start root).declareBuiltins o)

/-- A run over items inside a node comes to nodes at and below it only. -/
lemma mem_preorder_of_mem_stopsAll {h : Node} {xs : List Outline} {as : List Node}
    (hx : Laid h xs as) {o : Options} {scope around : Nat} {exports : Option Nat} {d : Draft} :
    ∀ e ∈ stopsAll o scope around exports xs d, e.1 ∈ h.preorder := by
  induction hx generalizing scope around exports d with
  | nil h => simp [stopsAll]
  | declare _ _ ih | declareOutside _ _ ih | exportNames _ ih =>
    simp only [stopsAll, stops, List.nil_append]
    exact ih
  | exporting _ _ _ ihinner ih =>
    simp only [stopsAll, stops]
    exact List.forall_mem_append.2 ⟨ihinner, ih⟩
  | node hn _ _ _ _ ihinner ih =>
    simp only [stopsAll, stops, List.cons_append]
    refine List.forall_mem_cons.2 ⟨hn, List.forall_mem_append.2 ⟨fun e he => ?_, ih⟩⟩
    exact Node.mem_preorder_trans (ihinner e he) hn
  | @scope h owner kind _ _ _ _ _ howns _ _ _ _ ihinner ih =>
    simp only [stopsAll, stops]
    refine List.forall_mem_append.2 ⟨?_, ih⟩
    generalize d.openScope o kind scope owner = opened
    obtain ⟨id | id, d'⟩ := opened
    · simp
    · intro e he
      exact Node.mem_preorder_trans (ihinner e he) howns.mem

/-- Before a run over items at the given places, no scope is opened below them; after it, what it
opened stays; and the scope at hand is that of the places, unless others are opened for them. -/
structure Awaits (final : Draft) (root : Node) (scope : Nat) (as : List Node) (d d' : Draft) :
    Prop where
  fresh : ∀ a ∈ as, ∀ m, m.Inside a → d.scopeOf? m = none
  stays : ∀ a ∈ as, ∀ m ∈ a.preorder, final.scopeOf? m = d'.scopeOf? m
  place : ∀ a ∈ as, final.scopeOf? a = d.scopeOf? a → final.InScope root a scope

variable {final d' d'' : Draft} {h : Node} {o : Options} {scope around : Nat}
  {exports : Option Nat} {xs inner : List Outline} {as bs : List Node}

/-- Two runs over places that are apart. -/
lemma Awaits.split (bs : List Node)
    (hwait : Awaits final root scope (bs ++ as) d (runAll o scope around exports xs d'))
    (hx : Laid h xs as) (hh : h ∈ root.preorder) (hbs : ∀ b ∈ bs, b ∈ h.preorder)
    (hapart : ∀ b ∈ bs, ∀ a ∈ as, b.Apart a)
    (hearlier : ∀ m ∈ root.preorder, (∀ b ∈ bs, m ∉ b.preorder) → d'.scopeOf? m = d.scopeOf? m) :
    Awaits final root scope bs d d' ∧
      Awaits final root scope as d' (runAll o scope around exports xs d') := by
  have hroot {a m : Node} (ha : a ∈ h.preorder) (hm : m ∈ a.preorder) : m ∈ root.preorder :=
    Node.mem_preorder_trans hm (Node.mem_preorder_trans ha hh)
  have hkeep : ∀ a ∈ as, ∀ m ∈ a.preorder, d'.scopeOf? m = d.scopeOf? m := by
    intro a ha m hm
    refine hearlier m (hroot (hx.mem_preorder a ha) hm) fun b hb hmb => ?_
    exact hapart b hb a ha m hmb hm
  constructor
  · refine ⟨fun b hb => hwait.fresh b (List.mem_append_left _ hb), fun b hb m hm => ?_,
      fun b hb => hwait.place b (List.mem_append_left _ hb)⟩
    rw [hwait.stays b (List.mem_append_left _ hb) m hm]
    refine scopeOf?_runAll hx hh (hroot (hbs b hb) hm) fun a ha hma => ?_
    exact hapart b hb a ha m hm hma
  · refine ⟨fun a ha m hm => ?_, fun a ha => hwait.stays a (List.mem_append_right _ ha),
      fun a ha hsame => ?_⟩
    · rw [hkeep a ha m hm.mem_preorder]
      exact hwait.fresh a (List.mem_append_right _ ha) m hm
    · rw [hkeep a ha a a.self_mem_preorder] at hsame
      exact hwait.place a (List.mem_append_right _ ha) hsame

/-- The run over what is inside a node. -/
lemma awaits_of_laid (hlaid : Laid n inner bs) (hbs : ∀ b ∈ bs, b.Inside n)
    (hfields : n.FieldsDistinct) (hn : final.InScope root n scope)
    (hfresh : ∀ m, m.Inside n → d.scopeOf? m = none)
    (hstays : ∀ m ∈ n.preorder,
      final.scopeOf? m = (runAll o scope around exports inner d).scopeOf? m) :
    Awaits final root scope bs d (runAll o scope around exports inner d) := by
  have hroot {m : Node} (hm : m ∈ n.preorder) : m ∈ root.preorder :=
    Node.mem_preorder_trans hm hn.mem_preorder
  constructor
  · intro b hb m hm
    exact hfresh m (hm.trans (hbs b hb))
  · intro b hb m hm
    exact hstays m ((hbs b hb).of_mem_preorder hm).mem_preorder
  · intro b hb hsame
    refine hn.down (hbs b hb) fun q hq hbq => ?_
    rcases Node.mem_preorder_iff_inside.1 hbq with rfl | hbq
    · rw [hsame, hfresh b (hbs b hb)]
    · -- a node between `n` and a place is at or below no place
      have hout : ∀ b' ∈ bs, q ∉ b'.preorder := by
        intro b' hb' hqb'
        have hinside : b.Inside b' := hbq.up hqb'
        by_cases hne : b = b'
        · subst hne
          exact hinside.not_mem_preorder b.self_mem_preorder
        · exact ((hlaid.pairwise_apart hfields).forall hb hb' hne).not_inside hinside
      rw [hstays q hq.mem_preorder,
        scopeOf?_runAll hlaid hn.mem_preorder (hroot hq.mem_preorder) hout, hfresh q hq]

/-- Opening a scope gives it to its owner. -/
lemma scopeOf?_of_openScope {kind : ScopeKind} {parent id : Nat} {owner : Node}
    (hopen : d.openScope o kind parent owner = (some id, d')) : d'.scopeOf? owner = some id := by
  rw [Draft.openScope] at hopen
  split at hopen
  · cases hopen
  · split_ifs at hopen
    · cases hopen
    · cases hopen
      exact List.lookup_cons_self

/-- The run over what is inside a scope, once it is opened. -/
lemma awaits_of_openScope {kind : ScopeKind} {parent id : Nat} {owner : Node}
    (hopen : d.openScope o kind parent owner = (some id, d')) (hlaid : Laid owner inner bs)
    (hfit : (∀ b ∈ bs, b.Inside owner) ∨ bs = [owner]) (hfields : owner.FieldsDistinct)
    (howner : owner ∈ root.preorder)
    (hfresh : ∀ m, m.Inside owner → d.scopeOf? m = none)
    (hstays : ∀ m ∈ owner.preorder,
      final.scopeOf? m = (runAll o id around exports inner d').scopeOf? m) :
    Awaits final root id bs d' (runAll o id around exports inner d') := by
  have hopened : d'.scopeOf? owner = some id := scopeOf?_of_openScope hopen
  have hbelow : ∀ m, m.Inside owner → d'.scopeOf? m = none := by
    intro m hm
    have hne : m.number ≠ owner.number := by
      intro hnumber
      have hsame := Node.eq_of_number_eq hm.mem_preorder owner.self_mem_preorder hnumber
      exact hm.not_mem_preorder (hsame ▸ m.self_mem_preorder)
    have hkeep := scopeOf?_openScope_of_ne o kind parent (d := d) hne
    rw [hopen] at hkeep
    rw [hkeep, hfresh m hm]
  rcases hfit with hinside | rfl
  · have hout : ∀ b ∈ bs, owner ∉ b.preorder := fun b hb => (hinside b hb).not_mem_preorder
    have hown : final.scopeOf? owner = some id := by
      rw [hstays owner owner.self_mem_preorder, scopeOf?_runAll hlaid howner howner hout, hopened]
    exact awaits_of_laid hlaid hinside hfields (inScope_of_scopeOf? howner hown) hbelow hstays
  · refine ⟨?_, ?_, ?_⟩ <;> simp only [List.mem_singleton, forall_eq]
    · exact hbelow
    · exact hstays
    · intro hsame
      exact inScope_of_scopeOf? howner (hsame.trans hopened)

/-- The stops of a run over items whose places await it are in the scopes of their nodes. -/
lemma inScope_of_mem_stopsAll (hx : Laid h xs as) (hfields : root.FieldsDistinct)
    (hh : h ∈ root.preorder)
    (hwait : Awaits final root scope as d (runAll o scope around exports xs d)) :
    ∀ e ∈ stopsAll o scope around exports xs d, (Form.of e.1).opens = false →
      final.InScope root e.1 e.2 := by
  induction hx generalizing scope around exports d with
  | nil h => simp [stopsAll]
  | declare _ _ ih | declareOutside _ _ ih | exportNames _ ih =>
    simp only [runAll, run] at hwait
    simp only [stopsAll, stops, List.nil_append, run]
    exact ih hh ⟨hwait.fresh, hwait.stays, hwait.place⟩
  | exporting hinner hxs hparted ihinner ih =>
    simp only [runAll, run] at hwait
    obtain ⟨hfirst, hrest⟩ := hwait.split _ hxs hh hinner.mem_preorder
      (hparted (hfields.of_mem_preorder hh)) fun m hm hout => scopeOf?_runAll hinner hh hm hout
    simp only [stopsAll, stops, run]
    exact List.forall_mem_append.2 ⟨ihinner hh hfirst, ih hh hrest⟩
  | @node h n inner xs bs as hn hinner hfit hxs hparted ihinner ih =>
    have hnroot : n ∈ root.preorder := Node.mem_preorder_trans hn hh
    simp only [runAll, run] at hwait
    obtain ⟨hfirst, hrest⟩ := hwait.split [n] hxs hh (by simpa using hn)
      (hparted (hfields.of_mem_preorder hh)) fun m hm hout =>
        scopeOf?_runAll_of_not_mem hinner hnroot hm (hout n List.mem_cons_self)
    have hfresh := hfirst.fresh n List.mem_cons_self
    have hstays := hfirst.stays n List.mem_cons_self
    simp only [stopsAll, stops, run, List.cons_append]
    -- The node opens no scope by itself, or its own scope is all that it holds.
    rcases hfit with hinside | ⟨hopens, rfl⟩
    · have hout : ∀ b ∈ bs, n ∉ b.preorder := fun b hb => (hinside b hb).not_mem_preorder
      have hin : final.InScope root n scope := by
        apply hfirst.place n List.mem_cons_self
        rw [hstays n n.self_mem_preorder, scopeOf?_runAll hinner hnroot hnroot hout]
      have hwaits :=
        awaits_of_laid hinner hinside (hfields.of_mem_preorder hnroot) hin hfresh hstays
      refine List.forall_mem_cons.2 ⟨fun _ => hin, List.forall_mem_append.2 ⟨?_, ih hh hrest⟩⟩
      exact ihinner hnroot hwaits
    · refine List.forall_mem_cons.2 ⟨fun hcloses => ?_, List.forall_mem_append.2 ⟨?_, ih hh hrest⟩⟩
      · simp [hopens] at hcloses
      · exact ihinner hnroot hfirst
  | @scope h owner kind inner xs bs as _ howns hinner hfit hxs hparted ihinner ih =>
    have howner : owner ∈ root.preorder := (howns.up hh).mem
    -- Opening a scope concerns its owner only.
    have hkeep : ∀ m ∈ root.preorder, m ∉ owner.preorder →
        (d.openScope o kind scope owner).2.scopeOf? m = d.scopeOf? m := by
      intro m hm hout
      apply scopeOf?_openScope_of_ne
      intro hnumber
      exact hout (Node.eq_of_number_eq hm howner hnumber ▸ m.self_mem_preorder)
    simp only [runAll, run] at hwait
    simp only [stopsAll, stops, run]
    generalize hopen : d.openScope o kind scope owner = opened at hkeep hwait
    obtain ⟨id | id, d'⟩ := opened
    · -- A scope that lies too deep holds no stops.
      obtain ⟨-, hrest⟩ := hwait.split [owner] hxs hh (by simpa using howns.mem)
        (hparted (hfields.of_mem_preorder hh)) fun m hm hout =>
          hkeep m hm (hout owner List.mem_cons_self)
      simpa using ih hh hrest
    · obtain ⟨hfirst, hrest⟩ := hwait.split [owner] hxs hh (by simpa using howns.mem)
        (hparted (hfields.of_mem_preorder hh)) fun m hm hout => by
          rw [scopeOf?_runAll_of_not_mem hinner howner hm (hout owner List.mem_cons_self)]
          exact hkeep m hm (hout owner List.mem_cons_self)
      have hwaits := awaits_of_openScope hopen hinner hfit (hfields.of_mem_preorder howner) howner
        (hfirst.fresh owner List.mem_cons_self) (hfirst.stays owner List.mem_cons_self)
      exact List.forall_mem_append.2 ⟨ihinner howner hwaits, ih hh hrest⟩

/-- The stops of the run over a program are in the scopes of their nodes, but for nodes that open
scopes for themselves. -/
lemma inScope_of_mem_stopsOf (o : Options) {root : Node} (hfields : root.FieldsDistinct) :
    ∀ e ∈ stopsOf o root, (Form.of e.1).opens = false → (ofRoot o root).InScope root e.1 e.2 := by
  have hstart (m : Node) : ((start root).declareBuiltins o).scopeOf? m
      = if m.number = root.number then some Model.globalScope else none := by
    have hsame : ((start root).declareBuiltins o).scopeOf = (start root).scopeOf := by
      rw [declareBuiltins]
      split_ifs <;> rfl
    rw [scopeOf?, hsame]
    simp [start]
  apply inScope_of_mem_stopsAll (laid_outline root root.self_mem_preorder) hfields
    root.self_mem_preorder
  refine ⟨?_, ?_, ?_⟩ <;> simp only [List.mem_singleton, forall_eq]
  · intro m hm
    rw [hstart, if_neg]
    intro hnumber
    have hsame := Node.eq_of_number_eq hm.mem_preorder root.self_mem_preorder hnumber
    exact hm.not_mem_preorder (hsame ▸ m.self_mem_preorder)
  · intro m _
    rfl
  · intro hsame
    rw [hstart, if_pos rfl] at hsame
    exact inScope_of_scopeOf? root.self_mem_preorder hsame

end Draft

/-! ### The scopes of visits -/

lemma useForm_of_mem_partedKinds {n : Node} (hkind : n.kind ∈ partedKinds) :
    UseForm.of n = .other := by
  simp only [partedKinds, List.mem_cons, List.not_mem_nil, or_false] at hkind
  rcases hkind with hkind | hkind | hkind | hkind <;> simp [UseForm.of, hkind]

lemma Writes.not_mem_partedKinds {p n : Node} (h : Writes p n) : p.kind ∉ partedKinds := by
  intro hkind
  have hother := useForm_of_mem_partedKinds hkind
  cases h with
  | assignment hform | update hform | loop hform => simp [hform] at hother

lemma opens_of_name {n : Node} (hname : UseForm.of n = .name) : (Form.of n).opens = false := by
  have hkind : n.kind = "identifier" ∨ n.kind = "shorthand_property_identifier" := by
    rw [UseForm.of] at hname
    split at hname <;> grind
  rcases hkind with hkind | hkind <;> simp [Form.of, Form.kinds, hkind, Form.opens]

lemma opens_of_brackets {n : Node} (hkind : n.kind = "parenthesized_expression") :
    (Form.of n).opens = false := by
  simp [Form.of, Form.kinds, hkind, Form.opens]

/-- A part of a node that opens no scopes for its parts owns a scope only by itself. -/
lemma not_owns {root p c : Node} (hp : p ∈ root.preorder) (hc : c ∈ p.children)
    (hkind : p.kind ∉ partedKinds) (hform : (Form.of c).opens = false) : ¬ Owns root c := by
  rintro ⟨-, hself | ⟨q, hq, hqkind, hchild⟩⟩
  · simp [hform] at hself
  · obtain rfl := Node.eq_of_mem_children_children hp hq hc hchild
    exact hkind hqkind

lemma Draft.Owned.scopeOf?_eq_none {d : Draft} {root n : Node} (h : d.Owned root)
    (hn : n.Inside root) (hno : ¬ Owns root n) : d.scopeOf? n = none := by
  rw [Option.eq_none_iff_forall_ne_some]
  intro s hs
  have hsame {b : Node} (hb : b ∈ root.preorder) (hnumber : n.number = b.number) : n = b :=
    Node.eq_of_number_eq hn.mem_preorder hb hnumber
  rcases h.opened _ (Draft.mem_of_scopeOf? hs) with hroot | ⟨b, hb, hnumber⟩
  · exact hn.not_mem_preorder (hsame root.self_mem_preorder hroot ▸ n.self_mem_preorder)
  · exact hno (hsame hb.mem hnumber.symm ▸ hb)

/-- No scope is opened for the brackets around what is written to. -/
lemma InBrackets.inScope {d : Draft} {root p t n : Node} {s : Nat} (hin : InBrackets t n)
    (howned : d.Owned root) (hp : d.InScope root p s) (ht : t ∈ p.children)
    (hkind : p.kind ∉ partedKinds) :
    d.InScope root n ((d.scopeOf? n).getD s) ∧
      ((Form.of n).opens = false → d.scopeOf? n = none) := by
  have hnone {c : Node} {s : Nat} {p : Node} (hp : d.InScope root p s) (hc : c ∈ p.children)
      (hkind : p.kind ∉ partedKinds) (hform : (Form.of c).opens = false) : d.scopeOf? c = none :=
    howned.scopeOf?_eq_none ((Node.inside_of_mem_children hc).up hp.mem_preorder)
      (not_owns hp.mem_preorder hc hkind hform)
  induction hin generalizing p with
  | refl t => exact ⟨hp.child ht, hnone hp ht hkind⟩
  | @step m c n hm hc _ ih =>
    have hmnone := hnone hp ht hkind (opens_of_brackets hm)
    have hmscope := hp.child ht
    rw [hmnone, Option.getD_none] at hmscope
    exact ih hmscope (List.mem_of_head? hc) (by simp [hm, partedKinds])

/-- A visit takes place in the scope of its node. -/
lemma inScope_of_mem_visits {d : Draft} {root : Node} (howned : d.Owned root) :
    ∀ v ∈ visits d root, d.InScope root v.node (v.scope d) := by
  have hwalk : ∀ v ∈ walk d ⟨root, Model.globalScope, none⟩,
      d.InScope root v.node (v.scope d) := by
    apply walk_induction
    · have hroot : d.InScope root root ((d.scopeOf? root).getD Model.globalScope) := .root
      simpa [Visit.scope, Visit.isWrite] using hroot
    · intro v hv w hw
      obtain ⟨-, haround, ⟨hwriter, hwrites, -⟩ | ⟨hwriter, hholds⟩⟩ := Visit.mem_next_iff.1 hw
      · obtain ⟨t, ht, hin⟩ := hwrites.exists_target
        obtain ⟨hscope, hnone⟩ := hin.inScope howned hv ht hwrites.not_mem_partedKinds
        rw [Visit.scope, haround]
        split_ifs with hwrite
        · have hname : UseForm.of w.node = .name := by
            simp_all [Visit.isWrite, Draft.isUse]
          rwa [hnone (opens_of_name hname), Option.getD_none] at hscope
        · exact hscope
      · have hscope := hv.child hholds.mem_children
        simpa [Visit.scope, Visit.isWrite, hwriter, haround] using hscope
  intro v hv
  exact hwalk v (mem_visits.1 hv).2

/-- If the run over the outline comes to a name in a scope, the name is used in this scope, unless
two fields of a node name one child. -/
theorem scope_eq_of_mem_stopsOf {o : Options} {root : Node} (hfields : root.FieldsDistinct)
    {e : Node × Nat} (he : e ∈ Draft.stopsOf o root) {u : Occurrence}
    (hu : u ∈ occurrences (Draft.ofRoot o root) root Model.globalScope)
    (hsame : u.node.same e.1 = true) : u.scope = e.2 := by
  obtain ⟨v, hv, huse, rfl⟩ := mem_occurrences.1 hu
  have hwalk := inScope_of_mem_visits (Draft.owned_ofRoot o root) v hv
  have hstop : e.1 ∈ root.preorder :=
    Draft.mem_preorder_of_mem_stopsAll (laid_outline root root.self_mem_preorder) e he
  have hnode : v.node = e.1 := Node.eq_of_number_eq hwalk.mem_preorder hstop (beq_iff_eq.1 hsame)
  have hname : UseForm.of e.1 = .name := by
    rw [← hnode]
    simp_all [Draft.isUse]
  have hrun := Draft.inScope_of_mem_stopsOf o hfields e he (opens_of_name hname)
  exact hwalk.unique (hnode ▸ hrun)

/-- A name in a loop that is the one side of a conditional. The conditional opens a scope for the
loop, and the loop opens another. -/
theorem scope_eq_of_mem_stopsOf_loop_in_branch :
    let loop : Tree := ⟨"for_statement", "", .zero, [.leaf "identifier" "x"], ∅⟩
    let branch : Tree := ⟨"if_statement", "", .zero, [.leaf "identifier" "c", loop],
      .ofList [("condition", 0), ("consequence", 1)]⟩
    let root := Node.root ⟨"program", "", .zero, [branch], ∅⟩
    root.FieldsDistinct ∧ ∃ e ∈ Draft.stopsOf {} root,
      ∃ u ∈ occurrences (Draft.ofRoot {} root) root Model.globalScope,
        u.node.same e.1 = true ∧ u.node.text = "x" ∧ e.2 = 2 ∧ u.scope = 2 := by
  intro loop branch root
  have hfields : root.FieldsDistinct := by decide +kernel
  obtain ⟨e, he, hnumber, hscope⟩ : ∃ e ∈ Draft.stopsOf {} root, e.1.number = 4 ∧ e.2 = 2 := by
    decide +kernel
  obtain ⟨u, hu, hnumber', htext⟩ : ∃ u ∈ occurrences (Draft.ofRoot {} root) root
      Model.globalScope, u.node.number = 4 ∧ u.node.text = "x" := by
    decide +kernel
  have hsame : u.node.same e.1 = true := by simp [Node.same, hnumber, hnumber']
  have hagree := scope_eq_of_mem_stopsOf hfields he hu hsame
  exact ⟨hfields, e, he, u, hu, hsame, htext, hscope, hagree.trans hscope⟩

end Arbor.Symbols
