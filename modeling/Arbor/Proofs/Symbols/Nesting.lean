import Arbor.Proofs.Symbols.Embedding
import Arbor.Proofs.Symbols.Passes

/-!
# Scopes nest as their owners do

Each scope is opened for a node, its owner; the global scope belongs to the root. If no two fields
of a node name one child, the scopes lie one inside the other as their owners do: the scope of a
node lies inside the scopes of all nodes above it. A node that owns several scopes has opened each
of them inside the one before.
-/

namespace Arbor.Symbols

open Outline

/-! ### Scopes at and around a scope -/

/-- Scope `i` is scope `j` or lies around it. -/
inductive Encloses (scopes : Array Scope) (i : Nat) : Nat → Prop where
  | refl : Encloses scopes i i
  | inward {p j : Nat} : Encloses scopes i p → around? scopes j = some p → Encloses scopes i j

/-- The span of a scope. -/
def span? (scopes : Array Scope) (i : Nat) : Option Span := scopes[i]?.map (·.span)

/-- Scopes may have been added, and those that were there still lie where they lay. -/
structure Grows (scopes scopes' : Array Scope) : Prop where
  around : ∀ {i p : Nat}, around? scopes i = some p → around? scopes' i = some p
  span : ∀ {i : Nat} {sp : Span}, span? scopes i = some sp → span? scopes' i = some sp

lemma Grows.refl (scopes : Array Scope) : Grows scopes scopes := ⟨id, id⟩

lemma Grows.trans {a b c : Array Scope} (h : Grows a b) (h' : Grows b c) : Grows a c :=
  ⟨fun hp => h'.around (h.around hp), fun hs => h'.span (h.span hs)⟩

lemma Encloses.grow {a b : Array Scope} {i j : Nat} (h : Encloses a i j) (hgrows : Grows a b) :
    Encloses b i j := by
  induction h with
  | refl => exact .refl
  | inward _ hp ih => exact ih.inward (hgrows.around hp)

/-- The scopes around a scope lie one inside the other. -/
lemma Encloses.total {scopes : Array Scope} {i j k : Nat} (hi : Encloses scopes i k)
    (hj : Encloses scopes j k) : Encloses scopes i j ∨ Encloses scopes j i := by
  induction hi with
  | refl => exact .inr hj
  | @inward p k hip hp ih =>
    cases hj with
    | refl => exact .inl (hip.inward hp)
    | @inward q k hjq hq =>
      obtain rfl : p = q := Option.some.inj (hp.symm.trans hq)
      exact ih hjq

/-- A scope lies deeper than the scopes around it. -/
lemma Encloses.depth_le {limit : Nat} {scopes : Array Scope} (hnested : Nested limit scopes)
    {i j : Nat} (h : Encloses scopes i j) {s t : Scope} (hs : scopes[i]? = some s)
    (ht : scopes[j]? = some t) : s.depth ≤ t.depth ∧ (s.depth = t.depth → i = j) := by
  induction h generalizing t with
  | refl =>
    obtain rfl : s = t := Option.some.inj (hs.symm.trans ht)
    exact ⟨Nat.le_refl _, fun _ => rfl⟩
  | @inward p j _ hp ih =>
    obtain ⟨t', ht', hparent⟩ := Option.bind_eq_some_iff.1 hp
    obtain rfl : t = t' := Option.some.inj (ht.symm.trans ht')
    have hinner : j ≠ 0 := by
      rintro rfl
      rw [((hnested.place ht).outermost rfl).2.1] at hparent
      cases hparent
    obtain ⟨-, -, q, around, hq, -, haround, hdepth⟩ := (hnested.place ht).inner hinner
    obtain rfl : p = q := Option.some.inj (hparent.symm.trans hq)
    have hle := (ih haround).1
    omega

lemma span?_eq_of_frames {scopes scopes' : Array Scope}
    (h : scopes'.map Scope.frame = scopes.map Scope.frame) (i : Nat) :
    span? scopes' i = span? scopes i := by
  have hframe {scopes : Array Scope} :
      span? scopes i = (scopes.map Scope.frame)[i]?.map (·.span) := by
    rw [Array.getElem?_map, span?]
    cases scopes[i]? <;> rfl
  rw [hframe, h, ← hframe]

lemma grows_of_frames {scopes scopes' : Array Scope}
    (h : scopes'.map Scope.frame = scopes.map Scope.frame) : Grows scopes scopes' := by
  constructor
  · intro i p hp
    rw [around?_eq_of_frames h, hp]
  · intro i sp hs
    rw [span?_eq_of_frames h, hs]

lemma Model.grows_openScope {m : Model} {parent : Nat} (hparent : parent < m.scopes.size)
    (kind : ScopeKind) (depth : Nat) (span : Span) :
    Grows m.scopes (m.openScope kind parent depth span).scopes := by
  constructor
  · intro i p hp
    obtain ⟨s, hs, -⟩ := Option.bind_eq_some_iff.1 hp
    obtain ⟨hi, -⟩ := Array.getElem?_eq_some_iff.1 hs
    rw [around?_openScope hparent, if_neg (Nat.ne_of_lt hi), hp]
  · intro i sp hsp
    obtain ⟨s, hs, rfl⟩ := Option.map_eq_some_iff.1 hsp
    obtain ⟨hi, -⟩ := Array.getElem?_eq_some_iff.1 hs
    rw [span?, openScope_getElem? hparent, if_neg (Nat.ne_of_lt hi), hs]
    by_cases hp : parent = i <;> simp [hp]

/-! ### Owners -/

namespace Draft

variable {o : Options} {root h owner : Node} {d d' : Draft} {scope around : Nat}
  {exports : Option Nat} {xs : List Outline} {as bs : List Node}

/-- The node has opened the scope. -/
def Owner (d : Draft) (b : Node) (i : Nat) : Prop := (b.number, i) ∈ d.scopeOf

/-- Of the scopes that a node has opened one is the latest. -/
lemma Owner.exists_latest {b : Node} {i : Nat} (h : d.Owner b i) : ∃ k, d.scopeOf? b = some k := by
  cases hk : d.scopeOf? b with
  | some k => exact ⟨k, rfl⟩
  | none => simpa using List.lookup_eq_none_iff.1 hk _ h

/-- The scopes of the draft nest as their owners do. -/
structure Nests (root : Node) (d : Draft) : Prop where
  global : d.Owner root Model.globalScope
  owner : ∀ i < d.model.scopes.size, ∃ b ∈ root.preorder, d.Owner b i
  span : ∀ b ∈ root.preorder, ∀ i, d.Owner b i → span? d.model.scopes i = some b.span
  nested : ∀ a ∈ root.preorder, ∀ b ∈ root.preorder, ∀ i j, d.Owner a i → d.Owner b j →
    a.Inside b → Encloses d.model.scopes j i
  latest : ∀ b ∈ root.preorder, ∀ i j, d.scopeOf? b = some i → d.Owner b j →
    Encloses d.model.scopes j i

/-- Before a run over items at the given places, no scope is opened below them, and the scopes that
are opened at and above them are at or around the scope at hand. -/
structure Ready (root : Node) (scope : Nat) (as : List Node) (d : Draft) : Prop where
  fresh : ∀ a ∈ as, ∀ b ∈ root.preorder, ∀ i, d.Owner b i → ¬ b.Inside a
  around : ∀ a ∈ as, ∀ b ∈ root.preorder, ∀ i, d.Owner b i → a ∈ b.preorder →
    Encloses d.model.scopes i scope

/-- A run over items at the given places opens scopes at and below them only. -/
structure Advances (root : Node) (as : List Node) (d d' : Draft) : Prop where
  nests : d'.Nests root
  grows : Grows d.model.scopes d'.model.scopes
  opened : ∀ b ∈ root.preorder, ∀ i, d'.Owner b i → d.Owner b i ∨ ∃ a ∈ as, b ∈ a.preorder

lemma Nests.advances_refl (hd : d.Nests root) (as : List Node) : Advances root as d d :=
  ⟨hd, .refl _, fun _ _ _ hown => .inl hown⟩

lemma Advances.mono (hstep : Advances root as d d')
    (hbs : ∀ a ∈ as, ∃ b ∈ bs, a ∈ b.preorder) : Advances root bs d d' := by
  refine ⟨hstep.nests, hstep.grows, fun x hx i hown => ?_⟩
  rcases hstep.opened x hx i hown with hown | ⟨a, ha, hxa⟩
  · exact .inl hown
  · obtain ⟨b, hb, hab⟩ := hbs a ha
    exact .inr ⟨b, hb, Node.mem_preorder_trans hxa hab⟩

lemma Advances.trans {d'' : Draft} (hfirst : Advances root as d d')
    (hsecond : Advances root as d' d'') : Advances root as d d'' := by
  refine ⟨hsecond.nests, hfirst.grows.trans hsecond.grows, fun x hx i hown => ?_⟩
  rcases hsecond.opened x hx i hown with hown | hplace
  · exact hfirst.opened x hx i hown
  · exact .inr hplace

/-- Declarations change no scope but for its table. -/
lemma Nests.advances_of_frames (hd : d.Nests root) (hscopeOf : d'.scopeOf = d.scopeOf)
    (hframes : d'.model.scopes.map Scope.frame = d.model.scopes.map Scope.frame) :
    Advances root as d d' := by
  have hgrows := grows_of_frames hframes
  have hsize : d'.model.scopes.size = d.model.scopes.size := by
    simpa using congrArg Array.size hframes
  have howner (b : Node) (i : Nat) : d'.Owner b i ↔ d.Owner b i := by rw [Owner, hscopeOf, Owner]
  have hlatest (b : Node) : d'.scopeOf? b = d.scopeOf? b := by rw [scopeOf?, hscopeOf, scopeOf?]
  refine ⟨?_, hgrows, fun x _ i hown => .inl ((howner x i).1 hown)⟩
  constructor
  case global => exact (howner root _).2 hd.global
  case owner =>
    intro i hi
    obtain ⟨b, hb, hown⟩ := hd.owner i (hsize ▸ hi)
    exact ⟨b, hb, (howner b i).2 hown⟩
  case span =>
    intro b hb i hown
    exact hgrows.span (hd.span b hb i ((howner b i).1 hown))
  case nested =>
    intro a ha b hb i j hi hj hin
    exact (hd.nested a ha b hb i j ((howner a i).1 hi) ((howner b j).1 hj) hin).grow hgrows
  case latest =>
    intro b hb i j hi hj
    exact (hd.latest b hb i j (hlatest b ▸ hi) ((howner b j).1 hj)).grow hgrows

lemma Ready.subset (hready : d.Ready root scope as) (hbs : ∀ b ∈ bs, b ∈ as) :
    d.Ready root scope bs :=
  ⟨fun b hb => hready.fresh b (hbs b hb), fun b hb => hready.around b (hbs b hb)⟩

/-- What is ready for a run is still ready after a run over places that are apart. -/
lemma Ready.after (hready : d.Ready root scope as) (hstep : Advances root bs d d')
    (hapart : ∀ b ∈ bs, ∀ a ∈ as, b.Apart a) : d'.Ready root scope as := by
  constructor
  · intro a ha x hx i hown hin
    rcases hstep.opened x hx i hown with hown | ⟨b, hb, hxb⟩
    · exact hready.fresh a ha x hx i hown hin
    · exact hapart b hb a ha x hxb hin.mem_preorder
  · intro a ha x hx i hown hax
    rcases hstep.opened x hx i hown with hown | ⟨b, hb, hxb⟩
    · exact (hready.around a ha x hx i hown hax).grow hstep.grows
    · exact absurd a.self_mem_preorder (hapart b hb a ha a (Node.mem_preorder_trans hax hxb))

/-- A declaration, in whatever scope, leaves the places ready that are. -/
lemma Nests.declare (hd : d.Nests root) (hready : d.Ready root scope as) (into : Nat)
    (exports : Option Nat) (x : Declaration) :
    Advances root as d (d.declare o into exports x) ∧
      (d.declare o into exports x).Ready root scope as := by
  have hstep {as : List Node} : Advances root as d (d.declare o into exports x) :=
    hd.advances_of_frames rfl (Model.insert_frames ..)
  exact ⟨hstep, hready.after (hstep : Advances root [] d _) (by simp)⟩

lemma Nests.exportNames (hd : d.Nests root) (hready : d.Ready root scope as)
    (names : List String) :
    Advances root as d { d with model := names.foldl (Model.exportName scope) d.model } ∧
      Ready root scope as { d with model := names.foldl (Model.exportName scope) d.model } := by
  have hstep {as : List Node} : Advances root as d
      { d with model := names.foldl (Model.exportName scope) d.model } :=
    hd.advances_of_frames rfl (by rw [foldl_exportName_scopes])
  exact ⟨hstep, hready.after (hstep : Advances root [] d _) (by simp)⟩

/-- What is ready at a node is ready inside it. -/
lemma Ready.inside {n : Node} (hready : d.Ready root scope [n]) (hn : n ∈ root.preorder)
    (hbs : ∀ b ∈ bs, b ∈ n.preorder) : d.Ready root scope bs := by
  have hfresh := hready.fresh n List.mem_cons_self
  constructor
  · intro b hb x hx i hown hin
    exact hfresh x hx i hown (hin.up (hbs b hb))
  · intro b hb x hx i hown hbx
    rcases Node.place_cases hx hn with rfl | hin | hin | hapart
    · exact hready.around x List.mem_cons_self x hx i hown x.self_mem_preorder
    · exact absurd hin (hfresh x hx i hown)
    · exact hready.around n List.mem_cons_self x hx i hown hin.mem_preorder
    · exact absurd (hbs b hb) (hapart b hbx)

/-! ### Opening a scope -/

/-- The draft with one more scope, which a node opens. -/
def withScope (d : Draft) (kind : ScopeKind) (parent depth : Nat) (owner : Node) : Draft :=
  { d with
    model := d.model.openScope kind parent depth owner.span
    scopeOf := (owner.number, d.model.scopes.size) :: d.scopeOf }

@[simp]
lemma withScope_model (d : Draft) (kind : ScopeKind) (parent depth : Nat) (owner : Node) :
    (d.withScope kind parent depth owner).model
      = d.model.openScope kind parent depth owner.span := rfl

lemma scopeOf?_withScope (d : Draft) (kind : ScopeKind) (parent depth : Nat) (owner b : Node) :
    (d.withScope kind parent depth owner).scopeOf? b
      = if b.number = owner.number then some d.model.scopes.size else d.scopeOf? b := by
  rw [scopeOf?, withScope, List.lookup_cons]
  by_cases hsame : b.number = owner.number
  · simp [hsame]
  · rw [beq_eq_false_iff_ne.2 hsame, if_neg hsame, scopeOf?]

/-- What opening a scope does to the draft. -/
lemma openScope_cases (o : Options) (kind : ScopeKind) (parent : Nat) (owner : Node) (d : Draft) :
    ((d.openScope o kind parent owner).1 = none ∧
      (d.openScope o kind parent owner).2.scopeOf = d.scopeOf ∧
      (d.openScope o kind parent owner).2.model = d.model) ∨
    ∃ depth, parent < d.model.scopes.size ∧ d.openScope o kind parent owner
      = (some d.model.scopes.size, d.withScope kind parent depth owner) := by
  rw [Draft.openScope]
  split
  next => exact .inl ⟨rfl, rfl, rfl⟩
  next s hs =>
    obtain ⟨hparent, -⟩ := Array.getElem?_eq_some_iff.1 hs
    split_ifs
    · exact .inl ⟨rfl, rfl, rfl⟩
    · exact .inr ⟨_, hparent, rfl⟩

lemma lt_withScope {kind : ScopeKind} {depth i : Nat} (hi : i ≤ d.model.scopes.size) :
    i < (d.withScope kind scope depth owner).model.scopes.size := by
  rw [withScope_model, Model.openScope_scopes_size]
  exact Nat.lt_succ_of_le hi

lemma lt_declare {x : Declaration} {i : Nat} (hi : i < d.model.scopes.size) :
    i < (d.declare o scope exports x).model.scopes.size := by
  rwa [declare_scopes_size]

lemma run_scope_of_none {kind : ScopeKind} {inner : List Outline}
    (hnone : (d.openScope o kind scope owner).1 = none) :
    run o scope around exports (.scope kind owner inner) d
      = (d.openScope o kind scope owner).2 := by
  rw [run]
  generalize d.openScope o kind scope owner = opened at hnone
  obtain ⟨id, d'⟩ := opened
  obtain rfl : id = none := hnone
  rfl

lemma run_scope_of_some {kind : ScopeKind} {inner : List Outline} {id : Nat}
    (hopen : d.openScope o kind scope owner = (some id, d')) :
    run o scope around exports (.scope kind owner inner) d
      = runAll o id scope exports inner d' := by
  rw [run, hopen]

/-- A run closes no scope. -/
lemma size_le_runAll (hx : Laid h xs as) :
    d.model.scopes.size ≤ (runAll o scope around exports xs d).model.scopes.size := by
  induction hx generalizing scope around exports d with
  | nil =>
    simp only [runAll]
    exact Nat.le_refl _
  | declare _ _ ih | declareOutside _ _ ih =>
    simp only [runAll, run]
    refine Nat.le_trans ?_ ih
    exact Nat.le_of_eq (declare_scopes_size ..).symm
  | exportNames _ ih =>
    simp only [runAll, run]
    refine Nat.le_trans ?_ ih
    exact Nat.le_of_eq (by rw [foldl_exportName_scopes])
  | exporting _ _ _ ihinner ih | node _ _ _ _ _ ihinner ih =>
    simp only [runAll, run]
    exact Nat.le_trans ihinner ih
  | @scope _ owner kind _ _ _ _ _ _ _ _ _ _ ihinner ih =>
    rw [runAll]
    refine Nat.le_trans ?_ ih
    obtain ⟨hnone, -, hmodel⟩ | ⟨depth, -, hopen⟩ := openScope_cases o kind scope owner d
    · exact Nat.le_of_eq (by rw [run_scope_of_none hnone, hmodel])
    · rw [run_scope_of_some hopen]
      exact Nat.le_trans (Nat.le_of_lt (lt_withScope (Nat.le_refl _))) ihinner

lemma lt_runAll (hx : Laid h xs as) {i : Nat} (hi : i < d.model.scopes.size) :
    i < (runAll o scope around exports xs d).model.scopes.size :=
  Nat.lt_of_lt_of_le hi (size_le_runAll hx)

lemma Nests.withScope (hd : d.Nests root) (howner : owner ∈ root.preorder)
    (hready : d.Ready root scope [owner]) (hparent : scope < d.model.scopes.size)
    (kind : ScopeKind) (depth : Nat) :
    Advances root [owner] d (d.withScope kind scope depth owner) := by
  have hgrows := Model.grows_openScope hparent kind depth owner.span
  have hnew : around? (d.model.openScope kind scope depth owner.span).scopes d.model.scopes.size
      = some scope := by
    rw [Model.around?_openScope hparent, if_pos rfl]
  have hself := owner.self_mem_preorder
  -- an owner of the new draft is the given node, or it owned its scope before
  have hcases {b : Node} {i : Nat} (hb : b ∈ root.preorder)
      (hown : (d.withScope kind scope depth owner).Owner b i) :
      (b = owner ∧ i = d.model.scopes.size) ∨ d.Owner b i := by
    rcases List.mem_cons.1 hown with hsame | hown
    · obtain ⟨hnumber, rfl⟩ := Prod.mk.inj hsame
      exact .inl ⟨Node.eq_of_number_eq hb howner hnumber, rfl⟩
    · exact .inr hown
  have habove {b : Node} {j : Nat} (hb : b ∈ root.preorder) (hown : d.Owner b j)
      (hmem : owner ∈ b.preorder) :
      Encloses (d.model.openScope kind scope depth owner.span).scopes j d.model.scopes.size := by
    have hat := hready.around owner List.mem_cons_self b hb j hown hmem
    exact (hat.grow hgrows).inward hnew
  refine ⟨?_, hgrows, ?_⟩
  · constructor
    case global => exact List.mem_cons_of_mem _ hd.global
    case owner =>
      intro i hi
      rw [withScope_model, Model.openScope_scopes_size] at hi
      rcases Nat.lt_succ_iff_lt_or_eq.1 hi with hi | rfl
      · obtain ⟨b, hb, hown⟩ := hd.owner i hi
        exact ⟨b, hb, List.mem_cons_of_mem _ hown⟩
      · exact ⟨owner, howner, List.mem_cons_self⟩
    case span =>
      intro b hb i hown
      rcases hcases hb hown with ⟨rfl, rfl⟩ | hown
      · rw [span?, withScope_model, Model.openScope_getElem? hparent, if_pos rfl]
        rfl
      · exact hgrows.span (hd.span b hb i hown)
    case nested =>
      intro a ha b hb i j hi hj hin
      rcases hcases ha hi with ⟨rfl, rfl⟩ | hold
      · rcases hcases hb hj with ⟨rfl, rfl⟩ | hj
        · exact .refl
        · exact habove hb hj hin.mem_preorder
      · rcases hcases hb hj with ⟨rfl, rfl⟩ | hj
        · exact absurd hin (hready.fresh b List.mem_cons_self a ha i hold)
        · exact (hd.nested a ha b hb i j hold hj hin).grow hgrows
    case latest =>
      intro b hb i j hi hj
      rw [scopeOf?_withScope] at hi
      split_ifs at hi with hsame
      · obtain rfl := Node.eq_of_number_eq hb howner hsame
        obtain rfl := Option.some.inj hi
        rcases hcases hb hj with ⟨-, rfl⟩ | hj
        · exact .refl
        · exact habove hb hj hself
      · rcases hcases hb hj with ⟨rfl, -⟩ | hj
        · exact absurd rfl hsame
        · exact (hd.latest b hb i j hi hj).grow hgrows
  · intro b hb i hown
    rcases hcases hb hown with ⟨rfl, -⟩ | hown
    · exact .inr ⟨b, List.mem_cons_self, hself⟩
    · exact .inl hown

/-- Inside a scope that has just been opened. -/
lemma Ready.withScope (hready : d.Ready root scope [owner]) (howner : owner ∈ root.preorder)
    (hparent : scope < d.model.scopes.size) (kind : ScopeKind) (depth : Nat)
    (hbs : ∀ b ∈ bs, b ∈ owner.preorder) :
    Ready root d.model.scopes.size bs (d.withScope kind scope depth owner) := by
  have hgrows := Model.grows_openScope hparent kind depth owner.span
  have hold := hready.inside howner hbs
  constructor
  · intro b hb x hx i hown hin
    rcases List.mem_cons.1 hown with hsame | hown
    · obtain rfl := Node.eq_of_number_eq hx howner (Prod.mk.inj hsame).1
      exact hin.not_mem_preorder (hbs b hb)
    · exact hold.fresh b hb x hx i hown hin
  · intro b hb x hx i hown hbx
    rcases List.mem_cons.1 hown with hsame | hown
    · rw [(Prod.mk.inj hsame).2]
      exact .refl
    · refine ((hold.around b hb x hx i hown hbx).grow hgrows).inward ?_
      rw [Model.around?_openScope hparent, if_pos rfl]

/-! ### Whole runs -/

/-- A run over items that are laid out at places which are ready for it. -/
lemma Nests.runAll (hx : Laid h xs as) (hfields : root.FieldsDistinct) (hh : h ∈ root.preorder)
    (hd : d.Nests root) (hready : d.Ready root scope as) :
    Advances root as d (runAll o scope around exports xs d) := by
  induction hx generalizing scope around exports d with
  | nil h =>
    simp only [Draft.runAll]
    exact hd.advances_refl _
  | @declare _ x _ _ _ _ ih =>
    simp only [Draft.runAll, run]
    obtain ⟨hstep, hready⟩ := hd.declare (o := o) hready scope exports x
    exact hstep.trans (ih hh hstep.nests hready)
  | @declareOutside _ x _ _ _ _ ih =>
    simp only [Draft.runAll, run]
    obtain ⟨hstep, hready⟩ := hd.declare (o := o) hready around exports x
    exact hstep.trans (ih hh hstep.nests hready)
  | @exportNames _ names _ _ _ ih =>
    simp only [Draft.runAll, run]
    obtain ⟨hstep, hready⟩ := hd.exportNames hready names
    exact hstep.trans (ih hh hstep.nests hready)
  | @exporting _ inner _ bs as hinner _ hparted ihinner ih =>
    simp only [Draft.runAll, run]
    have hfirst : Advances root bs d (Draft.runAll o scope around (some scope) inner d) :=
      ihinner hh hd (hready.subset fun b hb => List.mem_append_left _ hb)
    have hrest := (hready.subset fun a ha => List.mem_append_right _ ha).after hfirst
      (hparted (hfields.of_mem_preorder hh))
    refine (hfirst.mono ?_).trans ((ih hh hfirst.nests hrest).mono ?_)
    · exact fun b hb => ⟨b, List.mem_append_left _ hb, b.self_mem_preorder⟩
    · exact fun a ha => ⟨a, List.mem_append_right _ ha, a.self_mem_preorder⟩
  | @node _ n inner _ bs as hn hinner hfit _ hparted ihinner ih =>
    simp only [Draft.runAll, run]
    have hnroot : n ∈ root.preorder := Node.mem_preorder_trans hn hh
    have hself : d.Ready root scope [n] := hready.subset (by simp)
    -- All places inside the node count as the node itself, which is apart from those behind it.
    have hfirst : Advances root [n] d (Draft.runAll o scope around exports inner d) := by
      refine (ihinner hnroot hd (hself.inside hnroot hinner.mem_preorder)).mono ?_
      exact fun b hb => ⟨n, List.mem_cons_self, hinner.mem_preorder b hb⟩
    have hrest := (hready.subset fun a ha => List.mem_cons_of_mem n ha).after hfirst
      (hparted (hfields.of_mem_preorder hh))
    refine (hfirst.mono ?_).trans ((ih hh hfirst.nests hrest).mono ?_)
    · exact fun b hb => ⟨b, by simp_all, b.self_mem_preorder⟩
    · exact fun a ha => ⟨a, List.mem_cons_of_mem n ha, a.self_mem_preorder⟩
  | @scope _ owner kind inner _ bs as _ howns hinner hfit _ hparted ihinner ih =>
    rw [Draft.runAll]
    have hroot : owner ∈ root.preorder := (howns.up hh).mem
    have hself : d.Ready root scope [owner] := hready.subset (by simp)
    have hfirst : Advances root [owner] d
        (run o scope around exports (.scope kind owner inner) d) := by
      -- A scope that lies too deep leaves everything as it was.
      obtain ⟨hnone, hscopeOf, hmodel⟩ | ⟨depth, hparent, hopen⟩ :=
        openScope_cases o kind scope owner d
      · rw [run_scope_of_none hnone]
        exact hd.advances_of_frames hscopeOf (by rw [hmodel])
      · rw [run_scope_of_some hopen]
        have hopened := hd.withScope hroot hself hparent kind depth
        refine hopened.trans ((ihinner hroot hopened.nests ?_).mono ?_)
        · exact hself.withScope hroot hparent kind depth hinner.mem_preorder
        · exact fun b hb => ⟨owner, List.mem_cons_self, hinner.mem_preorder b hb⟩
    have hrest := (hready.subset fun a ha => List.mem_cons_of_mem owner ha).after hfirst
      (hparted (hfields.of_mem_preorder hh))
    refine (hfirst.mono ?_).trans ((ih hh hfirst.nests hrest).mono ?_)
    · exact fun b hb => ⟨b, by simp_all, b.self_mem_preorder⟩
    · exact fun a ha => ⟨a, List.mem_cons_of_mem owner ha, a.self_mem_preorder⟩

lemma nests_start (root : Node) : (start root).Nests root := by
  have hone {b : Node} {i : Nat} (hown : (start root).Owner b i) :
      b.number = root.number ∧ i = Model.globalScope := by
    simpa [Owner, start] using hown
  have hroot {b : Node} {i : Nat} (hb : b ∈ root.preorder) (hown : (start root).Owner b i) :
      b = root := Node.eq_of_number_eq hb root.self_mem_preorder (hone hown).1
  constructor
  case global => exact List.mem_cons_self
  case owner =>
    intro i hi
    obtain rfl : i = 0 := Nat.lt_one_iff.1 hi
    exact ⟨root, root.self_mem_preorder, List.mem_cons_self⟩
  case span =>
    intro b hb i hown
    rw [hroot hb hown, (hone hown).2]
    rfl
  case nested =>
    intro a ha b hb i j hi hj hin
    rw [hroot ha hi, hroot hb hj] at hin
    exact absurd root.self_mem_preorder hin.not_mem_preorder
  case latest =>
    intro b hb i j hi hj
    rw [(hone hj).2, (hone (mem_of_scopeOf? hi)).2]
    exact .refl

/-- The scopes of a program nest as their owners do, unless two fields of a node name one child. -/
lemma nests_ofRoot (o : Options) (hfields : root.FieldsDistinct) : (ofRoot o root).Nests root := by
  have hframes : ((start root).declareBuiltins o).model.scopes.map Scope.frame
      = (start root).model.scopes.map Scope.frame := by
    rw [declareBuiltins]
    split_ifs
    · refine List.foldlRecOn o.builtins
        (motive := fun m : Model =>
          m.scopes.map Scope.frame = (start root).model.scopes.map Scope.frame)
        _ rfl fun m hm name _ => ?_
      rw [Model.insert_frames, hm]
    · rfl
  have hscopeOf : ((start root).declareBuiltins o).scopeOf = (start root).scopeOf := by
    rw [declareBuiltins]
    split_ifs <;> rfl
  have hstart : Advances root [] (start root) ((start root).declareBuiltins o) :=
    (nests_start root).advances_of_frames hscopeOf hframes
  refine (hstart.nests.runAll (laid_outline root root.self_mem_preorder) hfields
    root.self_mem_preorder ?_).nests
  have hone {b : Node} {i : Nat} (hown : ((start root).declareBuiltins o).Owner b i) :
      b.number = root.number ∧ i = Model.globalScope := by
    rw [Owner, hscopeOf] at hown
    simpa [start] using hown
  constructor
  · intro a ha b hb i hown hin
    rw [List.mem_singleton.1 ha] at hin
    have hsame := Node.eq_of_number_eq hb root.self_mem_preorder (hone hown).1
    exact hin.not_mem_preorder (hsame ▸ b.self_mem_preorder)
  · intro a _ b _ i hown _
    rw [(hone hown).2]
    exact .refl

/-! ### The scope of a node -/

/-- The scopes of the nodes at and above a node are at or around the scope of the node. -/
lemma Nests.encloses_of_inScope (hd : d.Nests root) {n : Node} {s : Nat}
    (hin : d.InScope root n s) {b : Node} {i : Nat} (hb : b ∈ root.preorder) (hown : d.Owner b i)
    (hn : n ∈ b.preorder) : Encloses d.model.scopes i s := by
  induction hin with
  | root =>
    obtain rfl : b = root := by
      rcases Node.mem_preorder_iff_inside.1 hb with rfl | hin
      · rfl
      · exact absurd hn hin.not_mem_preorder
    obtain ⟨s, hs⟩ := hown.exists_latest
    rw [hs]
    exact hd.latest b hb s i hs hown
  | @child p c s hp hc ih =>
    have hcroot := ((Node.inside_of_mem_children hc).up hp.mem_preorder).mem_preorder
    rcases Node.mem_preorder_iff_inside.1 hn with rfl | hinside
    · obtain ⟨t, ht⟩ := hown.exists_latest
      rw [ht]
      exact hd.latest c hb t i ht hown
    · cases hs : d.scopeOf? c with
      | none => exact ih (hinside.parent_mem_preorder hp.mem_preorder hb hc)
      | some t => exact hd.nested c hcroot b hb t i (mem_of_scopeOf? hs) hown hinside

/-- The scope of a node belongs to a node at or above it. -/
lemma Nests.exists_owner_of_inScope (hd : d.Nests root) {n : Node} {s : Nat}
    (hin : d.InScope root n s) : ∃ b ∈ root.preorder, d.Owner b s ∧ n ∈ b.preorder := by
  induction hin with
  | root =>
    refine ⟨root, root.self_mem_preorder, ?_, root.self_mem_preorder⟩
    cases hs : d.scopeOf? root with
    | none => exact hd.global
    | some s => exact mem_of_scopeOf? hs
  | @child p c s hp hc ih =>
    have hinside := Node.inside_of_mem_children hc
    cases hs : d.scopeOf? c with
    | none =>
      obtain ⟨b, hb, hown, hpb⟩ := ih
      exact ⟨b, hb, hown, (hinside.up hpb).mem_preorder⟩
    | some t =>
      exact ⟨c, (hinside.up hp.mem_preorder).mem_preorder, mem_of_scopeOf? hs, c.self_mem_preorder⟩

end Draft

end Arbor.Symbols
