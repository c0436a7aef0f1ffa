import Arbor.Proofs.Symbols.WellFormed
import Arbor.Proofs.Subtree

/-!
# Where the items of an outline stand

The items of an outline come from places in the tree, and they nest as the places do: the items
inside a node come from places at and below it, and the items inside a scope from places at and
below the node that owns the scope. If no two fields of a node name one child, items side by side
come from places that are apart.
-/

namespace Arbor.Symbols

namespace Outline

/-! ### Layouts -/

/-- Whether a node of the form opens a scope for itself. -/
def Form.opens : Form → Bool
  | .function | .functionExpression | .method | .classDef | .block | .loop | .catchClause => true
  | _ => false

/-- The kinds of nodes that open scopes for parts of them. -/
def partedKinds : List String :=
  ["if_statement", "else_clause", "switch_statement", "enum_declaration"]

/-- A scope may be opened for `b`, which stands at or below `h`. -/
structure Owns (h b : Node) : Prop where
  mem : b ∈ h.preorder
  reason : (Form.of b).opens = true ∨ ∃ p ∈ h.preorder, p.kind ∈ partedKinds ∧ b ∈ p.children

/-- A form tells the kinds of its nodes. -/
lemma Form.exists_kinds {n : Node} (hform : Form.of n ≠ .other) :
    ∃ ks, (Form.of n, ks) ∈ Form.kinds ∧ n.kind ∈ ks := by
  cases hfind : Form.kinds.find? (·.2.contains n.kind) with
  | none => exact absurd (by rw [Form.of, hfind]; rfl) hform
  | some e =>
    obtain ⟨form, ks⟩ := e
    have hof : Form.of n = form ∨ Form.of n = .other := by
      rw [Form.of, hfind]
      cases form <;> grind
    have hkind : n.kind ∈ ks := by simpa using List.find?_some hfind
    rw [hof.resolve_right hform]
    exact ⟨ks, List.mem_of_find?_eq_some hfind, hkind⟩

lemma mem_partedKinds_of_form {n : Node}
    (hform : Form.of n = .enum ∨ Form.of n = .conditional ∨ Form.of n = .switch) :
    n.kind ∈ partedKinds := by
  obtain ⟨ks, hmem, hkind⟩ : ∃ ks, (Form.of n, ks) ∈ Form.kinds ∧ n.kind ∈ ks := by
    apply Form.exists_kinds
    rcases hform with hform | hform | hform <;> simp [hform]
  rcases hform with hform | hform | hform <;> simp_all [Form.kinds, partedKinds]

/-- The declaration is that of a class, which is declared in the scope around the class. -/
structure NamesClass (h : Node) (x : Declaration) : Prop where
  form : Form.of h = .classDef
  kind : h.kind ≠ "class"
  name : ∃ name, h.field? "name" = some name ∧ x = .of .classDef name

lemma NamesClass.mem_preorder {h : Node} {x : Declaration} (hclass : NamesClass h x) :
    ∀ name ∈ x.node, name ∈ h.preorder := by
  obtain ⟨name, hname, rfl⟩ := hclass.name
  intro other hother
  obtain rfl : name = other := Option.some.inj hother
  exact (Node.inside_of_field? hname).mem_preorder

/-- The places are apart, if the tree allows it. -/
def Parted (h : Node) (as bs : List Node) : Prop :=
  h.FieldsDistinct → ∀ a ∈ as, ∀ b ∈ bs, a.Apart b

lemma parted_nil_left (h : Node) (bs : List Node) : Parted h [] bs := by
  intro _ a ha
  cases ha

lemma parted_nil_right (h : Node) (as : List Node) : Parted h as [] := by
  intro _ a _ b hb
  cases hb

lemma parted_append_left {h : Node} {as bs cs : List Node} :
    Parted h (as ++ bs) cs ↔ Parted h as cs ∧ Parted h bs cs := by
  simp only [Parted, List.mem_append, or_imp, forall_and]

lemma parted_append_right {h : Node} {as bs cs : List Node} :
    Parted h as (bs ++ cs) ↔ Parted h as bs ∧ Parted h as cs := by
  simp only [Parted, List.mem_append, or_imp, forall_and]

lemma parted_cons_left {h a : Node} {as bs : List Node} :
    Parted h (a :: as) bs ↔ Parted h [a] bs ∧ Parted h as bs := by
  rw [← parted_append_left, List.singleton_append]

/-- The items inside the node `h` come from places at and below it. The list holds the places of the
nodes among the items and of the owners of scopes among them. -/
inductive Laid : Node → List Outline → List Node → Prop where
  | nil (h : Node) : Laid h [] []
  | declare {h : Node} {x : Declaration} {xs : List Outline} {as : List Node} :
    (∀ name ∈ x.node, name ∈ h.preorder) → Laid h xs as → Laid h (.declare x :: xs) as
  | declareOutside {h : Node} {x : Declaration} {xs : List Outline} {as : List Node} :
    NamesClass h x → Laid h xs as → Laid h (.declareOutside x :: xs) as
  | exportNames {h : Node} {names : List String} {xs : List Outline} {as : List Node} :
    Laid h xs as → Laid h (.exportNames names :: xs) as
  | exporting {h : Node} {inner xs : List Outline} {bs as : List Node} :
    Laid h inner bs → Laid h xs as → Parted h bs as → Laid h (.exporting inner :: xs) (bs ++ as)
  /-- A node that opens a scope for itself holds this scope and no other place. -/
  | node {h n : Node} {inner xs : List Outline} {bs as : List Node} :
    n ∈ h.preorder → Laid n inner bs →
    ((∀ b ∈ bs, b.Inside n) ∨ ((Form.of n).opens = true ∧ bs = [n])) →
    Laid h xs as → Parted h [n] as → Laid h (.node n inner :: xs) (n :: as)
  /-- A scope may hold the owner itself. -/
  | scope {h owner : Node} {kind : ScopeKind} {inner xs : List Outline} {bs as : List Node} :
    kind ≠ .global → Owns h owner → Laid owner inner bs →
    ((∀ b ∈ bs, b.Inside owner) ∨ bs = [owner]) →
    Laid h xs as → Parted h [owner] as → Laid h (.scope kind owner inner :: xs) (owner :: as)

lemma Laid.mem_preorder {h : Node} {xs : List Outline} {as : List Node} (hx : Laid h xs as) :
    ∀ a ∈ as, a ∈ h.preorder := by
  induction hx with
  | nil h => simp
  | declare _ _ ih | declareOutside _ _ ih | exportNames _ ih => exact ih
  | exporting _ _ _ ihinner ih =>
    intro a ha
    rcases List.mem_append.1 ha with ha | ha
    · exact ihinner a ha
    · exact ih a ha
  | node hn _ _ _ _ _ ih => exact List.forall_mem_cons.2 ⟨hn, ih⟩
  | scope _ howns _ _ _ _ _ ih => exact List.forall_mem_cons.2 ⟨howns.mem, ih⟩

/-- If the tree allows it, the places of a layout are apart. -/
lemma Laid.pairwise_apart {h : Node} {xs : List Outline} {as : List Node} (hx : Laid h xs as)
    (hfields : h.FieldsDistinct) : as.Pairwise Node.Apart := by
  induction hx with
  | nil h => exact .nil
  | declare _ _ ih | declareOutside _ _ ih | exportNames _ ih => exact ih hfields
  | exporting _ _ hparted ihinner ih =>
    exact List.pairwise_append.2 ⟨ihinner hfields, ih hfields, hparted hfields⟩
  | @node h n _ _ _ _ _ _ _ _ hparted _ ih =>
    exact List.pairwise_cons.2 ⟨hparted hfields n List.mem_cons_self, ih hfields⟩
  | @scope h owner _ _ _ _ _ _ _ _ _ _ hparted _ ih =>
    exact List.pairwise_cons.2 ⟨hparted hfields owner List.mem_cons_self, ih hfields⟩

lemma Laid.append {h : Node} {xs ys : List Outline} {as bs : List Node} (hx : Laid h xs as)
    (hy : Laid h ys bs) (hparted : Parted h as bs) : Laid h (xs ++ ys) (as ++ bs) := by
  induction hx with
  | nil h => exact hy
  | declare hname _ ih => exact .declare hname (ih hy hparted)
  | declareOutside hclass _ ih => exact .declareOutside hclass (ih hy hparted)
  | exportNames _ ih => exact .exportNames (ih hy hparted)
  | exporting hinner _ hown _ ih =>
    obtain ⟨hpart, hrest⟩ := parted_append_left.1 hparted
    rw [List.append_assoc]
    exact .exporting hinner (ih hy hrest) (parted_append_right.2 ⟨hown, hpart⟩)
  | node hn hinner hfit _ hown _ ih =>
    obtain ⟨hpart, hrest⟩ := parted_cons_left.1 hparted
    exact .node hn hinner hfit (ih hy hrest) (parted_append_right.2 ⟨hown, hpart⟩)
  | scope hkind howns hinner hfit _ hown _ ih =>
    obtain ⟨hpart, hrest⟩ := parted_cons_left.1 hparted
    exact .scope hkind howns hinner hfit (ih hy hrest) (parted_append_right.2 ⟨hown, hpart⟩)

/-! ### Regions -/

/-- The items inside `h` come from places at and below the given ones. -/
def Within (h : Node) (regions : List Node) (xs : List Outline) : Prop :=
  ∃ as, Laid h xs as ∧ ∀ a ∈ as, ∃ r ∈ regions, a ∈ r.preorder

variable {h : Node} {rs : List Node} {xs : List Outline}

lemma Laid.within {as : List Node} (hx : Laid h xs as) : Within h as xs :=
  ⟨as, hx, fun a ha => ⟨a, ha, a.self_mem_preorder⟩⟩

lemma within_nil (h : Node) : Within h [] [] := (Laid.nil h).within

lemma Within.mono {rs' : List Node} (hx : Within h rs xs)
    (hrs : ∀ r ∈ rs, ∃ r' ∈ rs', r ∈ r'.preorder) : Within h rs' xs := by
  obtain ⟨as, hlaid, has⟩ := hx
  refine ⟨as, hlaid, fun a ha => ?_⟩
  obtain ⟨r, hr, har⟩ := has a ha
  obtain ⟨r', hr', hrr'⟩ := hrs r hr
  exact ⟨r', hr', Node.mem_preorder_trans har hrr'⟩

lemma Within.append {rs' : List Node} {ys : List Outline} (hx : Within h rs xs)
    (hy : Within h rs' ys) (hparted : Parted h rs rs') : Within h (rs ++ rs') (xs ++ ys) := by
  obtain ⟨as, hlaid, has⟩ := hx
  obtain ⟨bs, hlaid', hbs⟩ := hy
  refine ⟨as ++ bs, hlaid.append hlaid' ?_, ?_⟩
  · intro hfields a ha b hb
    obtain ⟨r, hr, har⟩ := has a ha
    obtain ⟨r', hr', hbr⟩ := hbs b hb
    exact (hparted hfields r hr r' hr').mono har hbr
  · intro a ha
    rcases List.mem_append.1 ha with ha | ha
    · obtain ⟨r, hr, har⟩ := has a ha
      exact ⟨r, List.mem_append_left _ hr, har⟩
    · obtain ⟨r, hr, har⟩ := hbs a ha
      exact ⟨r, List.mem_append_right _ hr, har⟩

lemma within_flatMap {α : Type} {cs : List α} {f : α → List Outline} {g : α → Node}
    (hf : ∀ c ∈ cs, Within h [g c] (f c))
    (hparted : h.FieldsDistinct → (cs.map g).Pairwise Node.Apart) :
    Within h (cs.map g) (cs.flatMap f) := by
  induction cs with
  | nil => exact within_nil h
  | cons c cs ih =>
    have hrest := ih (fun d hd => hf d (List.mem_cons_of_mem c hd))
      fun hfields => (List.pairwise_cons.1 (hparted hfields)).2
    refine (hf c List.mem_cons_self).append hrest ?_
    intro hfields a ha
    rw [List.mem_singleton.1 ha]
    exact (List.pairwise_cons.1 (hparted hfields)).1

lemma within_declares {α : Type} {cs : List α} {f : α → Declaration}
    (hf : ∀ c ∈ cs, ∀ name ∈ (f c).node, name ∈ h.preorder) :
    Within h [] (cs.map fun c => declare (f c)) := by
  induction cs with
  | nil => exact within_nil h
  | cons c cs ih =>
    obtain ⟨as, hlaid, has⟩ := ih fun d hd => hf d (List.mem_cons_of_mem c hd)
    exact ⟨as, .declare (hf c List.mem_cons_self) hlaid, has⟩

lemma within_declareAll {kind : SymbolKind} {names : List Node}
    (hnames : ∀ name ∈ names, name ∈ h.preorder) : Within h [] (declareAll kind names) := by
  apply within_declares
  intro c hc name hname
  obtain rfl : c = name := Option.some.inj hname
  exact hnames c hc

lemma Within.cons_declares {ys : List Outline} (hx : Within h [] xs) (hy : Within h rs ys) :
    Within h rs (xs ++ ys) :=
  hx.append hy (parted_nil_left h rs)

lemma Within.laid_nil (hx : Within h [] xs) : Laid h xs [] := by
  obtain ⟨as, hlaid, has⟩ := hx
  cases as with
  | nil => exact hlaid
  | cons a as =>
    obtain ⟨r, hr, -⟩ := has a List.mem_cons_self
    cases hr

lemma Within.inside {b : Node} (hx : Within h rs xs) (hrs : ∀ r ∈ rs, r.Inside b) :
    ∃ as, Laid h xs as ∧ ∀ a ∈ as, a.Inside b := by
  obtain ⟨as, hlaid, has⟩ := hx
  refine ⟨as, hlaid, fun a ha => ?_⟩
  obtain ⟨r, hr, har⟩ := has a ha
  exact (hrs r hr).of_mem_preorder har

/-- A node that opens a scope for itself. -/
lemma Within.scope {kind : ScopeKind} (hx : Within h rs xs) (hrs : ∀ r ∈ rs, r.Inside h)
    (hform : (Form.of h).opens = true) (hkind : kind ≠ .global) :
    Laid h [.scope kind h xs] [h] := by
  obtain ⟨as, hlaid, has⟩ := hx.inside hrs
  exact .scope hkind ⟨h.self_mem_preorder, .inl hform⟩ hlaid (.inl has) (.nil h)
    (parted_nil_right h _)

/-! ### The forms of declarations -/

section

variable {n : Node} {visit : Below n → List Outline}
  (hvisit : ∀ (c : Below n) {h : Node}, c.1 ∈ h.preorder → Laid h (visit c) [c.1])

include hvisit

lemma within_visits {cs : List (Below n)} (hcs : cs.map (·.1) = rs)
    (hmem : ∀ r ∈ rs, r ∈ h.preorder)
    (hapart : h.FieldsDistinct → rs.Pairwise Node.Apart) : Within h rs (cs.flatMap visit) := by
  subst hcs
  refine within_flatMap (fun c hc => ?_) hapart
  exact (hvisit c (hmem c.1 (List.mem_map_of_mem hc))).within

lemma within_children (c : Below n) (hc : c.1 ∈ h.preorder) :
    Within h c.1.children (c.children.flatMap visit) := by
  refine within_visits hvisit c.map_val_children ?_ fun _ => c.1.pairwise_apart_children
  intro r hr
  exact ((Node.inside_of_mem_children hr).up hc).mem_preorder

/-- The items of a node, or of its children if its own braces open no scope. -/
lemma laid_unbraced (b : Bool) (c : Below n) (hc : c.1 ∈ h.preorder) :
    ∃ as, Laid h (if b then c.children.flatMap visit else visit c) as ∧
      ((∀ a ∈ as, a.Inside c.1) ∨ as = [c.1]) := by
  cases b with
  | false => exact ⟨[c.1], hvisit c hc, .inr rfl⟩
  | true =>
    obtain ⟨as, hlaid, has⟩ := (within_children hvisit c hc).inside fun r hr =>
      Node.inside_of_mem_children hr
    exact ⟨as, hlaid, .inl has⟩

lemma within_unbraced (b : Bool) (c : Below n) (hc : c.1 ∈ h.preorder) :
    Within h [c.1] (if b then c.children.flatMap visit else visit c) := by
  obtain ⟨as, hlaid, has⟩ := laid_unbraced hvisit b c hc
  refine ⟨as, hlaid, fun a ha => ⟨c.1, List.mem_cons_self, ?_⟩⟩
  rcases has with has | rfl
  · exact (has a ha).mem_preorder
  · rw [List.mem_singleton.1 ha]
    exact c.1.self_mem_preorder

/-- A target, with the names that it binds and its defaults. -/
lemma within_target {kind : SymbolKind} (p : Below n) (hp : p.1 ∈ h.preorder) :
    Within h [p.1] (declareAll kind p.1.boundNames ++ p.bindingDefaults.flatMap visit) := by
  have hnames : ∀ name ∈ p.1.boundNames, name ∈ h.preorder := by
    intro name hname
    exact Node.mem_preorder_trans (Node.mem_preorder_of_mem_boundNames hname) hp
  have hinside : ∀ d ∈ p.1.bindingDefaults, d.Inside p.1 := by
    intro d hd
    exact Node.inside_of_mem_bindingDefaults hd
  have hdefaults : Within h p.1.bindingDefaults (p.bindingDefaults.flatMap visit) := by
    apply within_visits hvisit p.map_val_bindingDefaults
    · intro d hd
      exact ((hinside d hd).up hp).mem_preorder
    · intro hfields
      exact (hfields.of_mem_preorder hp).pairwise_apart_bindingDefaults
  refine ((within_declareAll hnames).cons_declares hdefaults).mono fun d hd => ?_
  exact ⟨p.1, List.mem_cons_self, (hinside d hd).mem_preorder⟩

omit hvisit

/-- What stands under a field of the node. -/
lemma within_field {f : Below n → List Outline} {name : String}
    (hf : ∀ c : Below n, n.field? name = some c.1 → Within h [c.1] (f c)) :
    Within h (n.field? name).toList ((n.belowField? name).toList.flatMap f) := by
  rw [← n.map_val_belowField?]
  cases hc : n.belowField? name with
  | none => exact within_nil h
  | some c =>
    rw [Option.toList_some, List.flatMap_singleton]
    exact hf c (Node.field?_of_mem_belowField? hc)

/-- Some of the children of the node, each with items of its own. -/
lemma within_below {cs : List (Below n)} (hcs : cs.Sublist n.below) {f : Below n → List Outline}
    (hf : ∀ c : Below n, c.1 ∈ n.children → Within n [c.1] (f c)) :
    Within n n.children (cs.flatMap f) := by
  have hsub : (cs.map (·.1)).Sublist n.children := n.map_val_below ▸ hcs.map _
  have hwithin : Within n (cs.map (·.1)) (cs.flatMap f) := by
    refine within_flatMap (fun c hc => hf c (hsub.mem (List.mem_map_of_mem hc))) fun _ => ?_
    exact n.pairwise_apart_children.sublist hsub
  exact hwithin.mono fun r hr => ⟨r, hsub.mem hr, r.self_mem_preorder⟩

lemma parted_fields (n : Node) {a b : String} (hne : a ≠ b) :
    Parted n (n.field? a).toList (n.field? b).toList := by
  intro hfields c hc d hd
  exact hfields.apart hne (Option.mem_toList.1 hc) (Option.mem_toList.1 hd)

lemma parted_parameters (n : Node) : Parted n n.parameters (n.field? "body").toList := by
  intro hfields p hp d hd
  rw [Node.parameters] at hp
  -- without brackets around it, the only parameter has a field of its own
  cases hlist : n.field? "parameters" with
  | none =>
    rw [hlist] at hp
    exact hfields.apart (by decide) (Option.mem_toList.1 hp) (Option.mem_toList.1 hd)
  | some list =>
    rw [hlist] at hp
    have happart : list.Apart d := hfields.apart (by decide) hlist (Option.mem_toList.1 hd)
    exact happart.mono (Node.inside_of_mem_children hp).mem_preorder d.self_mem_preorder

lemma inside_of_mem_field? {r : Node} {name : String} (hr : r ∈ (n.field? name).toList) :
    r.Inside n :=
  Node.inside_of_field? (Option.mem_toList.1 hr)

/-- The names that stand under a field of the node. -/
lemma within_boundNames (kind : SymbolKind) (field : String) :
    Within n [] (declareAll kind ((n.field? field).toList.flatMap Node.boundNames)) := by
  apply within_declareAll
  intro name hname
  obtain ⟨target, htarget, hname⟩ := List.mem_flatMap.1 hname
  exact ((inside_of_mem_field? htarget).of_mem_preorder
    (Node.mem_preorder_of_mem_boundNames hname)).mem_preorder

include hvisit

lemma within_part (name : String) : Within n (n.field? name).toList (part visit name) :=
  within_field fun c hc => (hvisit c (Node.inside_of_field? hc).mem_preorder).within

lemma within_bodyField : Within n (n.field? "body").toList
    ((n.belowField? "body").toList.flatMap (body visit)) :=
  within_field fun c hc => within_unbraced hvisit _ c (Node.inside_of_field? hc).mem_preorder

lemma laid_functionScope (hform : (Form.of n).opens = true) (isMethod : Bool) :
    Laid n [functionScope n visit isMethod] [n] := by
  have hthis : Within n [] (if isMethod then
      [declare { name := "this", kind := .parameter, span := n.span, node := none }] else []) := by
    cases isMethod with
    | false => exact within_nil n
    | true => exact (Laid.declare (by simp) (.nil n)).within
  have hname : Within n [] (if Form.of n = .function then []
      else declareAll .function ((n.field? "name").filter (·.kind == "identifier")).toList) := by
    split_ifs
    · exact within_nil n
    · apply within_declareAll
      intro name hname
      have hfield := Option.filter_eq_some_iff.1 (Option.mem_toList.1 hname)
      exact (Node.inside_of_field? hfield.1).mem_preorder
  have hparameters : Within n n.parameters (n.belowParameters.flatMap fun p =>
      declareAll .parameter p.1.boundNames ++ p.bindingDefaults.flatMap visit) := by
    rw [← n.map_val_belowParameters]
    refine within_flatMap (fun p hp => within_target hvisit p ?_) fun _ => ?_
    · have hp' : p.1 ∈ n.parameters := n.map_val_belowParameters ▸ List.mem_map_of_mem hp
      exact (Node.inside_of_mem_parameters hp').mem_preorder
    · rw [n.map_val_belowParameters]
      exact n.pairwise_apart_parameters
  have hinner := ((hthis.cons_declares hname).cons_declares hparameters).append
    (within_bodyField hvisit) (parted_parameters n)
  refine hinner.scope (fun r hr => ?_) hform (by decide)
  rcases List.mem_append.1 hr with hr | hr
  · exact Node.inside_of_mem_parameters hr
  · exact inside_of_mem_field? hr

omit hvisit in
lemma within_named (kind : SymbolKind) : Within n [] (named n kind) := by
  apply within_declareAll
  intro name hname
  exact (inside_of_mem_field? hname).mem_preorder

lemma laid_namedFunction (hform : (Form.of n).opens = true) (kind : SymbolKind) :
    Laid n (namedFunction n visit kind) [n] := by
  have hown : Within n [] ((n.field? "name").toList.map fun name =>
      declare { Declaration.of kind name with
        parameters := some (parameterNames n)
        visibility := if kind = .method then memberVisibility n name else .unmarked }) := by
    apply within_declares
    intro c hc name hname
    obtain rfl : c = name := Option.some.inj hname
    exact (inside_of_mem_field? hc).mem_preorder
  exact hown.laid_nil.append (laid_functionScope hvisit hform _) (parted_nil_left n _)

lemma laid_classScope (hform : Form.of n = .classDef) : Laid n [classScope n visit] [n] := by
  have hown : Within n [] ((n.field? "name").toList.map fun name =>
      if n.kind == "class" then declare (.of .classDef name)
      else declareOutside (.of .classDef name)) := by
    cases hname : n.field? "name" with
    | none => exact within_nil n
    | some name =>
      rw [Option.toList_some, List.map_singleton]
      -- an expression keeps its name inside
      split_ifs with hkind
      · refine (Laid.declare ?_ (.nil n)).within
        intro c hc
        obtain rfl : name = c := Option.some.inj hc
        exact (Node.inside_of_field? hname).mem_preorder
      · exact (Laid.declareOutside ⟨hform, by simpa using hkind, name, hname, rfl⟩ (.nil n)).within
  have hmembers : Within n n.children
      ((n.below.filter fun c => !(n.field? "name").any c.1.same).flatMap fun c =>
        if c.1.kind == "class_body" then c.children.flatMap visit else visit c) :=
    within_below List.filter_sublist fun c hc =>
      within_unbraced hvisit _ c (Node.inside_of_mem_children hc).mem_preorder
  exact (hown.cons_declares hmembers).scope (fun r hr => Node.inside_of_mem_children hr)
    (by rw [hform]; rfl) (by decide)

lemma within_property : Within n (n.field? "value").toList (property n visit) := by
  refine Within.cons_declares (within_declares ?_) (within_part hvisit "value")
  intro c hc name hname
  obtain rfl : c = name := Option.some.inj hname
  have hchild := Node.mem_children_of_fieldOr? (Option.mem_toList.1 hc)
  exact (Node.inside_of_mem_children hchild).mem_preorder

lemma within_declarator : Within n ((n.field? "value").toList ++ (n.field? "name").toList)
    (declarator n visit) := by
  refine (within_part hvisit "value").append ?_ (parted_fields n (by decide))
  exact within_field fun c hc => within_target hvisit c (Node.inside_of_field? hc).mem_preorder

omit hvisit in
lemma mem_preorder_of_mem_importedNames {m : Node} {e : SymbolKind × Node}
    (he : e ∈ importedNames m) : e.2 ∈ m.preorder := by
  rw [importedNames] at he
  split at he
  · obtain rfl := List.mem_singleton.1 he
    exact m.self_mem_preorder
  · obtain ⟨c, hc, rfl⟩ := List.mem_map.1 he
    have hchild := List.mem_of_find?_eq_some (Option.mem_toList.1 hc)
    exact (Node.inside_of_mem_children hchild).mem_preorder
  · obtain ⟨specifier, hspecifier, he⟩ := List.mem_flatMap.1 he
    obtain ⟨c, hc, rfl⟩ := List.mem_map.1 he
    have hchild := Node.mem_children_of_fieldOr? (Option.mem_toList.1 hc)
    exact ((Node.inside_of_mem_children hchild).trans
      (Node.inside_of_mem_children hspecifier)).mem_preorder
  · cases he

omit hvisit in
lemma within_importing : Within n [] (importing n) := by
  rw [importing]
  cases hclause : n.children.find? (·.kind == "import_clause") with
  | none => exact within_nil n
  | some clause =>
    have hchild := Node.inside_of_mem_children (List.mem_of_find?_eq_some hclause)
    rw [Option.toList_some, List.flatMap_singleton]
    apply within_declares
    intro e he name hname
    obtain rfl : e.2 = name := Option.some.inj hname
    obtain ⟨m, hm, he⟩ := List.mem_flatMap.1 he
    have hinside : e.2.Inside clause :=
      (Node.inside_of_mem_children hm).of_mem_preorder (mem_preorder_of_mem_importedNames he)
    exact (hinside.trans hchild).mem_preorder

lemma within_exportItems : Within n n.children [exportItems n visit] := by
  have hinner : Within n n.children (n.below.flatMap fun c =>
      if c.1.kind == "export_clause" then
        [exportNames (c.1.children.flatMap fun s => (s.field? "name").toList.map (·.text))]
      else visit c) := by
    refine within_below (List.Sublist.refl _) fun c hc => ?_
    split_ifs
    · exact (Laid.exportNames (.nil n)).within.mono fun r hr => by cases hr
    · exact (hvisit c (Node.inside_of_mem_children hc).mem_preorder).within
  obtain ⟨as, hlaid, has⟩ := hinner
  refine ⟨as ++ [], .exporting hlaid (.nil n) (parted_nil_right n as), ?_⟩
  rw [List.append_nil]
  exact has

/-! ### Scopes for parts of a node -/

omit hvisit in
/-- A scope for a part of the node. -/
lemma within_partScope {kind : ScopeKind} {p b : Node} {as : List Node} (hkind : kind ≠ .global)
    (hp : p ∈ n.preorder) (hparted : p.kind ∈ partedKinds) (hb : b ∈ p.children)
    (hlaid : Laid b xs as) (has : (∀ a ∈ as, a.Inside b) ∨ as = [b]) :
    Within n [b] [.scope kind b xs] := by
  have hmem : b ∈ n.preorder := ((Node.inside_of_mem_children hb).up hp).mem_preorder
  exact (Laid.scope hkind ⟨hmem, .inr ⟨p, hp, hparted, hb⟩⟩ hlaid has (.nil n)
    (parted_nil_right n _)).within

omit hvisit in
lemma mem_preorder_of_memberName? {m name : Node} (hname : memberName? m = some name) :
    name ∈ m.preorder := by
  rw [memberName?] at hname
  split at hname
  · exact (Node.inside_of_field? hname).mem_preorder
  · cases hname
    exact m.self_mem_preorder
  · cases hname
    exact m.self_mem_preorder
  · cases hname

lemma within_enumeration (hform : Form.of n = .enum) :
    Within n (n.field? "body").toList (enumeration n visit) := by
  refine (within_named _).cons_declares ?_
  rw [List.map_eq_flatMap]
  refine within_field fun members hmembers => ?_
  have hmember (m : Below n) (hm : m.1 ∈ members.1.children) : Within members.1 [m.1]
      (declareAll .enumMember (memberName? m.1).toList
        ++ (m.field? "value").toList.flatMap visit) := by
    have hmem : m.1 ∈ members.1.preorder := (Node.inside_of_mem_children hm).mem_preorder
    have hname : Within members.1 [] (declareAll .enumMember (memberName? m.1).toList) := by
      apply within_declareAll
      intro name hname
      exact Node.mem_preorder_trans (mem_preorder_of_memberName? (Option.mem_toList.1 hname)) hmem
    have hvalue : Within members.1 (m.1.field? "value").toList
        ((m.field? "value").toList.flatMap visit) := by
      refine within_visits hvisit (by rw [← m.map_val_field?, Option.toList_map]) ?_
        fun _ => Node.pairwise_apart_toList _
      intro r hr
      exact ((inside_of_mem_field? hr).up hmem).mem_preorder
    refine (hname.cons_declares hvalue).mono fun r hr => ?_
    exact ⟨m.1, List.mem_cons_self, (inside_of_mem_field? hr).mem_preorder⟩
  have hinner : Within members.1 members.1.children (members.children.flatMap fun m =>
      declareAll .enumMember (memberName? m.1).toList
        ++ (m.field? "value").toList.flatMap visit) := by
    rw [← members.map_val_children]
    refine within_flatMap (fun m hm => hmember m ?_) fun _ => ?_
    · exact members.map_val_children ▸ List.mem_map_of_mem hm
    · exact members.map_val_children ▸ members.1.pairwise_apart_children
  obtain ⟨as, hlaid, has⟩ := hinner.inside fun r hr => Node.inside_of_mem_children hr
  exact within_partScope (by decide) n.self_mem_preorder (mem_partedKinds_of_form (.inl hform))
    (Node.mem_children_of_field? hmembers) hlaid (.inl has)

lemma laid_loopScope (hform : (Form.of n).opens = true) : Laid n [loopScope n visit] [n] := by
  have hnames : Within n [] (declareAll .var (if (n.field? "kind").isSome then
      (if n.kind == "for_in_statement" then n.field? "left" else none).toList.flatMap
        Node.boundNames
      else [])) := by
    split_ifs
    · exact within_boundNames .var "left"
    · exact within_nil n
    · exact within_nil n
  have hrest (p : Below n → Bool) : Within n n.children ((n.below.filter p).flatMap visit) :=
    within_below List.filter_sublist fun c hc =>
      (hvisit c (Node.inside_of_mem_children hc).mem_preorder).within
  exact (hnames.cons_declares (hrest _)).scope (fun r hr => Node.inside_of_mem_children hr) hform
    (by decide)

lemma within_side (branch : Below n) (hbranch : branch.1 ∈ n.children) (hn : n.kind ∈ partedKinds) :
    Within n [branch.1] (side n visit branch) := by
  rw [side]
  -- the scope of an `else` is opened for what stands behind it
  split_ifs with hkind
  · cases hb : branch.children.head? with
    | none => exact (within_nil n).mono fun r hr => by cases hr
    | some b =>
      have hchild : b.1 ∈ branch.1.children :=
        branch.map_val_children ▸ List.mem_map_of_mem (List.mem_of_head? hb)
      obtain ⟨as, hlaid, has⟩ := laid_unbraced hvisit (b.1.kind == "statement_block") b
        b.1.self_mem_preorder
      have hscope : Within n [b.1] [scope .conditional b.1 (body visit b)] :=
        within_partScope (by decide) (Node.inside_of_mem_children hbranch).mem_preorder
          (by simp [beq_iff_eq.1 hkind, partedKinds]) hchild hlaid has
      refine hscope.mono fun r hr => ⟨branch.1, List.mem_cons_self, ?_⟩
      rw [List.mem_singleton.1 hr]
      exact (Node.inside_of_mem_children hchild).mem_preorder
  · obtain ⟨as, hlaid, has⟩ := laid_unbraced hvisit (branch.1.kind == "statement_block") branch
      branch.1.self_mem_preorder
    exact within_partScope (by decide) n.self_mem_preorder hn hbranch hlaid has

lemma within_conditional (hform : Form.of n = .conditional) :
    Within n ((n.field? "condition").toList ++ (n.field? "consequence").toList
      ++ (n.field? "alternative").toList) (conditional n visit) := by
  have hkind : n.kind ∈ partedKinds := mem_partedKinds_of_form (.inr (.inl hform))
  have hside (name : String) : Within n (n.field? name).toList
      ((n.belowField? name).toList.flatMap (side n visit)) :=
    within_field fun c hc => within_side hvisit c (Node.mem_children_of_field? hc) hkind
  refine ((within_part hvisit _).append (hside _) (parted_fields n (by decide))).append (hside _) ?_
  exact parted_append_left.2 ⟨parted_fields n (by decide), parted_fields n (by decide)⟩

lemma within_switch (hform : Form.of n = .switch) :
    Within n ((n.field? "value").toList ++ (n.field? "body").toList) (switch n visit) := by
  refine (within_part hvisit _).append ?_ (parted_fields n (by decide))
  rw [List.map_eq_flatMap]
  refine within_field fun cases hcases => ?_
  obtain ⟨as, hlaid, has⟩ := (within_children hvisit cases cases.1.self_mem_preorder).inside
    fun r hr => Node.inside_of_mem_children hr
  have hkind := mem_partedKinds_of_form (.inr (.inr hform))
  exact within_partScope (by decide) n.self_mem_preorder hkind
    (Node.mem_children_of_field? hcases) hlaid (.inl has)

lemma laid_handler (hform : (Form.of n).opens = true) : Laid n [handler n visit] [n] := by
  have hnames := within_boundNames (n := n) .parameter "parameter"
  exact (hnames.cons_declares (within_bodyField hvisit)).scope
    (fun r hr => inside_of_mem_field? hr) hform (by decide)

/-- The items of a node come from places below it, or it opens a scope for itself. -/
lemma exists_laid_step : ∃ as, Laid n (step n visit) as ∧
    ((∀ a ∈ as, a.Inside n) ∨ ((Form.of n).opens = true ∧ as = [n])) := by
  have hinside {rs : List Node} {xs : List Outline} {P : List Node → Prop} (hx : Within n rs xs)
      (hrs : ∀ r ∈ rs, r.Inside n) : ∃ as, Laid n xs as ∧ ((∀ a ∈ as, a.Inside n) ∨ P as) := by
    obtain ⟨as, hlaid, has⟩ := hx.inside hrs
    exact ⟨as, hlaid, .inl has⟩
  have hfield {name : String} : ∀ r ∈ (n.field? name).toList, r.Inside n :=
    fun r hr => inside_of_mem_field? hr
  have hchildren : ∀ r ∈ n.children, r.Inside n := fun r hr => Node.inside_of_mem_children hr
  have hnone : ∀ r ∈ ([] : List Node), r.Inside n := fun r hr => by cases hr
  have hbelow : Within n n.children (n.below.flatMap visit) :=
    within_below (List.Sublist.refl _) fun c hc =>
      (hvisit c (Node.inside_of_mem_children hc).mem_preorder).within
  rw [step]
  cases hform : Form.of n with
  | function | method =>
    exact ⟨[n], laid_namedFunction hvisit (by rw [hform]; rfl) _, .inr ⟨rfl, rfl⟩⟩
  | functionExpression =>
    exact ⟨[n], laid_functionScope hvisit (by rw [hform]; rfl) _, .inr ⟨rfl, rfl⟩⟩
  | classDef => exact ⟨[n], laid_classScope hvisit hform, .inr ⟨rfl, rfl⟩⟩
  | block => exact ⟨[n], hbelow.scope hchildren (by rw [hform]; rfl) (by decide), .inr ⟨rfl, rfl⟩⟩
  | loop => exact ⟨[n], laid_loopScope hvisit (by rw [hform]; rfl), .inr ⟨rfl, rfl⟩⟩
  | catchClause => exact ⟨[n], laid_handler hvisit (by rw [hform]; rfl), .inr ⟨rfl, rfl⟩⟩
  | property => exact hinside (within_property hvisit) hfield
  | declarator =>
    exact hinside (within_declarator hvisit) (List.forall_mem_append.2 ⟨hfield, hfield⟩)
  | importing => exact hinside within_importing hnone
  | exporting => exact hinside (within_exportItems hvisit) hchildren
  | interface | typeAlias => exact hinside (within_named _) hnone
  | enum => exact hinside (within_enumeration hvisit hform) hfield
  | module =>
    exact hinside ((within_named _).cons_declares (within_part hvisit _)) hfield
  | conditional =>
    exact hinside (within_conditional hvisit hform) (List.forall_mem_append.2
      ⟨List.forall_mem_append.2 ⟨hfield, hfield⟩, hfield⟩)
  | switch => exact hinside (within_switch hvisit hform) (List.forall_mem_append.2 ⟨hfield, hfield⟩)
  | other => exact hinside hbelow hchildren

end

end Outline

open Outline in
/-- The outline of a node comes from the node. -/
lemma laid_outline (n : Node) {h : Node} (hn : n ∈ h.preorder) : Laid h (outline n) [n] := by
  rw [outline]
  obtain ⟨as, hlaid, has⟩ := exists_laid_step fun (c : Below n) {_} hc => laid_outline c.1 hc
  exact .node hn hlaid has (.nil h) (parted_nil_right h _)
termination_by n.size
decreasing_by exact c.2

/-! ### Runs over items at their places -/

namespace Outline

lemma Owns.up {root h b : Node} (hb : Owns h b) (hh : h ∈ root.preorder) : Owns root b := by
  refine ⟨Node.mem_preorder_trans hb.mem hh, hb.reason.imp_right ?_⟩
  rintro ⟨p, hp, hkind, hchild⟩
  exact ⟨p, Node.mem_preorder_trans hp hh, hkind, hchild⟩

end Outline

namespace Draft

open Outline

/-- What is kept by each operation, if scopes are opened for some nodes only. -/
structure KeptFor (o : Options) (Q : Node → Prop) (P : Draft → Prop) : Prop where
  declare : ∀ {d : Draft} (scope : Nat) (exports : Option Nat) (x : Declaration), P d →
    P (d.declare o scope exports x)
  openScope : ∀ {d : Draft} (kind : ScopeKind) (parent : Nat) {owner : Node}, Q owner → P d →
    P (d.openScope o kind parent owner).2
  withModel : ∀ {d : Draft} (m : Model), P d → P { d with model := m }

lemma KeptFor.runAll {o : Options} {Q : Node → Prop} {P : Draft → Prop} (hP : KeptFor o Q P)
    {h : Node} {xs : List Outline} {as : List Node} (hx : Laid h xs as)
    (hQ : ∀ {b : Node}, Owns h b → (∃ a ∈ as, b ∈ a.preorder) → Q b) {scope around : Nat}
    {exports : Option Nat} {d : Draft} (hd : P d) :
    P (Draft.runAll o scope around exports xs d) := by
  induction hx generalizing scope around exports d with
  | nil h =>
    simp only [Draft.runAll]
    exact hd
  | declare _ _ ih =>
    simp only [Draft.runAll, Draft.run]
    exact ih hQ (hP.declare scope exports _ hd)
  | declareOutside _ _ ih =>
    simp only [Draft.runAll, Draft.run]
    exact ih hQ (hP.declare around exports _ hd)
  | exportNames _ ih =>
    simp only [Draft.runAll, Draft.run]
    exact ih hQ (hP.withModel _ hd)
  | exporting _ _ _ ihinner ih =>
    simp only [Draft.runAll, Draft.run]
    apply ih
    · rintro b hb ⟨a, ha, hba⟩
      exact hQ hb ⟨a, List.mem_append_right _ ha, hba⟩
    · apply ihinner _ hd
      rintro b hb ⟨a, ha, hba⟩
      exact hQ hb ⟨a, List.mem_append_left _ ha, hba⟩
  | @node h n _ _ _ _ hn _ _ _ _ ihinner ih =>
    simp only [Draft.runAll, Draft.run]
    apply ih
    · rintro b hb ⟨a, ha, hba⟩
      exact hQ hb ⟨a, List.mem_cons_of_mem n ha, hba⟩
    · apply ihinner _ hd
      rintro b hb -
      exact hQ (hb.up hn) ⟨n, List.mem_cons_self, hb.mem⟩
  | @scope h owner kind _ _ _ _ _ howns _ _ _ _ ihinner ih =>
    have hopen := hP.openScope kind scope
      (hQ howns ⟨owner, List.mem_cons_self, owner.self_mem_preorder⟩) hd
    simp only [Draft.runAll, Draft.run]
    apply ih
    · rintro b hb ⟨a, ha, hba⟩
      exact hQ hb ⟨a, List.mem_cons_of_mem owner ha, hba⟩
    · -- What a scope holds is gone through only if the scope is opened.
      generalize d.openScope o kind scope owner = r at hopen
      obtain ⟨id | id, e⟩ := r
      · exact hopen
      · apply ihinner _ hopen
        rintro b hb -
        exact hQ (hb.up howns.mem) ⟨owner, List.mem_cons_self, hb.mem⟩

/-- A scope that is opened for one node is no scope of another. -/
lemma scopeOf?_openScope_of_ne (o : Options) (kind : ScopeKind) (parent : Nat) {owner m : Node}
    {d : Draft} (hne : m.number ≠ owner.number) :
    (d.openScope o kind parent owner).2.scopeOf? m = d.scopeOf? m := by
  rw [Draft.openScope]
  split
  · rfl
  · split_ifs
    · rfl
    · have hbeq : (m.number == owner.number) = false := by simpa using hne
      simp [scopeOf?, List.lookup_cons, hbeq]

/-- Items keep the scopes of the nodes that are not at or below their places. -/
lemma scopeOf?_runAll {root h m : Node} {xs : List Outline} {as : List Node} (hx : Laid h xs as)
    (hh : h ∈ root.preorder) (hm : m ∈ root.preorder) (hout : ∀ a ∈ as, m ∉ a.preorder)
    {o : Options} {scope around : Nat} {exports : Option Nat} {d : Draft} :
    (runAll o scope around exports xs d).scopeOf? m = d.scopeOf? m := by
  have hkept : KeptFor o (fun b => m.number ≠ b.number) fun e => e.scopeOf? m = d.scopeOf? m := by
    constructor
    case declare =>
      intro e scope exports x he
      exact he
    case openScope =>
      intro e kind parent owner howner he
      rw [scopeOf?_openScope_of_ne o kind parent howner, he]
    case withModel =>
      intro e model he
      exact he
  refine hkept.runAll hx ?_ rfl
  rintro b hb ⟨a, ha, hba⟩ hnumber
  have hsame : m = b := Node.eq_of_number_eq hm (hb.up hh).mem hnumber
  exact hout a ha (hsame ▸ hba)

/-- Items inside a node keep the scopes of the nodes outside it. -/
lemma scopeOf?_runAll_of_not_mem {root h m : Node} {xs : List Outline} {as : List Node}
    (hx : Laid h xs as) (hh : h ∈ root.preorder) (hm : m ∈ root.preorder) (hout : m ∉ h.preorder)
    {o : Options} {scope around : Nat} {exports : Option Nat} {d : Draft} :
    (runAll o scope around exports xs d).scopeOf? m = d.scopeOf? m := by
  refine scopeOf?_runAll hx hh hm fun a ha hma => ?_
  exact hout (Node.mem_preorder_trans hma (hx.mem_preorder a ha))

/-- Scopes are opened for nodes that may own one, or lie too deep for such nodes. -/
structure Owned (root : Node) (d : Draft) : Prop where
  opened : ∀ e ∈ d.scopeOf, e.1 = root.number ∨ ∃ b, Owns root b ∧ b.number = e.1
  truncated : ∀ k ∈ d.truncated, ∃ b, Owns root b ∧ b.number = k

lemma owned_ofRoot (o : Options) (root : Node) : (ofRoot o root).Owned root := by
  have hkept : KeptFor o (Owns root) (Owned root) := by
    constructor
    case declare =>
      intro d scope exports x h
      exact ⟨h.opened, h.truncated⟩
    case openScope =>
      intro d kind parent owner howner h
      rw [Draft.openScope]
      split
      · exact h
      · split_ifs
        · exact ⟨h.opened, List.forall_mem_cons.2 ⟨⟨owner, howner, rfl⟩, h.truncated⟩⟩
        · exact ⟨List.forall_mem_cons.2 ⟨.inr ⟨owner, howner, rfl⟩, h.opened⟩, h.truncated⟩
    case withModel =>
      intro d model h
      exact ⟨h.opened, h.truncated⟩
  refine hkept.runAll (laid_outline root root.self_mem_preorder) (fun hb _ => hb) ?_
  rw [declareBuiltins]
  split_ifs <;> exact ⟨by simp [start], by simp [start]⟩

end Draft

end Arbor.Symbols
