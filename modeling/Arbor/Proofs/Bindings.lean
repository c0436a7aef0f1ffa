import Arbor.Proofs.Shares
import Mathlib.Logic.Relation

/-!
# The names and the defaults of a target

Two walks go over the target of a declaration: one takes the names that it binds, the other its
defaults. Both go from a node to some of its children, and mostly to the same ones. At some nodes
the second walk ends while the first goes on, and there the two drift apart: a default that the walk
for the names passes by is found just in case no such node stands above it.

Where no two fields of a node name the same child, what the two walks take never overlaps. The names
stand in pre-order and the defaults apart from each other and from all names.
-/

namespace Arbor

/-! ### Forms and kinds -/

lemma TargetForm.ofKind_eq_iff {kind : String} {form : TargetForm} (h : form ≠ .other) :
    ofKind kind = form ↔ ∃ row ∈ kinds, row.1 = form ∧ kind ∈ row.2 := by
  have hrows : ∀ row ∈ kinds, ∀ kind ∈ row.2, ofKind kind = row.1 := by decide
  constructor
  · intro hform
    rw [ofKind] at hform
    cases hfind : kinds.find? (·.2.contains kind) with
    | none =>
      rw [hfind] at hform
      exact absurd hform.symm h
    | some row =>
      rw [hfind] at hform
      have hkind := List.find?_some hfind
      exact ⟨row, List.mem_of_find?_eq_some hfind, hform, by simpa using hkind⟩
  · rintro ⟨row, hrow, rfl, hkind⟩
    exact hrows row hrow kind hkind

namespace Node

variable {n m c b d p x : Node}

lemma targetForm_eq_name_iff : n.targetForm = .name ↔
    n.kind = "identifier" ∨ n.kind = "shorthand_property_identifier_pattern" := by
  rw [targetForm, TargetForm.ofKind_eq_iff (by decide)]
  simp [TargetForm.kinds]

lemma targetForm_eq_defaulted_iff : n.targetForm = .defaulted ↔
    n.kind = "assignment_pattern" ∨ n.kind = "object_assignment_pattern" := by
  rw [targetForm, TargetForm.ofKind_eq_iff (by decide)]
  simp [TargetForm.kinds]

/-- A target that may bind names, but in which no defaults are looked for. -/
def IsBlind (n : Node) : Prop :=
  n.kind ∈ ["parameter", "formal_parameter", "tuple_pattern", "list_pattern"]

instance (n : Node) : Decidable n.IsBlind := inferInstanceAs (Decidable (_ ∈ _))

lemma isBlind_iff : n.IsBlind ↔ n.targetForm = .parameter ∨ n.targetForm = .sequence := by
  rw [targetForm, TargetForm.ofKind_eq_iff (by decide), TargetForm.ofKind_eq_iff (by decide)]
  simp [IsBlind, TargetForm.kinds, or_assoc]

/-- The walk for the defaults goes on just as the walk for the names does, or it ends. -/
lemma defaultingParts_eq (n : Node) :
    n.defaultingParts = if n.IsBlind then [] else n.namingParts := by
  rw [defaultingParts, namingParts]
  cases hform : n.targetForm with
  | parameter | sequence => simp [isBlind_iff, hform]
  | name | defaulted | pair | annotated | group | other => simp [isBlind_iff, hform]

lemma mem_defaultingParts_iff : c ∈ n.defaultingParts ↔ c ∈ n.namingParts ∧ ¬ n.IsBlind := by
  rw [defaultingParts_eq]
  split_ifs with hblind
  · simp [hblind]
  · simp [hblind]

/-! ### The two walks -/

/-- What a walk from node to node takes on its way is what it takes at some node that it comes
to. -/
lemma mem_iff_of_parts {own parts take : Node → List Node}
    (htake : ∀ n, take n = own n ++ (parts n).flatMap take)
    (hparts : ∀ {n c}, c ∈ parts n → c ∈ n.children) (n : Node) :
    x ∈ take n ↔ ∃ m, Relation.ReflTransGen (fun n c => c ∈ parts n) n m ∧ x ∈ own m := by
  constructor
  · intro hx
    rw [htake, List.mem_append] at hx
    rcases hx with hx | hx
    · exact ⟨n, .refl, hx⟩
    · obtain ⟨c, hc, hx⟩ := List.mem_flatMap.1 hx
      obtain ⟨m, hcm, hm⟩ := (mem_iff_of_parts htake hparts c).1 hx
      exact ⟨m, .head hc hcm, hm⟩
  · rintro ⟨m, hnm, hm⟩
    induction hnm using Relation.ReflTransGen.head_induction_on with
    | refl =>
      rw [htake]
      exact List.mem_append_left _ hm
    | head hc _ ih =>
      rw [htake]
      exact List.mem_append_right _ (List.mem_flatMap.2 ⟨_, hc, ih⟩)
termination_by n.size
decreasing_by exact size_lt_of_mem_children (hparts hc)

/-- On its way to the names that the first node binds, a walk comes to the second. It goes to the
target that a default, a property or a parameter wraps, and to all of several targets. -/
def LeadsTo : Node → Node → Prop := Relation.ReflTransGen fun n c => c ∈ n.namingParts

/-- In search of defaults in the first node, a walk comes to the second. -/
def Searches : Node → Node → Prop := Relation.ReflTransGen fun n c => c ∈ n.defaultingParts

lemma mem_boundNames_iff : b ∈ n.boundNames ↔ n.LeadsTo b ∧ b.targetForm = .name := by
  have hstep (n : Node) : n.boundNames =
      (if n.targetForm = .name then [n] else []) ++ n.namingParts.flatMap boundNames := by
    rw [boundNames_eq]
    split_ifs with hname
    · simp [namingParts, hname]
    · rfl
  rw [mem_iff_of_parts hstep mem_children_of_mem_namingParts]
  constructor
  · rintro ⟨m, hm, hb⟩
    split_ifs at hb with hname
    · obtain rfl := List.mem_singleton.1 hb
      exact ⟨hm, hname⟩
    · cases hb
  · rintro ⟨hb, hname⟩
    exact ⟨b, hb, by simp [hname]⟩

lemma mem_bindingDefaults_iff :
    d ∈ n.bindingDefaults ↔ ∃ m, n.Searches m ∧ m.ownDefault? = some d := by
  rw [mem_iff_of_parts bindingDefaults_eq mem_children_of_mem_defaultingParts]
  simp only [Option.mem_toList, Searches]

lemma LeadsTo.mem_preorder (h : n.LeadsTo m) : m ∈ n.preorder := by
  induction h with
  | refl => exact self_mem_preorder _
  | tail _ hc ih =>
    have hinside := inside_of_mem_children (mem_children_of_mem_namingParts hc)
    exact (hinside.up ih).mem_preorder

lemma LeadsTo.antisymm (h : n.LeadsTo m) (h' : m.LeadsTo n) : n = m := by
  rcases mem_preorder_iff_inside.1 h.mem_preorder with rfl | hin
  · rfl
  · exact absurd h'.mem_preorder hin.not_mem_preorder

lemma Searches.leadsTo (h : n.Searches m) : n.LeadsTo m :=
  Relation.ReflTransGen.mono (fun _ _ hc => (mem_defaultingParts_iff.1 hc).1) _ _ h

/-- The walk for the defaults comes to where the walk for the names comes, unless it has to go
through a node at which it ends. -/
lemma searches_iff (hm : ¬ m.IsBlind) :
    n.Searches m ↔ n.LeadsTo m ∧ ∀ x, n.LeadsTo x → x.LeadsTo m → ¬ x.IsBlind := by
  constructor
  · intro h
    refine ⟨h.leadsTo, ?_⟩
    induction h using Relation.ReflTransGen.head_induction_on with
    | refl =>
      intro x hmx hxm
      rwa [← hmx.antisymm hxm]
    | @head n c hc hcm ih =>
      obtain ⟨hnaming, hblind⟩ := mem_defaultingParts_iff.1 hc
      intro x hnx hxm
      rcases Relation.ReflTransGen.cases_head hnx with rfl | ⟨c', hc', hcx⟩
      · exact hblind
      · -- There is only one child to go to on the way to `m`.
        have hmc' : m ∈ c'.preorder := LeadsTo.mem_preorder (hcx.trans hxm)
        obtain rfl : c' = c := eq_of_mem_children (mem_children_of_mem_namingParts hc')
          (mem_children_of_mem_namingParts hnaming) hmc' (Searches.leadsTo hcm).mem_preorder
        exact ih x hcx hxm
  · rintro ⟨h, hway⟩
    induction h using Relation.ReflTransGen.head_induction_on with
    | refl => exact .refl
    | head hc hcm ih =>
      have hblind := hway _ .refl (.head hc hcm)
      have hrest := ih fun x hcx => hway x (.head hc hcx)
      exact .head (mem_defaultingParts_iff.2 ⟨hc, hblind⟩) hrest

lemma not_isBlind_of_ownDefault? (h : n.ownDefault? = some d) : ¬ n.IsBlind := by
  rw [isBlind_iff]
  rintro (hform | hform)
  · simp [ownDefault?, hform] at h
  · simp [ownDefault?, hform] at h

/-- The default of a node that the walk for the names passes is found just in case the walk for the
defaults comes to the node as well. -/
lemma LeadsTo.mem_bindingDefaults_iff (h : p.LeadsTo m) (hd : m.ownDefault? = some d) :
    d ∈ p.bindingDefaults ↔ ∀ x, p.LeadsTo x → x.LeadsTo m → ¬ x.IsBlind := by
  have hsearches := searches_iff (n := p) (not_isBlind_of_ownDefault? hd)
  rw [Node.mem_bindingDefaults_iff]
  constructor
  · rintro ⟨m', hm', hd'⟩
    -- A node has one parent, so the default belongs to `m` only.
    obtain rfl : m' = m := eq_of_mem_children_children hm'.leadsTo.mem_preorder h.mem_preorder
      (mem_children_of_ownDefault? hd') (mem_children_of_ownDefault? hd)
    exact (hsearches.1 hm').2
  · intro hway
    exact ⟨m, hsearches.2 ⟨h, hway⟩, hd⟩

/-- The names that a target binds are the nodes of a name's kind that the walk for the names comes
to. If on its way the walk passes a node with a default, then this default is among those of the
target just in case no node on the way is a parameter that only wraps a name or a target, or a tuple
or list of targets. -/
theorem defaults_along_names (p : Node) :
    (∀ b, b ∈ p.boundNames ↔ p.LeadsTo b ∧
      (b.kind = "identifier" ∨ b.kind = "shorthand_property_identifier_pattern")) ∧
    ∀ m d, p.LeadsTo m →
      (m.kind = "assignment_pattern" ∨ m.kind = "object_assignment_pattern") →
      m.field? "right" = some d →
      (d ∈ p.bindingDefaults ↔ ∀ x, p.LeadsTo x → x.LeadsTo m →
        x.kind ∉ ["parameter", "formal_parameter", "tuple_pattern", "list_pattern"]) := by
  refine ⟨fun b => ?_, fun m d hm hkind hd => ?_⟩
  · rw [mem_boundNames_iff, targetForm_eq_name_iff]
  · have hown : m.ownDefault? = some d := by
      rw [ownDefault?, targetForm_eq_defaulted_iff.2 hkind]
      exact hd
    exact hm.mem_bindingDefaults_iff hown

/-- A target with the default `right`. -/
def withDefault (kind left right : String) : Tree :=
  ⟨kind, left ++ " = " ++ right, .zero, [.leaf "identifier" left, .leaf "identifier" right],
    .ofList [("left", 0), ("right", 1)]⟩

/-- The parameters `({ a = b }, [c = d], e = f)`, the first of them wrapped as a parameter. -/
def threeDefaults : Node :=
  let object : Tree :=
    ⟨"object_pattern", "{ a = b }", .zero, [withDefault "object_assignment_pattern" "a" "b"], ∅⟩
  let first : Tree := ⟨"parameter", "{ a = b }", .zero, [object], .ofList [("pattern", 0)]⟩
  let second : Tree :=
    ⟨"list_pattern", "[c = d]", .zero, [withDefault "assignment_pattern" "c" "d"], ∅⟩
  .root ⟨"formal_parameters", "({ a = b }, [c = d], e = f)", .zero,
    [first, second, withDefault "assignment_pattern" "e" "f"], ∅⟩

/-- Where the walk for the names goes in the three parameters. -/
lemma namingParts_threeDefaults : ∃ first second third object m₁ m₂,
    threeDefaults.namingParts = [first, second, third] ∧ first.namingParts = [object] ∧
    object.namingParts = [m₁] ∧ second.namingParts = [m₂] ∧ first.kind = "parameter" ∧
    (m₁.kind = "object_assignment_pattern" ∧ ∃ d, m₁.field? "right" = some d ∧ d.text = "b") ∧
    (m₂.kind = "assignment_pattern" ∧ ∃ d, m₂.field? "right" = some d ∧ d.text = "d") ∧
    (third.kind = "assignment_pattern" ∧ ∃ d, third.field? "right" = some d ∧ d.text = "f") :=
  ⟨_, _, _, _, _, _, rfl, rfl, rfl, rfl, rfl, ⟨rfl, _, rfl, rfl⟩, ⟨rfl, _, rfl, rfl⟩,
    ⟨rfl, _, rfl, rfl⟩⟩

/-- Of the three parameters with a default, the first loses it below the wrapper, and the last
keeps it. -/
theorem defaults_threeDefaults :
    (∃ m d, threeDefaults.LeadsTo m ∧ m.field? "right" = some d ∧ d.text = "b" ∧
      d ∉ threeDefaults.bindingDefaults) ∧
    ∃ m d, threeDefaults.LeadsTo m ∧ m.field? "right" = some d ∧ d.text = "f" ∧
      d ∈ threeDefaults.bindingDefaults := by
  obtain ⟨first, second, third, object, m₁, m₂, hparts, hfirst, hobject, -, hwrapper,
    ⟨hkind₁, d₁, hd₁, htext₁⟩, -, hkind₃, d₃, hd₃, htext₃⟩ := namingParts_threeDefaults
  have hroot : threeDefaults.LeadsTo first := .single (by simp [hparts])
  have hway : first.LeadsTo m₁ :=
    .head (b := object) (by simp [hfirst]) (.single (by simp [hobject]))
  have hthird : third ∈ threeDefaults.namingParts := by simp [hparts]
  refine ⟨⟨m₁, d₁, hroot.trans hway, hd₁, htext₁, fun hmem => ?_⟩,
    ⟨third, d₃, .single hthird, hd₃, htext₃, ?_⟩⟩
  · have hfound := (defaults_along_names threeDefaults).2 m₁ d₁ (hroot.trans hway) (.inr hkind₁) hd₁
    exact hfound.1 hmem first hroot hway (by simp [hwrapper])
  · have hfound := (defaults_along_names threeDefaults).2 third d₃ (.single hthird)
      (.inl hkind₃) hd₃
    refine hfound.2 fun x hx hxthird => ?_
    -- On the way there is nothing but the two ends.
    rcases Relation.ReflTransGen.cases_head hx with rfl | ⟨c, hc, hcx⟩
    · decide +kernel
    · have hbelow : third ∈ c.preorder := LeadsTo.mem_preorder (hcx.trans hxthird)
      obtain rfl : c = third := eq_of_mem_children (mem_children_of_mem_namingParts hc)
        (mem_children_of_mem_namingParts hthird) hbelow third.self_mem_preorder
      rw [← LeadsTo.antisymm hcx hxthird, hkind₃]
      decide

/-- The walk for the names passes three defaults, and only one of them is found. -/
theorem bindingDefaults_threeDefaults :
    threeDefaults.boundNames.map (·.text) = ["a", "c", "e"] ∧
    threeDefaults.bindingDefaults.map (·.text) = ["f"] ∧
    ∀ lost ∈ ["b", "d"], ∃ m d, threeDefaults.LeadsTo m ∧
      (m.kind = "assignment_pattern" ∨ m.kind = "object_assignment_pattern") ∧
      m.field? "right" = some d ∧ d.text = lost ∧ d ∉ threeDefaults.bindingDefaults := by
  have hdefaults : threeDefaults.bindingDefaults.map (·.text) = ["f"] := by decide +kernel
  have hlost {d : Node} (hd : d.text ≠ "f") : d ∉ threeDefaults.bindingDefaults := by
    intro hmem
    have htext : d.text ∈ threeDefaults.bindingDefaults.map (·.text) := List.mem_map_of_mem hmem
    rw [hdefaults, List.mem_singleton] at htext
    exact hd htext
  obtain ⟨first, second, third, object, m₁, m₂, hparts, hfirst, hobject, hsecond, -,
    ⟨hkind₁, d₁, hd₁, htext₁⟩, ⟨hkind₂, d₂, hd₂, htext₂⟩, -⟩ := namingParts_threeDefaults
  have hway₁ : threeDefaults.LeadsTo m₁ := .head (b := first) (by simp [hparts])
    (.head (b := object) (by simp [hfirst]) (.single (by simp [hobject])))
  have hway₂ : threeDefaults.LeadsTo m₂ :=
    .head (b := second) (by simp [hparts]) (.single (by simp [hsecond]))
  refine ⟨by decide +kernel, hdefaults, fun lost hmem => ?_⟩
  rcases List.mem_pair.1 hmem with rfl | rfl
  · exact ⟨m₁, d₁, hway₁, .inr hkind₁, hd₁, htext₁, hlost (by simp [htext₁])⟩
  · exact ⟨m₂, d₂, hway₂, .inl hkind₂, hd₂, htext₂, hlost (by simp [htext₂])⟩

/-! ### What the two walks take -/

/-- No name that a target binds is one of its defaults or stands below one. -/
lemma FieldsDistinct.not_mem_preorder (h : n.FieldsDistinct) (hb : b ∈ n.boundNames)
    (hd : d ∈ n.bindingDefaults) : b ∉ d.preorder := by
  intro hin
  have hname := total_le_of_sublist (here b.number) (List.singleton_sublist.2 hb)
  have hdefault := total_le_of_sublist (share b.number) (List.singleton_sublist.2 hd)
  have hself : b.here b.number = 1 := if_pos rfl
  have hshare := share_of_mem_preorder hin
  have hboth := h.nameShare_add_le b.number
  have hone := n.share_le_one b.number
  rw [total_cons, total_nil] at hname hdefault
  rw [nameShare] at hboth
  omega

/-- Where no two fields of a node name the same child, the names that a target binds are different
nodes in pre-order: those of a name's kind that the walk for the names comes to. None of them is a
default of the target or stands below one. The defaults are different nodes too, and none stands
below another. -/
theorem boundNames_outside_defaults {p : Node} (h : p.FieldsDistinct) :
    (p.boundNames.Sublist p.preorder ∧ p.boundNames.Pairwise fun a b => a.number < b.number) ∧
    (∀ b, b ∈ p.boundNames ↔ p.LeadsTo b ∧
      (b.kind = "identifier" ∨ b.kind = "shorthand_property_identifier_pattern")) ∧
    (∀ b ∈ p.boundNames, ∀ d ∈ p.bindingDefaults, b.number ≠ d.number ∧ ¬ b.Inside d) ∧
    p.bindingDefaults.Pairwise fun d e => d.number ≠ e.number ∧ ¬ d.Inside e ∧ ¬ e.Inside d := by
  have hnames := p.boundNames_sublist_preorder
  have hdefault {d : Node} (hd : d ∈ p.bindingDefaults) : d ∈ p.preorder :=
    (inside_of_mem_bindingDefaults hd).mem_preorder
  refine ⟨⟨hnames, p.pairwise_number_preorder.sublist hnames⟩, fun b => ?_, ?_, ?_⟩
  · rw [mem_boundNames_iff, targetForm_eq_name_iff]
  · intro b hb d hd
    have hout := h.not_mem_preorder hb hd
    refine ⟨fun hnumber => hout ?_, fun hin => hout hin.mem_preorder⟩
    rw [eq_of_number_eq (hnames.subset hb) (hdefault hd) hnumber]
    exact d.self_mem_preorder
  · refine h.pairwise_apart_bindingDefaults.imp_of_mem fun {d e} hd he happart => ?_
    refine ⟨fun hnumber => ?_, happart.not_inside, happart.symm.not_inside⟩
    obtain rfl := eq_of_number_eq (hdefault hd) (hdefault he) hnumber
    exact happart d d.self_mem_preorder d.self_mem_preorder

/-- The target `{ a, b: [c, ...d], e = f(a) }`, whose default mentions a name that it binds. -/
def destructuring : Node :=
  let array : Tree := ⟨"array_pattern", "[c, ...d]", .zero, [.leaf "identifier" "c",
    ⟨"rest_pattern", "...d", .zero, [.leaf "identifier" "d"], ∅⟩], ∅⟩
  let pair : Tree := ⟨"pair_pattern", "b: [c, ...d]", .zero,
    [.leaf "property_identifier" "b", array], .ofList [("key", 0), ("value", 1)]⟩
  let call : Tree := ⟨"call_expression", "f(a)", .zero,
    [.leaf "identifier" "f", .leaf "identifier" "a"], .ofList [("function", 0), ("arguments", 1)]⟩
  let last : Tree := ⟨"object_assignment_pattern", "e = f(a)", .zero,
    [.leaf "shorthand_property_identifier_pattern" "e", call], .ofList [("left", 0), ("right", 1)]⟩
  .root ⟨"object_pattern", "{ a, b: [c, ...d], e = f(a) }", .zero,
    [.leaf "shorthand_property_identifier_pattern" "a", pair, last], ∅⟩

/-- The names `a`, `c`, `d` and `e` are bound; the `a` in the default is another node, which no name
bound by the target is. -/
theorem boundNames_destructuring :
    destructuring.boundNames.map (·.text) = ["a", "c", "d", "e"] ∧
    destructuring.bindingDefaults.map (·.text) = ["f(a)"] ∧
    ∀ b ∈ destructuring.boundNames, ∀ d ∈ destructuring.bindingDefaults,
      b.number ≠ d.number ∧ ¬ b.Inside d := by
  have hfields : destructuring.FieldsDistinct := by decide +kernel
  exact ⟨by decide +kernel, by decide +kernel, (boundNames_outside_defaults hfields).2.2.1⟩

end Node

end Arbor
