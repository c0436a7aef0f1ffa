import Arbor.Node

/-!
The names that a declaration binds. The target of a declaration is a name, or object and array
patterns, defaults, rest elements and parameter wrappers around further targets. A target binds
names, and may hold expressions that give a name its value when the value at hand has none.
-/

namespace Arbor

/-- The forms of declaration targets. -/
inductive TargetForm where
  /-- A name. -/
  | name
  /-- A target with a default. -/
  | defaulted
  /-- A target for the value of a property. -/
  | pair
  /-- A parameter with a type, and perhaps a default, around a target. -/
  | annotated
  /-- A parameter that holds a name or a target. -/
  | parameter
  /-- Targets side by side, among them defaults. -/
  | group
  /-- Targets side by side, in which no defaults are looked for. -/
  | sequence
  /-- Not a target. -/
  | other
  deriving DecidableEq, Repr

/-- The kinds of nodes that have each form. -/
def TargetForm.kinds : List (TargetForm × List String) :=
  [(name, ["identifier", "shorthand_property_identifier_pattern"]),
   (defaulted, ["assignment_pattern", "object_assignment_pattern"]),
   (pair, ["pair_pattern"]),
   (annotated, ["required_parameter", "optional_parameter"]),
   (parameter, ["parameter", "formal_parameter"]),
   (group, ["object_pattern", "array_pattern", "rest_pattern", "formal_parameters", "parameters"]),
   (sequence, ["tuple_pattern", "list_pattern"])]

/-- The form of a kind of node. -/
def TargetForm.ofKind (kind : String) : TargetForm :=
  ((kinds.find? (·.2.contains kind)).map (·.1)).getD other

namespace Node

/-- The form that the node has as the target of a declaration. -/
def targetForm (n : Node) : TargetForm :=
  .ofKind n.kind

/-- The parts of a target that bind names. -/
def namingParts (n : Node) : List Node :=
  match n.targetForm with
  | .name => []
  | .defaulted => (n.field? "left").toList
  | .pair => (n.field? "value").toList
  | .annotated => (n.field? "pattern").toList
  | .parameter => (n.fieldOr? "name" "pattern").toList
  | .group => n.children
  | .sequence => n.children
  | .other => []

/-- The expression that a target gives as the default of the target it wraps. -/
def ownDefault? (n : Node) : Option Node :=
  match n.targetForm with
  | .defaulted => n.field? "right"
  | .annotated => n.field? "value"
  | _ => none

/-- The parts of a target in which further defaults may stand. -/
def defaultingParts (n : Node) : List Node :=
  match n.targetForm with
  | .defaulted => (n.field? "left").toList
  | .pair => (n.field? "value").toList
  | .annotated => (n.field? "pattern").toList
  | .group => n.children
  | _ => []

theorem toList_sublist_children {n : Node} {c : Option Node} (h : ∀ m ∈ c, m ∈ n.children) :
    c.toList.Sublist n.children := by
  cases c with
  | none => exact List.nil_sublist _
  | some m => exact List.singleton_sublist.2 (h m rfl)

theorem namingParts_sublist (n : Node) : n.namingParts.Sublist n.children := by
  unfold namingParts
  generalize n.targetForm = form
  cases form with
  | name | other => exact List.nil_sublist _
  | defaulted | pair | annotated => exact toList_sublist_children fun _ => mem_children_of_field?
  | parameter => exact toList_sublist_children fun _ => mem_children_of_fieldOr?
  | group | sequence => exact List.Sublist.refl _

theorem defaultingParts_cases (n : Node) :
    n.defaultingParts = n.namingParts ∨ n.defaultingParts = [] := by
  unfold defaultingParts namingParts
  generalize n.targetForm = form
  cases form with
  | defaulted | pair | annotated | group => exact .inl rfl
  | name | parameter | sequence | other => exact .inr rfl

theorem mem_children_of_mem_namingParts {n c : Node} (h : c ∈ n.namingParts) :
    c ∈ n.children :=
  n.namingParts_sublist.subset h

theorem mem_children_of_mem_defaultingParts {n c : Node} (h : c ∈ n.defaultingParts) :
    c ∈ n.children := by
  rcases n.defaultingParts_cases with heq | heq
  · exact mem_children_of_mem_namingParts (heq ▸ h)
  · rw [heq] at h
    cases h

theorem mem_children_of_ownDefault? {n d : Node} (h : n.ownDefault? = some d) :
    d ∈ n.children := by
  unfold ownDefault? at h
  generalize n.targetForm = form at h
  cases form with
  | defaulted | annotated => exact mem_children_of_field? h
  | name | pair | parameter | group | sequence | other => cases h

/-- The names that a target binds, from left to right. -/
def boundNames (n : Node) : List Node :=
  if n.targetForm = .name then [n]
  else n.namingParts.attach.flatMap fun c => boundNames c.1
termination_by n.size
decreasing_by exact size_lt_of_mem_children (mem_children_of_mem_namingParts c.2)

/-- The default expressions in a target, the outermost first. -/
def bindingDefaults (n : Node) : List Node :=
  n.ownDefault?.toList ++ n.defaultingParts.attach.flatMap fun c => bindingDefaults c.1
termination_by n.size
decreasing_by exact size_lt_of_mem_children (mem_children_of_mem_defaultingParts c.2)

/-- The parameters of a function: the children of its parameter list, or its only parameter. -/
def parameters (n : Node) : List Node :=
  match n.field? "parameters" with
  | some list => list.children
  | none => (n.field? "parameter").toList

end Node

end Arbor
