import Arbor.Proofs.Flow.Depth
import Arbor.Proofs.Flow.EntryPoints
import Arbor.Proofs.Flow.Occurrences

/-!
# Defaults in declarations

The names in a target may have defaults, which are expressions like any other. A declaration of
variables and a function visit the defaults of their targets after the names, in the scope that the
names are declared in. A loop over the parts of a value and a handler declare the names of their
targets only: what stands in a default there is not read.
-/

namespace Arbor

namespace Node

/-! ### The node that a target belongs to -/

/-- Between a target and a name that it binds there are targets only. -/
lemma targetForm_ne_other {p b m : Node} (hb : b ∈ p.boundNames) (hm : m ∈ p.preorder)
    (hin : b.Inside m) : m.targetForm ≠ .other := by
  rw [boundNames_eq] at hb
  split_ifs at hb with hname
  · -- Nothing stands between a name and itself.
    obtain rfl := List.mem_singleton.1 hb
    exact absurd hm hin.not_mem_preorder
  · obtain ⟨c, hc, hb⟩ := List.mem_flatMap.1 hb
    have hchild := mem_children_of_mem_namingParts hc
    rcases mem_preorder_iff_inside.1 hm with rfl | ⟨c', hc', hm'⟩
    · intro hother
      simp [namingParts, hother] at hc
    · have hb' := (hin.up hm').mem_preorder
      obtain rfl := eq_of_mem_children hchild hc' (mem_preorder_of_mem_boundNames hb) hb'
      exact targetForm_ne_other hb hm' hin
termination_by p.size
decreasing_by exact size_lt_of_mem_children hchild

/-- A name is bound by the targets of one node at most that is no target itself. -/
lemma eq_of_mem_boundNames {root v v' p p' b : Node} (hv : v ∈ root.preorder)
    (hv' : v' ∈ root.preorder) (hother : v.targetForm = .other) (hother' : v'.targetForm = .other)
    (hp : p ∈ v.children) (hp' : p' ∈ v'.children) (hb : b ∈ p.boundNames)
    (hb' : b ∈ p'.boundNames) : v = v' ∧ p = p' := by
  have hroot := mem_preorder_trans (inside_of_mem_children hp).mem_preorder hv
  have hroot' := mem_preorder_trans (inside_of_mem_children hp').mem_preorder hv'
  have hmem := mem_preorder_of_mem_boundNames hb
  have hmem' := mem_preorder_of_mem_boundNames hb'
  rcases place_cases hroot hroot' with rfl | hin | hin | happart
  · exact ⟨eq_of_mem_children_children hv hv' hp hp', rfl⟩
  · have hvp' := hin.parent_mem_preorder hv hroot' hp
    exact absurd hother
      (targetForm_ne_other hb' hvp' ⟨p, hp, hmem⟩)
  · have hv'p := hin.parent_mem_preorder hv' hroot hp'
    exact absurd hother' (targetForm_ne_other hb hv'p ⟨p', hp', hmem'⟩)
  · exact absurd hmem' (happart b hmem)

end Node

namespace Flow

open Node Build

lemma kind_of_declarator {n : Node} (h : expressionForm n = .declarator) :
    n.kind = "variable_declarator" := by
  unfold expressionForm ExpressionForm.ofKind at h
  split at h
  case h_3 hkind => exact hkind
  case h_10 => cases hc : Construct.ofKind n.kind <;> simp [hc] at h
  all_goals cases h

/-- A declarator is no target. -/
lemma targetForm_of_declarator {n : Node} (h : expressionForm n = .declarator) :
    n.targetForm = .other := by
  rw [targetForm, kind_of_declarator h]
  decide

lemma expressionForm_ne_declarator {n : Node} (h : n.construct ≠ .statement) :
    expressionForm n ≠ .declarator := by
  intro hform
  have hkind := kind_of_declarator hform
  rw [construct, hkind] at h
  exact h (by decide)

/-- What has a row in the table of constructs is no target. -/
lemma targetForm_of_construct {n : Node} (h : n.construct ≠ .statement) :
    n.targetForm = .other := by
  have hrows : ∀ row ∈ Construct.kinds, ∀ kind ∈ row.2, TargetForm.ofKind kind = .other := by
    decide
  rw [construct, Construct.ofKind] at h
  cases hrow : Construct.kinds.find? (·.2.contains n.kind) with
  | none =>
    rw [hrow] at h
    exact absurd rfl h
  | some row =>
    have hkind := List.find?_some (p := fun row : Construct × List String =>
      row.2.contains n.kind) hrow
    exact hrows row (List.mem_of_find?_eq_some hrow) n.kind (List.contains_iff_mem.1 hkind)

/-! ### Declarations with the reads that follow -/

/-- A declaration of variables is settled by the reads of the defaults in its target, in the scope
of the declaration. The end of a function is settled by one scope in which the names of all
parameters are declared and the defaults in them are read. -/
def Event.Settled (root : Node) (trace : Array Event) : Event → Prop
  | .declared s b binding => binding ≠ .implicit → ∀ v ∈ root.preorder,
    expressionForm v = .declarator → ∀ p, v.field? "name" = some p → b ∈ p.boundNames →
      ∀ x ∈ p.bindingDefaults, expressionForm x = .name → .read s x ∈ trace
  | .finished (some f) _ => ∃ s, ∀ p ∈ f.parameters,
    (∀ b ∈ p.boundNames, .declared s b .implicit ∈ trace) ∧
      ∀ x ∈ p.bindingDefaults, expressionForm x = .name → .read s x ∈ trace
  | .opened .. | .read .. | .written .. | .endless _ | .nullish _ | .finished none _ => True

variable {root : Node}

lemma Event.Settled.mono {e : Event} {t t' : Array Event} (h : e.Settled root t)
    (ht : ∀ e ∈ t, e ∈ t') : e.Settled root t' := by
  cases e with
  | declared s b binding =>
    exact fun hb v hv hform p hp hmem x hx hname => ht _ (h hb v hv hform p hp hmem x hx hname)
  | finished f g =>
    cases f with
    | none => trivial
    | some f =>
      obtain ⟨s, hs⟩ := h
      exact ⟨s, fun p hp => ⟨fun b hb => ht _ ((hs p hp).1 b hb),
        fun x hx hname => ht _ ((hs p hp).2 x hx hname)⟩⟩
  | opened | read | written | endless | nullish => trivial

namespace Build

variable {α β γ : Type}

lemma mem_trace_declare {scope : Nat} {binding : Binding} {names : List Node} {D : Draft}
    {e : Event} (h : e ∈ (declare scope binding names D).2.trace) :
    e ∈ D.trace ∨ ∃ b ∈ names, e = .declared scope b binding := by
  induction names generalizing D with
  | nil => exact .inl h
  | cons b names ih =>
    rcases ih (D := D.emit (.declared scope b binding)) h with h | ⟨c, hc, rfl⟩
    · rcases Array.mem_push.1 h with h | rfl
      · exact .inl h
      · exact .inr ⟨b, List.mem_cons_self, rfl⟩
    · exact .inr ⟨c, List.mem_cons_of_mem b hc, rfl⟩

lemma ComesAcross.declare {names : List Node} {b : Node} (hb : b ∈ names) (scope : Nat)
    (binding : Binding) :
    (declare scope binding names).ComesAcross [.declared scope b binding] := by
  refine .forM hb (fun D e he => ?_) fun _ _ _ _ he => Array.mem_push_of_mem _ he
  obtain rfl := List.mem_singleton.1 he
  exact Array.mem_push_self

/-- The step keeps the events that are there, and settles those that it adds. -/
structure Settles (root : Node) (act : Build α) : Prop where
  keeps : act.KeepsEvents
  settles : ∀ D : Draft, ∀ e ∈ (act D).2.trace, e ∈ D.trace ∨ e.Settled root (act D).2.trace

namespace Settles

lemma bind {act : Build α} {next : α → Build β} (h : act.Settles root)
    (hn : ∀ a, (next a).Settles root) : (act >>= next).Settles root := by
  refine ⟨.bind h.keeps fun a => (hn a).keeps, fun D e he => ?_⟩
  have hnext := hn (act D).1
  rcases hnext.settles (act D).2 e he with he | hsettled
  · exact (h.settles D e he).imp_right fun hs => hs.mono (hnext.keeps _)
  · exact .inr hsettled

/-- A step that leaves the trace alone has nothing to settle. -/
lemma of_trace {act : Build α} (h : ∀ D, (act D).2.trace = D.trace) : act.Settles root :=
  ⟨fun D _ he => (h D).symm ▸ he, fun D _ he => .inl (h D ▸ he)⟩

lemma emit {e : Event} (h : ∀ t, e.Settled root t) : (emit e).Settles root := by
  refine ⟨fun D _ he => Array.mem_push_of_mem _ he, fun D e' he => ?_⟩
  rcases Array.mem_push.1 he with he | rfl
  · exact .inl he
  · exact .inr (h _)

lemma openScope (kind : ScopeKind) (parent : Option Nat) :
    (openScope kind parent).Settles root := by
  have hemit : (Build.emit (.opened kind parent)).Settles root := .emit fun _ => trivial
  exact ⟨fun D => hemit.keeps D, fun D => hemit.settles D⟩

/-- A declaration is settled by what follows. -/
lemma declareBefore {scope : Nat} {binding : Binding} {names : List Node} {next : Build β}
    (h : next.Settles root) (hnames : ∀ D : Draft, ∀ b ∈ names,
      (Event.declared scope b binding).Settled root (next D).2.trace) :
    (do Build.declare scope binding names; next).Settles root := by
  have hkeeps : (Build.declare scope binding names).KeepsEvents :=
    .forM names fun _ _ _ _ he => Array.mem_push_of_mem _ he
  refine ⟨.bind hkeeps fun _ => h.keeps, fun D e he => ?_⟩
  rcases h.settles _ e he with he | hsettled
  · rcases mem_trace_declare he with he | ⟨b, hb, rfl⟩
    · exact .inl he
    · exact .inr (hnames _ b hb)
  · exact .inr hsettled

lemma onFreshGraph {act : Build Unit} (h : act.Settles root) (span : Span) :
    (onFreshGraph span act).Settles root :=
  ⟨fun D => h.keeps { D with graph := .fresh span },
    fun D => h.settles { D with graph := .fresh span }⟩

end Settles

lemma closed_settles : Closed fun _ act => act.Settles root where
  bind := .bind
  of_graph h := .of_trace fun D => (h D).1
  emit {e} he := .emit fun t => by
    cases e with
    | declared => exact fun hb => absurd he hb
    | finished => exact he.elim
    | opened | read | written | endless | nullish => trivial
  openScope := .openScope

/-- The step settles the events that it adds but for the end of a function. -/
structure SettlesBut (f : Node) (root : Node) (act : Build α) : Prop where
  keeps : act.KeepsEvents
  settles : ∀ D : Draft, ∀ e ∈ (act D).2.trace,
    e ∈ D.trace ∨ e.Settled root (act D).2.trace ∨ ∃ g, e = .finished (some f) g

namespace SettlesBut

variable {f : Node}

lemma after {act : Build α} {next : α → Build β} (h : act.Settles root)
    (hn : ∀ a, (next a).SettlesBut f root) : (act >>= next).SettlesBut f root := by
  refine ⟨.bind h.keeps fun a => (hn a).keeps, fun D e he => ?_⟩
  have hnext := hn (act D).1
  rcases hnext.settles (act D).2 e he with he | hsettled
  · exact (h.settles D e he).imp_right fun hs => .inl (hs.mono (hnext.keeps _))
  · exact .inr hsettled

lemma finish (ends : List OpenEnd) : SettlesBut f root (do
    Build.linkToExits ends
    Build.emit (.finished (some f) (← get).graph)) := by
  refine .after (closed_settles.linkToExits ends) fun _ => ?_
  refine .after (.of_trace fun _ => rfl) fun D => ?_
  refine ⟨fun _ _ he => Array.mem_push_of_mem _ he, fun D' e he => ?_⟩
  rcases Array.mem_push.1 he with he | rfl
  · exact .inl he
  · exact .inr (.inr ⟨_, rfl⟩)

/-- If it settles the end of the function as well, the step settles everything. -/
lemma settles_of {act : Build Unit} (h : act.SettlesBut f root)
    (hf : ∀ D : Draft, ∀ g, (Event.finished (some f) g).Settled root (act D).2.trace) :
    act.Settles root := by
  refine ⟨h.keeps, fun D e he => (h.settles D e he).imp_right ?_⟩
  rintro (hsettled | ⟨g, rfl⟩)
  · exact hsettled
  · exact hf D g

end SettlesBut

end Build

/-! ### One step of the walk -/

/-- The walk settles what it adds at every node inside a node, and reads every name there that it
visits. -/
structure Walker.SettlesBelow (w : Walker) (root n : Node) : Prop where
  statement : ∀ m, m.Inside n → ∀ ends ctx, (w.statement m ends ctx).Settles root
  expression : ∀ m, m.Inside n → ∀ ctx, (w.expression m ctx).Settles root
  name : ∀ m, m.Inside n → expressionForm m = .name →
    ∀ ctx, (w.expression m ctx).ComesAcross [.read ctx.scope m]

namespace Walker.SettlesBelow

variable {w : Walker} {n : Node} (hw : w.SettlesBelow root n)
include hw

/-- A default that is a name is read. -/
lemma reads_default {p x : Node} (hp : p.Inside n) (hx : x ∈ p.bindingDefaults)
    (hname : expressionForm x = .name) (ctx : Context) :
    (w.visitAll p.bindingDefaults ctx).ComesAcross [.read ctx.scope x] := by
  have hinside : ∀ y ∈ p.bindingDefaults, y.Inside n :=
    fun y hy => (inside_of_mem_bindingDefaults hy).trans hp
  exact .forM hx (hw.name x (hinside x hx) hname ctx)
    fun y hy => (hw.expression y (hinside y hy) ctx).keeps

/-- The names that a declarator declares are not declared elsewhere in this way, and the defaults in
its target are visited right after. -/
lemma visitDeclarator (hn : n ∈ root.preorder) (hform : expressionForm n = .declarator)
    (ctx : Context) : (w.visitDeclarator n ctx).Settles root := by
  refine .bind (closed_settles.visitField hw.expression _ ctx) fun _ => ?_
  cases hname : n.field? "name" with
  | none => exact closed_settles.pure ()
  | some target =>
    have htarget := inside_of_field? hname
    have hdefaults := closed_settles.visitDefaults hw.expression htarget ctx
    refine .declareBefore hdefaults fun D b hb _ v hv hvform p hp hbp x hx hxname => ?_
    obtain ⟨rfl, rfl⟩ := eq_of_mem_boundNames hn hv (targetForm_of_declarator hform)
      (targetForm_of_declarator hvform) (mem_children_of_field? hname) (mem_children_of_field? hp)
      hb hbp
    exact hw.reads_default htarget hx hxname ctx D _ (List.mem_singleton.2 rfl)

omit hw in
lemma visitFunction {ctx : Context} (hf : (w.function n ctx).Settles root) :
    (w.visitFunction n ctx).Settles root := by
  have hfresh := hf.onFreshGraph n.span
  unfold Walker.visitFunction
  split_ifs
  · exact .bind (closed_settles.declareImplicit _ _) fun _ => hfresh
  · exact hfresh

lemma visitExpression (hn : n ∈ root.preorder) {ctx : Context}
    (hf : (w.function n ctx).Settles root) : (w.visitExpression n ctx).Settles root :=
  closed_settles.visitExpression hw.expression (fun hform => hw.visitDeclarator hn hform ctx)
    fun _ => visitFunction hf

omit hw in
/-- The names that a loop declares are not those of a declarator. -/
lemma declareLeft (hn : n ∈ root.preorder) (hloop : n.construct = .forEach) (scope : Nat)
    {left : Node} (hleft : n.field? "left" = some left) :
    (declare scope .initialized left.boundNames).Settles root := by
  refine closed_settles.forM _ fun b hb => .emit fun t _ v hv hform p hp hbp => ?_
  have hother : n.targetForm = .other := targetForm_of_construct (by simp [hloop])
  obtain ⟨rfl, -⟩ := eq_of_mem_boundNames hn hv hother (targetForm_of_declarator hform)
    (mem_children_of_field? hleft) (mem_children_of_field? hp) hb hbp
  exact absurd hform (expressionForm_ne_declarator (by simp [hloop]))

lemma buildStatement (hn : n ∈ root.preorder) {ctx : Context}
    (hf : (w.function n ctx).Settles root) (ends : List OpenEnd) :
    (w.buildStatement n ends ctx).Settles root :=
  closed_settles.buildStatement hw.statement hw.expression (hw.visitExpression hn hf)
    (fun hloop scope _ hleft => declareLeft hn hloop scope hleft) ends

lemma comesAcross_declareParameters {p : Node} (hp : p ∈ n.parameters) {ctx : Context}
    {events : List Event} (h : ComesAcross events (do
      declare ctx.scope .implicit p.boundNames
      w.visitAll p.bindingDefaults ctx)) : (w.declareParameters n ctx).ComesAcross events :=
  .forM hp h fun _ hq => (closed_settles.declareParameter hw.expression hq ctx).keeps

/-- All parameters are declared, and their defaults read, in the scope of the function. -/
lemma settled_declareParameters (ctx : Context) (D : Draft) : ∀ p ∈ n.parameters,
    (∀ b ∈ p.boundNames,
      .declared ctx.scope b .implicit ∈ (w.declareParameters n ctx D).2.trace) ∧
    ∀ x ∈ p.bindingDefaults, expressionForm x = .name →
      .read ctx.scope x ∈ (w.declareParameters n ctx D).2.trace := by
  intro p hp
  have hinside := inside_of_mem_parameters hp
  constructor
  · intro b hb
    have hdefaults := closed_settles.visitDefaults hw.expression hinside ctx
    have hcomes := hw.comesAcross_declareParameters hp
      (.before (.declare hb ctx.scope .implicit) fun _ => hdefaults.keeps)
    exact hcomes D _ (List.mem_singleton.2 rfl)
  · intro x hx hname
    have hcomes := hw.comesAcross_declareParameters hp
      (.after fun _ => hw.reads_default hinside hx hname ctx)
    exact hcomes D _ (List.mem_singleton.2 rfl)

lemma buildFunction (ctx : Context) : (w.buildFunction n ctx).Settles root := by
  refine .bind (.openScope _ _) fun scope => ?_
  have hrest : SettlesBut n root (do
      let entry := OpenEnd.plain (← get).graph.entry
      let ends ← w.buildBody n [entry] (.root scope)
      linkToExits ends
      emit (.finished (some n) (← get).graph)) :=
    .after (.of_trace fun _ => rfl) fun D =>
      .after (closed_settles.buildBody hw.statement hw.expression _ _) fun ends => .finish ends
  have hdeclare := closed_settles.declareParameters hw.expression (.root scope)
  have hbody := SettlesBut.settles_of (.after hdeclare fun _ => hrest) fun D g =>
    Event.Settled.mono (e := .finished (some n) g)
      ⟨scope, hw.settled_declareParameters (.root scope) D⟩ (hrest.keeps _)
  dsimp only
  split_ifs
  · exact .bind (closed_settles.declareImplicit _ _) fun _ => hbody
  · exact hbody

end Walker.SettlesBelow

/-! ### Whole walks -/

/-- With two levels of depth for each level of the tree, the walk settles everything that it
adds. -/
structure SettlesTo (root : Node) (d : Nat) : Prop where
  statement : ∀ {n : Node}, n ∈ root.preorder → 2 * n.height ≤ d + 1 →
    ∀ ends ctx, (statementTo d n ends ctx).Settles root
  expression : ∀ {n : Node}, n ∈ root.preorder → 2 * n.height ≤ d + 1 →
    ∀ ctx, (expressionTo d n ctx).Settles root
  function : ∀ {n : Node}, n ∈ root.preorder → 2 * n.height ≤ d + 2 →
    ∀ ctx, (functionTo d n ctx).Settles root

/-- A name that is visited is read. -/
lemma comesAcross_name {n : Node} (h : expressionForm n = .name) (d : Nat) (ctx : Context) :
    (expressionTo (d + 1) n ctx).ComesAcross [.read ctx.scope n] := by
  intro D e he
  obtain rfl := List.mem_singleton.1 he
  rw [expressionTo, Walker.visitExpression, h]
  exact Array.mem_push_self

lemma SettlesTo.below {d : Nat} (h : SettlesTo root d) {n : Node} (hn : n ∈ root.preorder)
    (hd : 2 * n.height ≤ d + 3) : (walker d).SettlesBelow root n where
  statement _ hm := h.statement (mem_preorder_trans hm.mem_preorder hn)
    (by have := height_lt_of_inside hm; omega)
  expression _ hm := h.expression (mem_preorder_trans hm.mem_preorder hn)
    (by have := height_lt_of_inside hm; omega)
  name m hm hname ctx := by
    have hlt := height_lt_of_inside hm
    have hpos := m.height_pos
    obtain ⟨d, rfl⟩ : ∃ d', d = d' + 1 := ⟨d - 1, by omega⟩
    exact comesAcross_name hname d ctx

/-- A node without parts has no defaults. -/
lemma Walker.settlesBelow_idle {n : Node} (h : 2 * n.height ≤ 2) :
    Walker.idle.SettlesBelow root n where
  statement _ _ ends _ := closed_settles.pure ends
  expression _ _ _ := closed_settles.pure ()
  name m hm := by
    have hlt := height_lt_of_inside hm
    have hpos := m.height_pos
    omega

theorem settlesTo (root : Node) (d : Nat) : SettlesTo root d := by
  induction d with
  | zero =>
    refine ⟨fun {n} _ hd => ?_, fun {n} _ hd => ?_, fun _ hd ctx => ?_⟩
    · have hpos := n.height_pos
      omega
    · have hpos := n.height_pos
      omega
    · exact (Walker.settlesBelow_idle hd).buildFunction ctx
  | succ d ih =>
    refine ⟨fun hn hd ends ctx => ?_, fun hn hd ctx => ?_, fun hn hd ctx => ?_⟩
    · exact (ih.below hn (by omega)).buildStatement hn (ih.function hn (by omega) ctx) ends
    · exact (ih.below hn (by omega)).visitExpression hn (ih.function hn (by omega) ctx)
    · exact (ih.below hn (by omega)).buildFunction ctx

/-- More depth makes no difference to the draft. -/
def DeepEnough (draft : Options → Node → Draft) (o : Options) (n : Node) : Prop :=
  ∀ d, o.maxDepth ≤ d → draft { o with maxDepth := d } n = draft o n

lemma deepEnough_draftProgram {o : Options} {n : Node} (h : 2 * (n.height - 1) ≤ o.maxDepth) :
    DeepEnough draftProgram o n :=
  fun _ hd => draftProgram_eq_of_depth h (Nat.le_trans h hd)

lemma deepEnough_draftFunction {o : Options} {n : Node} (h : 2 * (n.height - 1) ≤ o.maxDepth) :
    DeepEnough draftFunction o n :=
  fun _ hd => draftFunction_eq_of_depth h (Nat.le_trans h hd)

lemma Draft.settled_of_start {n : Node} {act : Build Unit} (h : act.Settles n) :
    ∀ e ∈ (act (.start n)).2.trace, e.Settled n (act (.start n)).2.trace :=
  fun e he => (h.settles _ e he).resolve_left (Array.not_mem_empty e)

theorem settled_draftProgram {o : Options} {n : Node} (h : DeepEnough draftProgram o n) :
    ∀ e ∈ (draftProgram o n).trace, e.Settled n (draftProgram o n).trace := by
  rw [← h (o.maxDepth + 2 * n.height) (Nat.le_add_right _ _)]
  refine Draft.settled_of_start ?_
  refine .bind (.openScope _ _) fun scope => .bind (.of_trace fun _ => rfl) fun D => ?_
  refine .bind ((settlesTo n _).statement n.self_mem_preorder (by simp; omega) _ _) fun ends => ?_
  refine .bind (closed_settles.linkToExits ends) fun _ => .bind (.of_trace fun _ => rfl) fun _ => ?_
  exact .emit fun _ => trivial

theorem settled_draftFunction {o : Options} {n : Node} (h : DeepEnough draftFunction o n) :
    ∀ e ∈ (draftFunction o n).trace, e.Settled n (draftFunction o n).trace := by
  rw [← h (o.maxDepth + 2 * n.height) (Nat.le_add_right _ _)]
  refine Draft.settled_of_start ?_
  refine .bind (.openScope _ _) fun scope => ?_
  exact (settlesTo n _).function n.self_mem_preorder (by simp; omega) _

/-! ### Reads that are recorded -/

lemma additions_append (list : Ledger → Array Access) (l : Ledger) (before after : List Event) :
    additions list l (before ++ after) =
      additions list l before ++ additions list (before.foldl Ledger.record l) after := by
  induction before generalizing l with
  | nil => rfl
  | cons e before ih => rw [List.cons_append, additions, ih, additions, List.foldl_cons,
      List.append_assoc]

/-- The node reads a name in a scope. If the name stands for a variable there and then, the read is
recorded. -/
structure RecordsRead (trace : Array Event) (scope : Nat) (n : Node) : Prop where
  read : .read scope n ∈ trace
  recorded : ∀ before after, trace.toList = before ++ .read scope n :: after →
    ((Ledger.ofTrace before.toArray).scopes.resolve? scope n.text).isSome →
      (.read, n) ∈ additions Ledger.reads .empty trace.toList

lemma Draft.Scoped.recordsRead {D : Draft} (h : D.Scoped) {scope : Nat} {n : Node}
    (hread : .read scope n ∈ D.trace) : RecordsRead D.trace scope n := by
  refine ⟨hread, fun before after hsplit hresolves => ?_⟩
  obtain ⟨k, hk⟩ := Flow.Scoped.of_prefix h (hsplit ▸ List.prefix_append before _)
  obtain ⟨r, hr⟩ := Option.isSome_iff_exists.1 hresolves
  obtain ⟨v, hv⟩ := (Ledger.consistent_of_scoped hk).1.scopes.names.var_of_resolve? hr
  have hne : ((Ledger.ofTrace before.toArray).record (.read scope n)).reads ≠
      (Ledger.ofTrace before.toArray).reads := by
    rw [Ledger.record, Ledger.read_of_some hr hv]
    intro heq
    have hsize := congrArg Array.size heq
    simp at hsize
  rw [Ledger.ofTrace, List.foldl_toArray] at hne
  rw [hsplit, additions_append, additions, if_neg hne]
  simp [Event.use?]

/-- The reads of the report are those that the trace adds. The defaults of every declarator that
declares a name are among them where they are names, and so are the defaults of the parameters of
every function that is built. -/
structure Report.ReadsDefaults (r : Report) (root : Node) (trace : Array Event) : Prop where
  reads : r.reads.toList = (additions Ledger.reads .empty trace.toList).map fun u => .of u.2
  declarators : ∀ v ∈ root.preorder, expressionForm v = .declarator →
    ∀ p, v.field? "name" = some p → ∀ s b binding, .declared s b binding ∈ trace →
      binding ≠ .implicit → b ∈ p.boundNames →
        ∀ x ∈ p.bindingDefaults, expressionForm x = .name → RecordsRead trace s x
  parameters : ∀ f g, .finished (some f) g ∈ trace → ∃ s, ∀ p ∈ f.parameters,
    (∀ b ∈ p.boundNames, .declared s b .implicit ∈ trace) ∧
      ∀ x ∈ p.bindingDefaults, expressionForm x = .name → RecordsRead trace s x

lemma Draft.WellFormed.report_readsDefaults {D : Draft} (h : D.WellFormed) (hD : D.Scoped)
    {root : Node} (hsettled : ∀ e ∈ D.trace, e.Settled root D.trace) (o : Options) :
    ∃ r, report o D = .ok r ∧ r.ReadsDefaults root D.trace := by
  obtain ⟨r, hr, hshows⟩ := h.report_showsUses o
  refine ⟨r, hr, ?_, ?_, ?_⟩
  · rw [hshows.reads]
    exact AddsUses.entries_eq (fun l e => (l.adds e).reads) rfl D
  · intro v hv hform p hp s b binding hb hbinding hbp x hx hname
    exact hD.recordsRead (hsettled _ hb hbinding v hv hform p hp hbp x hx hname)
  · intro f g hf
    obtain ⟨s, hs⟩ := hsettled _ hf
    exact ⟨s, fun p hp =>
      ⟨(hs p hp).1, fun x hx hname => hD.recordsRead ((hs p hp).2 x hx hname)⟩⟩

/-! ### Defaults that are overlooked -/

namespace Build

variable {α β : Type}

/-- The step declares the name, in one scope or another. -/
def Declares (b : Node) (act : Build α) : Prop :=
  ∀ D : Draft, ∃ s binding, .declared s b binding ∈ (act D).2.trace

lemma Declares.after {b : Node} {act : Build α} {next : α → Build β}
    (h : ∀ a, (next a).Declares b) : (act >>= next).Declares b :=
  fun _ => h _ _

lemma Declares.before {b : Node} {act : Build α} {next : α → Build β} (h : act.Declares b)
    (hn : ∀ a, (next a).KeepsEvents) : (act >>= next).Declares b := by
  intro D
  obtain ⟨s, binding, hmem⟩ := h D
  exact ⟨s, binding, hn _ _ _ hmem⟩

lemma Declares.declare {names : List Node} {b : Node} (hb : b ∈ names) (scope : Nat)
    (binding : Binding) : (declare scope binding names).Declares b :=
  fun D => ⟨scope, binding, ComesAcross.declare hb scope binding D _ (List.mem_singleton.2 rfl)⟩

/-- The step declares the names of the target, and reads no place where one of its defaults
stands. -/
structure Overlooks (p : Node) (act : Build α) : Prop where
  declares : ∀ b ∈ p.boundNames, act.Declares b
  silent : ∀ x ∈ p.bindingDefaults, act.Spends .read x.number 0

end Build

/-- The target stands in the header of a loop that declares names, or it is the parameter of the
handler of a try statement. -/
inductive HeaderTarget (n p : Node) : Prop where
  | loop (construct : n.construct = .forEach) (kind : (n.field? "kind").isSome)
    (left : n.field? "left" = some p)
  | handler (handler : Node) (construct : n.construct = .tryCatch)
    (field : n.field? "handler" = some handler) (parameter : handler.field? "parameter" = some p)

variable {d : Nat} {n p : Node}

lemma overlooks_forEach (hn : n.Tidy) (hloop : n.construct = .forEach)
    (hkind : (n.field? "kind").isSome) (hleft : n.field? "left" = some p) (ends : List OpenEnd)
    (ctx : Context) : (statementTo (d + 1) n ends ctx).Overlooks p := by
  rw [statementTo, Walker.buildStatement, hloop]
  simp only [Walker.buildForEach, hleft, if_pos hkind]
  refine ⟨fun b hb => .after fun scope => .after fun _ => ?_, fun x hx => ?_⟩
  · have hwalker : Walker.Agrees Eq true n (walker d) (walker d) :=
      agrees_walker mirrors_self d d n (.inl rfl)
    refine .before (.declare hb _ _) fun _ => ?_
    exact (Walker.agrees_buildLoop mirrors_self hwalker rfl ends (.refl _)).keepsEvents
  · -- The default stands in the header, so it stands in no other part of the loop.
    have hfields := hn.fields.fieldShares_le x.number ["right", "left", "body"] (by decide)
    have hshare := share_of_mem_preorder (inside_of_mem_bindingDefaults hx).mem_preorder
    have hone := n.share_le_one x.number
    simp only [fieldShares, fieldShare_of_some hleft, hshare] at hfields
    have hw : (walker d).Thrifty .read x.number := thrifty_walker d
    refine (Spends.seq (.openScope _ _) fun scope => .bind (hw.visitField hn "right" ctx) fun _ =>
      .seq (.declare_read _ _ _) fun _ => hw.buildLoop hn ends (ctx.withScope scope)).mono ?_
    omega

lemma declares_buildHandler {handler b : Node} (hp : handler.field? "parameter" = some p)
    (hb : b ∈ p.boundNames) (ends : List OpenEnd) (ctx : Context) :
    ((walker d).buildHandler handler ends ctx).Declares b := by
  have hwalker : Walker.Agrees Eq true handler (walker d) (walker d) :=
    agrees_walker mirrors_self d d handler (.inl rfl)
  have hmem : b ∈ (handler.field? "parameter").toList.flatMap boundNames := by
    simpa [hp] using hb
  refine .after fun scope => .before (.declare hmem _ _) fun _ => ?_
  exact (Walker.agrees_buildField mirrors_self hwalker handler.self_mem_preorder rfl _ _
    (.refl _)).keepsEvents

lemma overlooks_tryCatch {handler : Node} (hn : n.Tidy) (htry : n.construct = .tryCatch)
    (hhandler : n.field? "handler" = some handler) (hp : handler.field? "parameter" = some p)
    (ends : List OpenEnd) (ctx : Context) : (statementTo (d + 1) n ends ctx).Overlooks p := by
  rw [statementTo, Walker.buildStatement, htry]
  refine ⟨fun b hb => ?_, fun x hx => ?_⟩
  · dsimp only [Walker.buildTry]
    rw [hhandler]
    refine .after fun tried => .before (declares_buildHandler hp hb ends ctx) fun caught => ?_
    cases n.field? "finalizer" with
    | none => exact (Agrees.join rfl rfl _).keepsEvents
    | some finalizer =>
      dsimp only
      split_ifs
      · refine .bind ?_ fun _ _ _ he => he
        exact (agrees_statementTo _ _ (.inl rfl) _ (.refl _)).keepsEvents
      · exact (agrees_statementTo _ _ (.inl rfl) _ (.refl _)).keepsEvents
  · -- The default stands in the parameter, so it stands in no other part of the statement.
    have hfields := hn.fields.fieldShares_le x.number ["body", "handler", "finalizer"] (by decide)
    have hparts := (hn.of_field? hhandler).fields.fieldShares_le x.number ["parameter", "body"]
      (by decide)
    have hshare := share_of_mem_preorder (inside_of_mem_bindingDefaults hx).mem_preorder
    have hone := n.share_le_one x.number
    simp only [fieldShares, fieldShare_of_some hhandler] at hfields
    simp only [fieldShares, fieldShare_of_some hp, hshare] at hparts
    have hw : (walker d).Thrifty .read x.number := thrifty_walker d
    refine (hw.buildTry_of_handler (i := handler.fieldShare x.number "body") hn (fun h hh => ?_)
      ends ctx).mono ?_
    · obtain rfl := Option.some.inj (hhandler.symm.trans hh)
      exact Nat.le_refl _
    · omega

/-- Whatever is analyzed, if more depth would make no difference, then the defaults of declarators
and of parameters are read where the names are declared, and are recorded where they stand for a
variable. A loop that declares names in its header, or a handler with a parameter, declares the
names as well, but does not read the defaults. -/
theorem defaults_read_or_overlooked (o : Options) (n : Node) :
    (DeepEnough draftProgram o n →
      ∃ r, analyze o n = .ok r ∧ r.ReadsDefaults n (draftProgram o n).trace) ∧
    (DeepEnough draftFunction o n →
      ∃ r, analyzeFunction o n = .ok r ∧ r.ReadsDefaults n (draftFunction o n).trace) ∧
    ∀ m ∈ n.preorder, m.Tidy → ∀ p, HeaderTarget m p →
      ∀ d ends ctx, (statementTo (d + 1) m ends ctx).Overlooks p := by
  refine ⟨fun h => ?_, fun h => ?_, fun m _ hm p hp d ends ctx => ?_⟩
  · exact (wellFormed_draftProgram o n).report_readsDefaults (scoped_draftProgram o n)
      (settled_draftProgram h) o
  · exact (wellFormed_draftFunction o n).report_readsDefaults (scoped_draftFunction o n)
      (settled_draftFunction h) o
  · cases hp with
    | loop hloop hkind hleft => exact overlooks_forEach hm hloop hkind hleft ends ctx
    | handler handler htry hhandler hparameter =>
      exact overlooks_tryCatch hm htry hhandler hparameter ends ctx

/-- The target `{ a = b }`. -/
def defaultTarget : Tree :=
  ⟨"object_pattern", "{ a = b }", .zero,
    [⟨"object_assignment_pattern", "a = b", .zero,
      [.leaf "shorthand_property_identifier_pattern" "a", .leaf "identifier" "b"],
      .ofList [("left", 0), ("right", 1)]⟩], ∅⟩

/-- The declarator `b = 1`. -/
def defaultDeclarator : Tree :=
  ⟨"variable_declarator", "b = 1", .zero, [.leaf "identifier" "b", .leaf "number" "1"],
    .ofList [("name", 0), ("value", 1)]⟩

/-- An empty block. -/
def emptyBlock : Tree := .leaf "statement_block" "{}"

/-- The loop `for (const { a = b } of []) {}`. -/
def defaultLoop : Tree :=
  ⟨"for_in_statement", "for (const { a = b } of []) {}", .zero,
    [.leaf "const" "const", defaultTarget, .leaf "array" "[]", emptyBlock],
    .ofList [("kind", 0), ("left", 1), ("right", 2), ("body", 3)]⟩

/-- One target in a declarator, as a parameter and in the header of a loop. The variable that its
default names is read twice. -/
theorem defaults_read_or_overlooked_thrice :
    let second : Tree := ⟨"variable_declarator", "{ a = b } = {}", .zero,
      [defaultTarget, .leaf "object" "{}"], .ofList [("name", 0), ("value", 1)]⟩
    let function : Tree := ⟨"function_declaration", "function f({ a = b }) {}", .zero,
      [.leaf "identifier" "f", ⟨"formal_parameters", "({ a = b })", .zero, [defaultTarget], ∅⟩,
        emptyBlock],
      .ofList [("name", 0), ("parameters", 1), ("body", 2)]⟩
    let n := Node.root ⟨"program", "", .zero,
      [⟨"lexical_declaration", "let b = 1, { a = b } = {};", .zero, [defaultDeclarator, second], ∅⟩,
        function, defaultLoop], ∅⟩
    let f : Node := ⟨11, function⟩
    (DeepEnough draftProgram {} n ∧ DeepEnough draftFunction {} f ∧ ⟨19, defaultLoop⟩ ∈ n.preorder ∧
      (⟨19, defaultLoop⟩ : Node).Tidy ∧ HeaderTarget ⟨19, defaultLoop⟩ ⟨21, defaultTarget⟩) ∧
    (analyze {} n).toOption.map (fun r => r.reads.map (·.name)) = some #["b", "b"] ∧
    (∃ r, analyze {} n = .ok r ∧ r.ReadsDefaults n (draftProgram {} n).trace) ∧
    (∃ r, analyzeFunction {} f = .ok r ∧ r.ReadsDefaults f (draftFunction {} f).trace) ∧
    ∀ d ends ctx,
      (statementTo (d + 1) ⟨19, defaultLoop⟩ ends ctx).Overlooks ⟨21, defaultTarget⟩ := by
  intro second function n f
  have hdeep : DeepEnough draftProgram {} n := deepEnough_draftProgram (by decide)
  have hdeep' : DeepEnough draftFunction {} f := deepEnough_draftFunction (by decide)
  have hloop : ⟨19, defaultLoop⟩ ∈ n.preorder :=
    (inside_of_mem_children (List.mem_of_getElem? (i := 2) rfl)).mem_preorder
  have htidy : (⟨19, defaultLoop⟩ : Node).Tidy := by decide +kernel
  have htarget : HeaderTarget ⟨19, defaultLoop⟩ ⟨21, defaultTarget⟩ := .loop (by decide) rfl rfl
  obtain ⟨hprogram, -, hoverlooks⟩ := defaults_read_or_overlooked {} n
  exact ⟨⟨hdeep, hdeep', hloop, htidy, htarget⟩, by decide +kernel, hprogram hdeep,
    (defaults_read_or_overlooked {} f).2.1 hdeep', hoverlooks _ hloop htidy _ htarget⟩

/-- A variable whose only uses are defaults, in the header of a loop and in the parameter of a
handler. Both stand where its name stands for it, and yet it counts as unused. -/
theorem defaults_unread_in_loop_and_handler :
    let handler : Tree := ⟨"catch_clause", "catch ({ a = b }) {}", .zero,
      [defaultTarget, emptyBlock], .ofList [("parameter", 0), ("body", 1)]⟩
    let attempt : Tree := ⟨"try_statement", "try {} catch ({ a = b }) {}", .zero,
      [emptyBlock, handler], .ofList [("body", 0), ("handler", 1)]⟩
    let n := Node.root ⟨"program", "", .zero,
      [⟨"lexical_declaration", "let b = 1;", .zero, [defaultDeclarator], ∅⟩, defaultLoop,
        attempt], ∅⟩
    let scopes := (Ledger.ofTrace (draftProgram {} n).trace).scopes
    DeepEnough draftProgram {} n ∧
    (n.children[1]? = some ⟨5, defaultLoop⟩ ∧ HeaderTarget ⟨5, defaultLoop⟩ ⟨7, defaultTarget⟩) ∧
    (n.children[2]? = some ⟨13, attempt⟩ ∧ HeaderTarget ⟨13, attempt⟩ ⟨16, defaultTarget⟩) ∧
    (⟨7, defaultTarget⟩ : Node).bindingDefaults.map (fun x => (x.kind, x.text)) =
      [("identifier", "b")] ∧
    (scopes.scopes.map (·.kind) = #[.program, .loop, .catchClause] ∧
      scopes.resolve? 1 "b" = some ⟨0, false⟩ ∧ scopes.resolve? 2 "b" = some ⟨0, false⟩) ∧
    (analyze {} n).toOption.map (fun r => (r.reads, r.unusedVariables)) =
      some (#[], ["b", "a"]) := by
  intro handler attempt n scopes
  have hdeep : DeepEnough draftProgram {} n := deepEnough_draftProgram (by decide)
  have hloop : HeaderTarget ⟨5, defaultLoop⟩ ⟨7, defaultTarget⟩ := .loop (by decide) rfl rfl
  have hattempt : HeaderTarget ⟨13, attempt⟩ ⟨16, defaultTarget⟩ :=
    .handler ⟨15, handler⟩ (by decide) rfl rfl
  exact ⟨hdeep, ⟨rfl, hloop⟩, ⟨rfl, hattempt⟩, by decide +kernel, by decide +kernel,
    by decide +kernel⟩

end Flow

end Arbor
