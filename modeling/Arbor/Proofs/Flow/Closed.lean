import Arbor.Flow.Builder
import Arbor.Proofs.Subtree
import Mathlib.Tactic.Common

/-!
# Closed properties of steps

Many properties of steps hold of a step in several parts if they hold of each part, and hold of the
single steps that have nothing to do with them. Such a property holds of what a walk does at a node
if it holds of what the walk does inside the node. Left open are the steps that a property may be
about: the declarations of variables, and functions.
-/

namespace Arbor.Flow

open Node

/-- The event declares no variable and finishes nothing. -/
def Event.IsPlain : Event → Prop
  | .declared _ _ binding => binding = .implicit
  | .finished .. => False
  | .opened .. | .read .. | .written .. | .endless _ | .nullish _ => True

namespace Build

/-- The property holds of steps in a row if it holds of each, and of steps on the graph only. -/
structure Composes (P : (α : Type) → Build α → Prop) : Prop where
  bind : ∀ {α β : Type} {act : Build α} {next : α → Build β},
    P α act → (∀ a, P β (next a)) → P β (act >>= next)
  of_graph : ∀ {α : Type} {act : Build α},
    (∀ D, (act D).2.trace = D.trace ∧ (act D).2.scopes = D.scopes) → P α act

/-- The property holds also of steps that add one plain event. -/
structure Closed (P : (α : Type) → Build α → Prop) : Prop extends Composes P where
  emit : ∀ {e : Event}, e.IsPlain → P Unit (emit e)
  openScope : ∀ (kind : ScopeKind) (parent : Option Nat), P Nat (openScope kind parent)

variable {P : (α : Type) → Build α → Prop}

/-! ### Steps on the graph -/

namespace Composes

variable (hP : Composes P)
include hP

lemma pure {α : Type} (a : α) : P α (Pure.pure a) := hP.of_graph fun _ => ⟨rfl, rfl⟩

lemma get : P Draft MonadState.get := hP.of_graph fun _ => ⟨rfl, rfl⟩

lemma forM {γ : Type} {act : γ → Build Unit} (xs : List γ) (h : ∀ x ∈ xs, P Unit (act x)) :
    P Unit (xs.forM act) := by
  induction xs with
  | nil => exact hP.pure ()
  | cons x xs ih =>
    exact hP.bind (h x (by simp)) fun _ => ih fun y hy => h y (List.mem_cons_of_mem x hy)

lemma point (kind : PointKind) (n : Node) : P Nat (point kind n) :=
  hP.of_graph fun _ => ⟨rfl, rfl⟩

lemma edge (s t : Nat) (l : Option Label) (b : Bool) : P Unit (edge s t l b) :=
  hP.of_graph fun _ => ⟨rfl, rfl⟩

lemma link (ends : List OpenEnd) (target : Nat) : P Unit (link ends target) :=
  hP.forM ends fun _ _ => hP.of_graph fun _ => ⟨rfl, rfl⟩

lemma linkBack (ends : List OpenEnd) (head : Nat) : P Unit (linkBack ends head) :=
  hP.forM ends fun _ _ => hP.edge _ _ _ _

lemma pointAfter (kind : PointKind) (n : Node) (ends : List OpenEnd) :
    P Nat (pointAfter kind n ends) :=
  hP.bind (hP.point kind n) fun p => hP.bind (hP.link ends p) fun _ => hP.pure p

lemma linkToExits (ends : List OpenEnd) : P Unit (linkToExits ends) := by
  refine hP.bind hP.get fun D => ?_
  induction D.graph.exits with
  | nil => exact hP.pure _
  | cons exit exits ih =>
    have h := hP.bind (hP.link ends exit) fun _ => ih
    simpa using h

lemma join (n : Node) (ends : List OpenEnd) : P (List OpenEnd) (join n ends) := by
  cases ends with
  | nil => exact hP.pure []
  | cons first rest =>
    unfold Build.join
    dsimp only
    split_ifs
    · exact hP.pure [first]
    · exact hP.bind (hP.pointAfter .merge n _) fun _ => hP.pure _

lemma buildBreak (n : Node) (ends : List OpenEnd) (ctx : Context) :
    P (List OpenEnd) (Walker.buildBreak n ends ctx) := by
  refine hP.bind (hP.pointAfter _ n ends) fun p => ?_
  cases ctx.breakTarget? with
  | none => exact hP.pure []
  | some target => exact hP.bind (hP.edge _ _ _ _) fun _ => hP.pure []

lemma buildContinue (n : Node) (ends : List OpenEnd) (ctx : Context) :
    P (List OpenEnd) (Walker.buildContinue n ends ctx) := by
  refine hP.bind (hP.pointAfter _ n ends) fun p => ?_
  cases ctx.loopEntry with
  | none => exact hP.pure []
  | some head => exact hP.bind (hP.edge _ _ _ _) fun _ => hP.pure []

/-- Control comes out of a switch if something leads behind it. -/
lemma openEndsOf (merge : Nat) : P (List OpenEnd) (do
    if ((← MonadState.get).graph.predecessors merge).isEmpty then return []
    else return [OpenEnd.plain merge]) := by
  refine hP.bind hP.get fun D => ?_
  split_ifs
  · exact hP.pure _
  · exact hP.pure _

end Composes

namespace Closed

variable (hP : Closed P)
include hP

lemma declareImplicit (scope : Nat) (names : List Node) :
    P Unit (declare scope .implicit names) :=
  hP.forM names fun _ _ => hP.emit rfl

/-! ### Expressions -/

variable {w : Walker} {n : Node}

lemma checkReceiver (m : Node) (receiver : String) : P Unit (Walker.checkReceiver m receiver) := by
  unfold Walker.checkReceiver
  split_ifs
  · exact hP.emit trivial
  · exact hP.pure ()

section Expression

variable (he : ∀ m, m.Inside n → ∀ ctx, P Unit (w.expression m ctx))
include he

lemma visitAll {ms : List Node} (hms : ∀ m ∈ ms, m.Inside n) (ctx : Context) :
    P Unit (w.visitAll ms ctx) :=
  hP.forM ms fun m hm => he m (hms m hm) ctx

lemma visitChildren (ctx : Context) : P Unit (w.visitAll n.children ctx) :=
  hP.visitAll he (fun _ hm => inside_of_mem_children hm) ctx

lemma visitField (name : String) (ctx : Context) : P Unit (w.visitField n name ctx) :=
  hP.visitAll he (fun _ hm => inside_of_field? (Option.mem_toList.1 hm)) ctx

lemma visitTarget {m : Node} (hm : m.Inside n) (ctx : Context) : P Unit (w.visitTarget m ctx) := by
  simp only [Walker.visitTarget]
  split_ifs
  · exact hP.emit trivial
  · exact he _ (hm.of_mem_preorder m.unwrapped_mem_preorder) ctx

/-- The defaults in a target that stands inside a node stand inside it too. -/
lemma visitDefaults {m : Node} (hm : m.Inside n) (ctx : Context) :
    P Unit (w.visitAll m.bindingDefaults ctx) :=
  hP.visitAll he (fun _ hd => (inside_of_mem_bindingDefaults hd).trans hm) ctx

lemma visitUpdate (ctx : Context) : P Unit (w.visitUpdate n ctx) := by
  unfold Walker.visitUpdate
  cases (n.field? "argument").map Node.unwrapped with
  | none => exact hP.visitChildren he ctx
  | some target =>
    dsimp only
    split_ifs
    · exact hP.bind (hP.emit trivial) fun _ => hP.emit trivial
    · exact hP.visitChildren he ctx

lemma visitClass (ctx : Context) : P Unit (w.visitClass n ctx) := by
  refine hP.bind (hP.declareImplicit _ _) fun _ => hP.visitAll he (fun m hm => ?_) ctx
  exact inside_of_mem_children ((List.mem_filter.1 hm).1)

lemma declareParameter {p : Node} (hp : p ∈ n.parameters) (ctx : Context) : P Unit (do
    declare ctx.scope .implicit p.boundNames
    w.visitAll p.bindingDefaults ctx) :=
  hP.bind (hP.declareImplicit _ _) fun _ => hP.visitDefaults he (inside_of_mem_parameters hp) ctx

lemma declareParameters (ctx : Context) : P Unit (w.declareParameters n ctx) :=
  hP.forM _ fun _ hp => hP.declareParameter he hp ctx

/-- Visiting an expression has the property if visiting what is inside has, and if it has when the
expression is a declarator or a function. -/
theorem visitExpression {ctx : Context}
    (hdeclarator : expressionForm n = .declarator → P Unit (w.visitDeclarator n ctx))
    (hfunction : expressionForm n = .function → P Unit (w.visitFunction n ctx)) :
    P Unit (w.visitExpression n ctx) := by
  unfold Walker.visitExpression
  cases hform : expressionForm n with
  | name => exact hP.emit trivial
  | declarator => exact hdeclarator hform
  | assignment =>
    refine hP.bind (hP.visitField he _ ctx) fun _ => ?_
    cases hleft : n.field? "left" with
    | none => exact hP.pure ()
    | some left => exact hP.visitTarget he (inside_of_field? hleft) ctx
  | update => exact hP.visitUpdate he ctx
  | use receiver => exact hP.bind (hP.checkReceiver n receiver) fun _ => hP.visitChildren he ctx
  | inert => exact hP.pure ()
  | function => exact hfunction hform
  | classDef => exact hP.visitClass he ctx
  | compound => exact hP.visitChildren he ctx

end Expression

/-! ### Statements -/

lemma checkLoop (m : Node) : P Unit (Walker.checkLoop m) := by
  unfold Walker.checkLoop
  split_ifs
  · exact hP.emit trivial
  · exact hP.pure ()

section Statement

variable (hs : ∀ m, m.Inside n → ∀ ends ctx, P (List OpenEnd) (w.statement m ends ctx))
include hs

lemma buildField {m : Node} (hm : m ∈ n.preorder) (name : String) (ends : List OpenEnd)
    (ctx : Context) : P (List OpenEnd) (w.buildField m name ends ctx) := by
  unfold Walker.buildField
  cases hpart : m.field? name with
  | none => exact hP.pure ends
  | some part => exact hs part ((inside_of_field? hpart).up hm) ends ctx

lemma buildLabeled (ends : List OpenEnd) (ctx : Context) :
    P (List OpenEnd) (w.buildLabeled n ends ctx) := by
  unfold Walker.buildLabeled
  cases hbody : (n.field? "body").or n.children.getLast? with
  | none => exact hP.pure ends
  | some body => exact hs body (inside_of_field?_or_getLast? hbody) ends ctx

lemma buildLoop (ends : List OpenEnd) (ctx : Context) :
    P (List OpenEnd) (w.buildLoop n ends ctx) := by
  refine hP.bind (hP.point _ n) fun head => hP.bind (hP.point _ n) fun merge => ?_
  refine hP.bind (hP.link _ _) fun _ => ?_
  cases hbody : n.field? "body" with
  | none => exact hP.bind (hP.edge _ _ _ _) fun _ => hP.pure _
  | some body =>
    exact hP.bind (hs body (inside_of_field? hbody) _ _) fun _ => hP.bind (hP.linkBack _ _) fun _ =>
      hP.bind (hP.edge _ _ _ _) fun _ => hP.pure _

lemma buildHandler {handler : Node} (hh : handler.Inside n) (ends : List OpenEnd)
    (ctx : Context) : P (List OpenEnd) (w.buildHandler handler ends ctx) :=
  hP.bind (hP.openScope _ _) fun _ => hP.bind (hP.declareImplicit _ _) fun _ =>
    hP.buildField hs hh.mem_preorder "body" _ _

lemma buildTry (ends : List OpenEnd) (ctx : Context) :
    P (List OpenEnd) (w.buildTry n ends ctx) := by
  refine hP.bind (hP.buildField hs n.self_mem_preorder "body" ends ctx) fun tried => ?_
  cases hhandler : n.field? "handler"
  case' none => refine hP.bind (hP.pure []) fun caught => ?_
  case' some handler =>
    refine hP.bind (hP.buildHandler hs (inside_of_field? hhandler) ends ctx) fun caught => ?_
  -- With a handler or without one, what follows is the same.
  all_goals
    cases hfinalizer : n.field? "finalizer" with
    | none => exact hP.join n (tried ++ caught)
    | some finalizer =>
      have hinside := (inside_of_field? hfinalizer).of_mem_preorder
        (finalizer.field?_getD_mem_preorder "body")
      dsimp only
      split_ifs
      · exact hP.bind (hs _ hinside _ ctx) fun _ => hP.pure []
      · exact hs _ hinside _ ctx

end Statement

section All

variable (hs : ∀ m, m.Inside n → ∀ ends ctx, P (List OpenEnd) (w.statement m ends ctx))
  (he : ∀ m, m.Inside n → ∀ ctx, P Unit (w.expression m ctx))
include hs he

lemma buildAll {ms : List Node} (hms : ∀ m ∈ ms, m.Inside n) (ends : List OpenEnd)
    (ctx : Context) : P (List OpenEnd) (w.buildAll ms ends ctx) := by
  induction ms generalizing ends with
  | nil => exact hP.pure ends
  | cons m ms ih =>
    have hrest : ∀ m' ∈ ms, m'.Inside n := fun m' hm' => hms m' (List.mem_cons_of_mem m hm')
    refine hP.bind (hs m (hms m List.mem_cons_self) ends ctx) fun out => ?_
    split_ifs
    · refine hP.bind (hP.forM ms fun m' hm' => ?_) fun _ => hP.pure []
      exact hP.bind (hP.point _ m') fun _ => he m' (hrest m' hm') ctx
    · exact ih hrest out

lemma buildSequence {ms : List Node} (hms : ∀ m ∈ ms, m.Inside n) (ends : List OpenEnd)
    (ctx : Context) : P (List OpenEnd) (w.buildSequence ms ends ctx) :=
  hP.buildAll hs he (fun m hm => hms m ((List.mem_filter.1 hm).1)) ends ctx

lemma buildConditional (ends : List OpenEnd) (ctx : Context) :
    P (List OpenEnd) (w.buildConditional n ends ctx) :=
  hP.bind (hP.pointAfter _ n ends) fun _ => hP.bind (hP.visitField he _ ctx) fun _ =>
    hP.bind (hP.buildField hs n.self_mem_preorder _ _ ctx) fun _ =>
      hP.bind (hP.buildField hs n.self_mem_preorder _ _ ctx) fun _ => hP.join n _

lemma buildCases (branch : Nat) {cs : List Node} (hcs : ∀ c ∈ cs, c.Inside n)
    (ends : List OpenEnd) (ctx : Context) : P (List OpenEnd) (w.buildCases branch cs ends ctx) := by
  induction cs generalizing ends with
  | nil => exact hP.pure ends
  | cons c cs ih =>
    have hc := hcs c List.mem_cons_self
    refine hP.bind (hP.visitAll he (fun m hm => ?_) ctx) fun _ => ?_
    · exact (inside_of_field? (Option.mem_toList.1 hm)).trans hc
    refine hP.bind (hP.buildSequence hs he (fun m hm => ?_) _ ctx) fun out => ?_
    · exact (inside_of_mem_children ((List.mem_filter.1 hm).1)).trans hc
    · exact ih (fun c' hc' => hcs c' (List.mem_cons_of_mem c hc')) out

lemma buildSwitch (ends : List OpenEnd) (ctx : Context) :
    P (List OpenEnd) (w.buildSwitch n ends ctx) := by
  refine hP.bind (hP.pointAfter _ n ends) fun branch => hP.bind (hP.visitField he _ ctx) fun _ => ?_
  refine hP.bind (hP.point _ n) fun merge => hP.bind (hP.openScope _ _) fun scope => ?_
  have hcases := hP.buildCases hs he branch (fun _ => inside_of_mem_switchCases) []
  refine hP.bind (hcases _) fun out => hP.bind (hP.link out merge) fun _ => ?_
  split_ifs
  · exact hP.bind (hP.edge _ _ _ _) fun _ => hP.openEndsOf merge
  · exact hP.openEndsOf merge

lemma buildFor (ends : List OpenEnd) (ctx : Context) :
    P (List OpenEnd) (w.buildFor n ends ctx) :=
  hP.bind (hP.openScope _ _) fun _ => hP.bind (hP.visitField he _ _) fun _ =>
    hP.bind (hP.visitField he _ _) fun _ => hP.bind (hP.visitField he _ _) fun _ =>
      hP.bind (hP.checkLoop n) fun _ => hP.buildLoop hs ends _

lemma buildForEach (hleft : ∀ scope left, n.field? "left" = some left →
      P Unit (declare scope .initialized left.boundNames)) (ends : List OpenEnd) (ctx : Context) :
    P (List OpenEnd) (w.buildForEach n ends ctx) := by
  refine hP.bind (hP.openScope _ _) fun scope => hP.bind (hP.visitField he _ ctx) fun _ => ?_
  have hloop := hP.buildLoop hs ends (ctx.withScope scope)
  cases hfield : n.field? "left" with
  | none => exact hloop
  | some left =>
    dsimp only
    split_ifs
    · exact hP.bind (hleft scope left hfield) fun _ => hloop
    · exact hP.bind (hP.visitTarget he (inside_of_field? hfield) _) fun _ => hloop

lemma buildWhile (ends : List OpenEnd) (ctx : Context) :
    P (List OpenEnd) (w.buildWhile n ends ctx) :=
  hP.bind (hP.openScope _ _) fun _ => hP.bind (hP.visitField he _ _) fun _ =>
    hP.bind (hP.checkLoop n) fun _ => hP.buildLoop hs ends _

lemma buildDoWhile (ends : List OpenEnd) (ctx : Context) :
    P (List OpenEnd) (w.buildDoWhile n ends ctx) :=
  hP.bind (hP.openScope _ _) fun _ => hP.bind (hP.point _ n) fun _ =>
    hP.bind (hP.point _ n) fun _ => hP.bind (hP.buildField hs n.self_mem_preorder _ _ _) fun _ =>
      hP.bind (hP.linkBack _ _) fun _ => hP.bind (hP.visitField he _ _) fun _ =>
        hP.bind (hP.edge _ _ _ _) fun _ => hP.pure _

/-- Building a statement has the property if building what is inside has, if visiting the statement
as an expression has, and if the declaration in the header of a loop has. -/
theorem buildStatement {ctx : Context} (hvisit : P Unit (w.visitExpression n ctx))
    (hleft : n.construct = .forEach → ∀ scope left, n.field? "left" = some left →
      P Unit (declare scope .initialized left.boundNames)) (ends : List OpenEnd) :
    P (List OpenEnd) (w.buildStatement n ends ctx) := by
  unfold Walker.buildStatement
  cases hconstruct : n.construct with
  | block | elseClause | switchCase | switchDefault =>
    exact hP.buildSequence hs he (fun _ hm => inside_of_mem_children hm) ends ctx
  | conditional => exact hP.buildConditional hs he ends ctx
  | forLoop => exact hP.buildFor hs he ends ctx
  | forEach => exact hP.buildForEach hs he (hleft hconstruct) ends ctx
  | whileLoop => exact hP.buildWhile hs he ends ctx
  | doWhile => exact hP.buildDoWhile hs he ends ctx
  | switch => exact hP.buildSwitch hs he ends ctx
  | tryCatch => exact hP.buildTry hs ends ctx
  | returnJump =>
    exact hP.bind (hP.pointAfter _ n ends) fun _ => hP.bind (hP.visitChildren he ctx) fun _ =>
      hP.bind (hP.linkToExits _) fun _ => hP.pure []
  | throwJump =>
    exact hP.bind (hP.pointAfter _ n ends) fun _ => hP.bind (hP.visitChildren he ctx) fun _ =>
      hP.pure []
  | breakJump => exact hP.buildBreak n ends ctx
  | continueJump => exact hP.buildContinue n ends ctx
  | labeled => exact hP.buildLabeled hs ends ctx
  | ignored => exact hP.pure ends
  | declaration | function | classDef | statement =>
    exact hP.bind (hP.pointAfter _ n ends) fun _ => hP.bind hvisit fun _ => hP.pure _

lemma buildBody (ends : List OpenEnd) (ctx : Context) :
    P (List OpenEnd) (w.buildBody n ends ctx) := by
  unfold Walker.buildBody
  cases hbody : n.field? "body" with
  | none => exact hP.pure ends
  | some body =>
    have hinside := inside_of_field? hbody
    dsimp only
    split_ifs
    · exact hs body hinside ends ctx
    · exact hP.bind (hP.pointAfter _ body ends) fun _ => hP.bind (he body hinside ctx) fun _ =>
        hP.bind (hP.linkToExits _) fun _ => hP.pure []

end All

end Closed

end Build

end Arbor.Flow
