import Arbor.Flow.Analysis
import Arbor.Proofs.Flow.Edges
import Arbor.Proofs.Flow.Skeleton
import Mathlib.Tactic.Common

/-!
# Building follows the skeleton

Visiting an expression leaves the graph alone, whatever functions the expression holds: each of them
is built on a graph of its own, which is put away afterwards. What building a statement does to the
graph is therefore what building its skeleton does.
-/

namespace Arbor.Flow

namespace Build

variable {α β : Type}

/-! ### Steps that leave the graph alone -/

/-- The step leaves the graph as it was. -/
def KeepsGraph (act : Build α) : Prop := ∀ d : Draft, (act d).2.graph = d.graph

lemma KeepsGraph.pure (a : α) : KeepsGraph (Pure.pure a : Build α) := fun _ => rfl

lemma KeepsGraph.bind {act : Build α} {next : α → Build β} (h : act.KeepsGraph)
    (hn : ∀ a, (next a).KeepsGraph) : (act >>= next).KeepsGraph := by
  intro d
  exact (hn _ _).trans (h d)

lemma KeepsGraph.forM {γ : Type} {act : γ → Build Unit} (xs : List γ)
    (h : ∀ x ∈ xs, (act x).KeepsGraph) : (xs.forM act).KeepsGraph := by
  induction xs with
  | nil => exact .pure ()
  | cons x xs ih =>
    refine .bind (h x (by simp)) fun _ => ih fun y hy => h y ?_
    exact List.mem_cons_of_mem x hy

lemma KeepsGraph.emit (e : Event) : (emit e).KeepsGraph := fun _ => rfl

lemma KeepsGraph.openScope (kind : ScopeKind) (parent : Option Nat) :
    (openScope kind parent).KeepsGraph := fun _ => rfl

lemma KeepsGraph.declare (scope : Nat) (binding : Binding) (names : List Node) :
    (declare scope binding names).KeepsGraph :=
  .forM names fun _ _ => .emit _

/-- Whatever is done on a graph of its own does not show in the graph from before. -/
lemma KeepsGraph.onFreshGraph (span : Span) (act : Build Unit) :
    (onFreshGraph span act).KeepsGraph := fun _ => rfl

/-! ### Steps as functions on graphs -/

/-- The step works on the graph as a function does, and gives the same result. -/
def Follows (act : Build α) (f : Graph → α × Graph) : Prop :=
  ∀ d : Draft, ((act d).1, (act d).2.graph) = f d.graph

lemma Follows.fst {act : Build α} {f : Graph → α × Graph} (h : act.Follows f) (d : Draft) :
    (act d).1 = (f d.graph).1 := congrArg Prod.fst (h d)

lemma Follows.graph {act : Build α} {f : Graph → α × Graph} (h : act.Follows f) (d : Draft) :
    (act d).2.graph = (f d.graph).2 := congrArg Prod.snd (h d)

lemma Follows.pure (a : α) : Follows (Pure.pure a : Build α) (a, ·) := fun _ => rfl

lemma Follows.bind {act : Build α} {next : α → Build β} {f : Graph → α × Graph}
    {k : α → Graph → β × Graph} (h : act.Follows f) (hn : ∀ a, (next a).Follows (k a)) :
    (act >>= next).Follows fun g => k (f g).1 (f g).2 := by
  intro d
  calc (((act >>= next) d).1, ((act >>= next) d).2.graph)
    _ = k (act d).1 (act d).2.graph := hn (act d).1 (act d).2
    _ = k (f d.graph).1 (f d.graph).2 := by rw [h.fst, h.graph]

lemma KeepsGraph.bind_follows {act : Build α} {next : α → Build β} {f : Graph → β × Graph}
    (h : act.KeepsGraph) (hn : ∀ a, (next a).Follows f) : (act >>= next).Follows f := by
  intro d
  have hnext := hn (act d).1 (act d).2
  rw [h d] at hnext
  exact hnext

lemma KeepsGraph.follows {act : Build Unit} (h : act.KeepsGraph) : act.Follows ((), ·) := by
  intro d
  rw [← h d]

/-- A step that only changes the graph, before another. -/
lemma Follows.then {act : Build Unit} {next : Build β} {f : Graph → Graph}
    {k : Graph → β × Graph} (h : act.Follows fun g => ((), f g)) (hn : next.Follows k) :
    (act >>= fun _ => next).Follows fun g => k (f g) :=
  .bind h fun _ => hn

lemma follows_point (kind : PointKind) (n : Node) :
    (point kind n).Follows fun g => (g.points.size, g.addPoint kind n.span (some n)) := fun _ => rfl

lemma follows_edge (e : Edge) :
    (edge e.source e.target e.label e.back).Follows fun g => ((), g.addEdge e) := fun _ => rfl

lemma follows_link (ends : List OpenEnd) (target : Nat) :
    (link ends target).Follows fun g => ((), g.addEdges (ends.map (·.edgeTo target))) := by
  induction ends with
  | nil => exact .pure ()
  | cons e ends ih => exact .then (f := fun g => g.addEdge (e.edgeTo target)) (fun _ => rfl) ih

lemma follows_linkBack (ends : List OpenEnd) (head : Nat) :
    (linkBack ends head).Follows fun g => ((), g.addEdges (ends.map (·.backTo head))) := by
  induction ends with
  | nil => exact .pure ()
  | cons e ends ih => exact .then (f := fun g => g.addEdge (e.backTo head)) (fun _ => rfl) ih

lemma follows_pointAfter (kind : PointKind) (n : Node) (ends : List OpenEnd) :
    (pointAfter kind n ends).Follows fun g => (g.points.size, g.pointAfter kind n ends) :=
  .bind (follows_point kind n) fun p => .then (follows_link ends p) (.pure p)

lemma follows_join (n : Node) (ends : List OpenEnd) :
    (join n ends).Follows fun g => g.join n ends := by
  cases ends with
  | nil => exact .pure []
  | cons first rest =>
    simp only [join, Graph.join]
    split_ifs with h
    · exact .pure [first]
    · exact .bind (follows_pointAfter .merge n (first :: rest)) fun p =>
        .pure [OpenEnd.plain p]

lemma follows_linkToExits (ends : List OpenEnd) :
    (linkToExits ends).Follows fun g => ((), g.toExits ends) := by
  have hexits (exits : List Nat) : Follows (do
      for exit in exits do
        link ends exit) fun g =>
          ((), g.addEdges (exits.flatMap fun exit => ends.map (·.edgeTo exit))) := by
    induction exits with
    | nil => exact .pure ()
    | cons exit exits ih =>
      intro d
      have h := Follows.then (follows_link ends exit) ih d
      simpa [Graph.addEdges] using h
  intro d
  exact hexits d.graph.exits d

lemma follows_leaveFunction (p : Nat) :
    Follows (do
      linkToExits [OpenEnd.plain p]
      return ([] : List OpenEnd)) fun g => ([], g.toExits [.plain p]) :=
  .then (follows_linkToExits [.plain p]) (.pure [])

lemma follows_closeSwitch (branch merge : Nat) (hasDefault : Bool) (ends : List OpenEnd) :
    Follows (do
      link ends merge
      if !hasDefault then edge branch merge (some .onDefault) false
      if ((← get).graph.predecessors merge).isEmpty then return []
      else return [OpenEnd.plain merge]) fun g =>
        ((g.closeSwitch branch merge hasDefault ends).endAt merge,
          g.closeSwitch branch merge hasDefault ends) := by
  have hout : Follows (do
      if ((← get).graph.predecessors merge).isEmpty then return []
      else return [OpenEnd.plain merge]) fun g => (g.endAt merge, g) := by
    intro d
    have hget : ∀ act : Draft → Build (List OpenEnd), (get >>= act) d = act d d := fun _ => rfl
    rw [hget]
    dsimp only [Graph.endAt]
    split_ifs <;> rfl
  cases hasDefault with
  | true => exact .then (follows_link ends merge) hout
  | false =>
    exact .then (follows_link ends merge)
      (.then (follows_edge ⟨branch, merge, some .onDefault, false⟩) hout)

end Build

namespace Walker

open Build

variable {w : Walker} {sk : Node → Skeleton}

/-! ### Expressions -/

lemma keepsGraph_visitFunction (n : Node) (ctx : Context) :
    (w.visitFunction n ctx).KeepsGraph := by
  unfold visitFunction
  split_ifs
  · exact .bind (.declare _ _ _) fun _ => .onFreshGraph _ _
  · exact .onFreshGraph _ _

lemma keepsGraph_checkReceiver (n : Node) (receiver : String) :
    (checkReceiver n receiver).KeepsGraph := by
  unfold checkReceiver
  split_ifs
  · exact .emit _
  · exact .pure ()

section Expression

variable (he : ∀ n ctx, (w.expression n ctx).KeepsGraph)
include he

lemma keepsGraph_visitAll (ns : List Node) (ctx : Context) : (w.visitAll ns ctx).KeepsGraph :=
  .forM ns fun n _ => he n ctx

lemma keepsGraph_visitField (n : Node) (name : String) (ctx : Context) :
    (w.visitField n name ctx).KeepsGraph :=
  keepsGraph_visitAll he _ ctx

lemma keepsGraph_visitTarget (n : Node) (ctx : Context) : (w.visitTarget n ctx).KeepsGraph := by
  simp only [visitTarget]
  split_ifs
  · exact .emit _
  · exact he _ ctx

lemma keepsGraph_visitDeclarator (n : Node) (ctx : Context) :
    (w.visitDeclarator n ctx).KeepsGraph := by
  refine .bind (keepsGraph_visitField he n _ ctx) fun _ => ?_
  cases n.field? "name" with
  | none => exact .pure ()
  | some target => exact .bind (.declare _ _ _) fun _ => keepsGraph_visitAll he _ ctx

lemma keepsGraph_visitUpdate (n : Node) (ctx : Context) : (w.visitUpdate n ctx).KeepsGraph := by
  unfold visitUpdate
  cases (n.field? "argument").map Node.unwrapped with
  | none => exact keepsGraph_visitAll he _ ctx
  | some target =>
    dsimp only
    split_ifs
    · exact .bind (.emit _) fun _ => .emit _
    · exact keepsGraph_visitAll he _ ctx

lemma keepsGraph_visitClass (n : Node) (ctx : Context) : (w.visitClass n ctx).KeepsGraph :=
  .bind (.declare _ _ _) fun _ => keepsGraph_visitAll he _ ctx

/-- Visiting an expression leaves the graph alone if visiting its parts does. -/
theorem keepsGraph_visitExpression (n : Node) (ctx : Context) :
    (w.visitExpression n ctx).KeepsGraph := by
  unfold visitExpression
  cases expressionForm n with
  | name => exact .emit _
  | declarator => exact keepsGraph_visitDeclarator he n ctx
  | assignment =>
    refine .bind (keepsGraph_visitField he n _ ctx) fun _ => ?_
    cases n.field? "left" with
    | none => exact .pure ()
    | some left => exact keepsGraph_visitTarget he left ctx
  | update => exact keepsGraph_visitUpdate he n ctx
  | use receiver =>
    exact .bind (keepsGraph_checkReceiver n receiver) fun _ => keepsGraph_visitAll he _ ctx
  | inert => exact .pure ()
  | function => exact keepsGraph_visitFunction n ctx
  | classDef => exact keepsGraph_visitClass he n ctx
  | compound => exact keepsGraph_visitAll he _ ctx

lemma keepsGraph_declareParameters (n : Node) (ctx : Context) :
    (w.declareParameters n ctx).KeepsGraph :=
  .forM _ fun _ _ => .bind (.declare _ _ _) fun _ => keepsGraph_visitAll he _ ctx

lemma follows_buildDead (ns : List Node) (ctx : Context) :
    (ns.forM (w.buildDead · ctx)).Follows fun g => ((), g.addDead ns) := by
  induction ns with
  | nil => exact .pure ()
  | cons n ns ih =>
    refine .then (f := fun g => g.addPoint .statement n.span (some n)) ?_ ih
    exact .bind (follows_point .statement n) fun _ => (he n ctx).follows

lemma follows_buildPlain (n : Node) (ends : List OpenEnd) (ctx : Context) :
    (w.buildPlain n ends ctx).Follows ((Skeleton.plain n).build ctx.targets ends) :=
  .bind (follows_pointAfter .statement n ends) fun p =>
    (keepsGraph_visitExpression he n ctx).bind_follows fun _ => .pure [OpenEnd.plain p]

lemma follows_buildReturn (n : Node) (ends : List OpenEnd) (ctx : Context) :
    (w.buildReturn n ends ctx).Follows ((Skeleton.leave .returns n).build ctx.targets ends) := by
  have h := (follows_pointAfter .returnJump n ends).bind fun p =>
    (keepsGraph_visitAll he n.children ctx).bind_follows fun _ => follows_leaveFunction p
  intro d
  exact (h d).trans (Skeleton.build_returns _ n ends d.graph).symm

end Expression

/-! ### Statements whose parts are statements -/

section Statement

variable (hs : ∀ n ends ctx, (w.statement n ends ctx).Follows ((sk n).build ctx.targets ends))
include hs

lemma follows_buildField (n : Node) (name : String) (ends : List OpenEnd) (ctx : Context) :
    (w.buildField n name ends ctx).Follows
      ((Skeleton.part sk (n.field? name)).build ctx.targets ends) := by
  unfold buildField
  cases n.field? name with
  | none => exact .pure ends
  | some part => exact hs part ends ctx

lemma follows_buildLabeled (n : Node) (ends : List OpenEnd) (ctx : Context) :
    (w.buildLabeled n ends ctx).Follows
      ((Skeleton.part sk ((n.field? "body").or n.children.getLast?)).build ctx.targets ends) := by
  unfold buildLabeled
  cases (n.field? "body").or n.children.getLast? with
  | none => exact .pure ends
  | some body => exact hs body ends ctx

lemma follows_buildLoop (n : Node) (ends : List OpenEnd) (ctx : Context) :
    (w.buildLoop n ends ctx).Follows ((Skeleton.loopOf sk n).build ctx.targets ends) := by
  unfold buildLoop Skeleton.loopOf
  cases n.field? "body" with
  | none =>
    have h := Follows.bind (follows_point .loop n) fun head =>
      Follows.bind (follows_point .merge n) fun merge =>
        Follows.then (follows_link ends head) <|
          Follows.then (follows_edge ⟨head, merge, some .whenFalse, false⟩)
            (.pure [OpenEnd.plain merge])
    intro d
    simp only [Skeleton.build, Graph.closeLoop, ← Graph.addPoint_size .loop n.span (some n)]
    exact h d
  | some body =>
    have hbody (head merge : Nat) :
        (w.statement body [.labelled head .whenTrue] (ctx.inLoop ctx.scope head merge)).Follows
          ((sk body).build ⟨some merge, some head⟩ [.labelled head .whenTrue]) :=
      hs body _ _
    have h := Follows.bind (follows_point .loop n) fun head =>
      Follows.bind (follows_point .merge n) fun merge =>
        Follows.then (follows_link ends head) <|
          Follows.bind (hbody head merge) fun out =>
            Follows.then (follows_linkBack out head) <|
              Follows.then (follows_edge ⟨head, merge, some .whenFalse, false⟩)
                (.pure [OpenEnd.plain merge])
    intro d
    simp only [Skeleton.build, Graph.closeLoop, ← Graph.addPoint_size .loop n.span (some n)]
    exact h d

lemma follows_buildHandler (handler : Node) (ends : List OpenEnd) (ctx : Context) :
    (w.buildHandler handler ends ctx).Follows
      ((Skeleton.part sk (handler.field? "body")).build ctx.targets
        (ends.map (·.relabel .onCatch))) :=
  (KeepsGraph.openScope .catchClause (some ctx.scope)).bind_follows fun scope =>
    (KeepsGraph.declare _ _ _).bind_follows fun _ =>
      follows_buildField hs handler "body" _ (ctx.withScope scope)

/-- The parts of a try statement in front of its last part, and whatever follows them. -/
lemma follows_guarded {rest : List OpenEnd → Build (List OpenEnd)}
    {f : List OpenEnd → Graph → List OpenEnd × Graph} (hrest : ∀ out, (rest out).Follows (f out))
    (n : Node) (ends : List OpenEnd) (ctx : Context) :
    Follows (do
      let tried ← w.buildField n "body" ends ctx
      let caught ← match n.field? "handler" with
        | some handler => w.buildHandler handler ends ctx
        | none => pure []
      rest (tried ++ caught)) fun g =>
        f ((Skeleton.guarded sk n).build ctx.targets ends g).1
          ((Skeleton.guarded sk n).build ctx.targets ends g).2 := by
  have hbody := follows_buildField hs n "body" ends ctx
  unfold Skeleton.guarded
  cases n.field? "handler" with
  | some handler =>
    have h := hbody.bind fun tried =>
      (follows_buildHandler hs handler ends ctx).bind fun caught => hrest (tried ++ caught)
    intro d
    simp only [Skeleton.build]
    exact h d
  | none =>
    have h := hbody.bind fun tried => hrest (tried ++ [])
    intro d
    exact (h d).trans (by simp only [List.append_nil])

lemma follows_buildTry (n : Node) (ends : List OpenEnd) (ctx : Context) :
    (w.buildTry n ends ctx).Follows ((Skeleton.tryOf sk n).build ctx.targets ends) := by
  unfold buildTry Skeleton.tryOf
  cases n.field? "finalizer" with
  | none =>
    have h := follows_guarded hs (follows_join n) n ends ctx
    intro d
    rw [Skeleton.build]
    exact h d
  | some finalizer =>
    have hlast (out : List OpenEnd) : Follows (do
        if out.isEmpty then
          let _ ← w.statement ((finalizer.field? "body").getD finalizer)
            (ends.map (·.relabel .onFinally)) ctx
          return []
        else
          w.statement ((finalizer.field? "body").getD finalizer)
            (out.map (·.relabel .onFinally)) ctx) fun g =>
          if out.isEmpty then
            ([], ((sk ((finalizer.field? "body").getD finalizer)).build ctx.targets
              (ends.map (·.relabel .onFinally)) g).2)
          else (sk ((finalizer.field? "body").getD finalizer)).build ctx.targets
            (out.map (·.relabel .onFinally)) g := by
      cases out with
      | nil => exact .bind (hs _ _ ctx) fun _ => .pure []
      | cons e out => exact hs _ _ ctx
    have h := follows_guarded hs hlast n ends ctx
    intro d
    rw [Skeleton.build]
    exact h d

end Statement

/-! ### All statements -/

lemma keepsGraph_checkLoop (n : Node) : (checkLoop n).KeepsGraph := by
  unfold checkLoop
  split_ifs
  · exact .emit _
  · exact .pure ()

lemma follows_buildBreak (n : Node) (ends : List OpenEnd) (ctx : Context) :
    (buildBreak n ends ctx).Follows ((Skeleton.leave .breaks n).build ctx.targets ends) := by
  have hlink := follows_pointAfter .breakJump n ends
  cases ht : ctx.breakTarget? with
  | none =>
    have h := hlink.bind fun _ => .pure ([] : List OpenEnd)
    intro d
    simp only [Skeleton.build, Targets.of, Context.targets, ht]
    simp only [buildBreak, ht]
    exact h d
  | some target =>
    have h := hlink.bind fun p => Follows.then (follows_edge ⟨p, target, some .onBreak, false⟩)
      (.pure ([] : List OpenEnd))
    intro d
    simp only [Skeleton.build, Targets.of, Context.targets, ht]
    simp only [buildBreak, ht]
    exact h d

lemma follows_buildContinue (n : Node) (ends : List OpenEnd) (ctx : Context) :
    (buildContinue n ends ctx).Follows ((Skeleton.leave .continues n).build ctx.targets ends) := by
  have hlink := follows_pointAfter .continueJump n ends
  cases ht : ctx.loopEntry with
  | none =>
    have h := hlink.bind fun _ => .pure ([] : List OpenEnd)
    intro d
    simp only [Skeleton.build, Targets.of, Context.targets, ht]
    simp only [buildContinue, ht]
    exact h d
  | some head =>
    have h := hlink.bind fun p => Follows.then (follows_edge ⟨p, head, some .onContinue, true⟩)
      (.pure ([] : List OpenEnd))
    intro d
    simp only [Skeleton.build, Targets.of, Context.targets, ht]
    simp only [buildContinue, ht]
    exact h d

section All

variable (hs : ∀ n ends ctx, (w.statement n ends ctx).Follows ((sk n).build ctx.targets ends))
  (he : ∀ n ctx, (w.expression n ctx).KeepsGraph)
include hs he

lemma follows_buildAll (ns : List Node) (ends : List OpenEnd) (ctx : Context) :
    (w.buildAll ns ends ctx).Follows ((Skeleton.sequence sk ns).build ctx.targets ends) := by
  induction ns generalizing ends with
  | nil => exact .pure ends
  | cons n ns ih =>
    simp only [buildAll, Skeleton.sequence, Skeleton.build]
    refine .bind (k := fun out g => if out.isEmpty then ([], g.addDead ns)
      else (Skeleton.sequence sk ns).build ctx.targets out g) (hs n ends ctx) fun out => ?_
    cases out with
    | nil => exact .then (follows_buildDead he ns ctx) (.pure [])
    | cons e out => exact ih (e :: out)

lemma follows_buildSequence (ns : List Node) (ends : List OpenEnd) (ctx : Context) :
    (w.buildSequence ns ends ctx).Follows ((Skeleton.statements sk ns).build ctx.targets ends) :=
  follows_buildAll hs he _ ends ctx

lemma follows_buildConditional (n : Node) (ends : List OpenEnd) (ctx : Context) :
    (w.buildConditional n ends ctx).Follows
      ((Skeleton.joined n (.branch n (.part sk (n.field? "consequence"))
        (.part sk (n.field? "alternative")))).build ctx.targets ends) := by
  have h := Follows.bind (follows_pointAfter .branch n ends) fun branch =>
    (keepsGraph_visitField he n "condition" ctx).bind_follows fun _ =>
      Follows.bind (follows_buildField hs n "consequence" [.labelled branch .whenTrue] ctx)
        fun taken =>
          Follows.bind (follows_buildField hs n "alternative" [.labelled branch .whenFalse] ctx)
            fun passed => follows_join n (taken ++ passed)
  exact h

lemma follows_buildCases (branch : Nat) (cs : List Node) (ends : List OpenEnd) (ctx : Context) :
    (w.buildCases branch cs ends ctx).Follows
      ((Cases.ofNodes sk cs).build branch ctx.targets ends) := by
  induction cs generalizing ends with
  | nil => exact .pure ends
  | cons c cs ih =>
    have h := (keepsGraph_visitField he c "value" ctx).bind_follows fun _ =>
      Follows.bind (follows_buildSequence hs he (caseStatements c)
        (ends ++ [.labelled branch (caseLabel c)]) ctx) ih
    exact h

lemma follows_buildSwitch (n : Node) (ends : List OpenEnd) (ctx : Context) :
    (w.buildSwitch n ends ctx).Follows
      ((Skeleton.switch n (.ofNodes sk (switchCases n))).build ctx.targets ends) := by
  have hcases (branch merge scope : Nat) :
      (w.buildCases branch (switchCases n) [] (ctx.inSwitch scope merge)).Follows
        ((Cases.ofNodes sk (switchCases n)).build branch ⟨some merge, ctx.loopEntry⟩ []) :=
    follows_buildCases hs he branch _ [] _
  have h := Follows.bind (follows_pointAfter .branch n ends) fun branch =>
    (keepsGraph_visitField he n "value" ctx).bind_follows fun _ =>
      Follows.bind (follows_point .merge n) fun merge =>
        (KeepsGraph.openScope .switch (some ctx.scope)).bind_follows fun scope =>
          Follows.bind (hcases branch merge scope) fun out => follows_closeSwitch branch merge
            ((switchCases n).any (·.construct == .switchDefault)) out
  intro d
  rw [Skeleton.build, Cases.hasDefault_ofNodes]
  exact h d

lemma follows_buildDoWhile (n : Node) (ends : List OpenEnd) (ctx : Context) :
    (w.buildDoWhile n ends ctx).Follows
      ((Skeleton.doWhile n (.part sk (n.field? "body"))).build ctx.targets ends) := by
  have hbody (scope head merge : Nat) :
      (w.buildField n "body" (ends ++ [⟨head, some .whenTrue, true⟩])
        (ctx.inLoop scope head merge)).Follows
          ((Skeleton.part sk (n.field? "body")).build ⟨some merge, some head⟩
            (ends ++ [⟨head, some .whenTrue, true⟩])) :=
    follows_buildField hs n _ _ _
  have h := (KeepsGraph.openScope .loop (some ctx.scope)).bind_follows fun scope =>
    Follows.bind (follows_point .loop n) fun head =>
      Follows.bind (follows_point .merge n) fun merge =>
        Follows.bind (hbody scope head merge) fun out =>
          Follows.then (follows_linkBack out head) <|
            (keepsGraph_visitField he n "condition" (ctx.inLoop scope head merge)).bind_follows
              fun _ => Follows.then (follows_edge ⟨head, merge, some .whenFalse, false⟩)
                (.pure [OpenEnd.plain merge])
  intro d
  simp only [Skeleton.build, Graph.closeLoop, ← Graph.addPoint_size .loop n.span (some n)]
  exact h d

lemma follows_buildFor (n : Node) (ends : List OpenEnd) (ctx : Context) :
    (w.buildFor n ends ctx).Follows ((Skeleton.loopOf sk n).build ctx.targets ends) :=
  (KeepsGraph.openScope .loop (some ctx.scope)).bind_follows fun scope =>
    (keepsGraph_visitField he n _ (ctx.withScope scope)).bind_follows fun _ =>
      (keepsGraph_visitField he n _ (ctx.withScope scope)).bind_follows fun _ =>
        (keepsGraph_visitField he n _ (ctx.withScope scope)).bind_follows fun _ =>
          (keepsGraph_checkLoop n).bind_follows fun _ =>
            follows_buildLoop hs n ends (ctx.withScope scope)

lemma follows_buildForEach (n : Node) (ends : List OpenEnd) (ctx : Context) :
    (w.buildForEach n ends ctx).Follows ((Skeleton.loopOf sk n).build ctx.targets ends) := by
  refine (KeepsGraph.openScope .loop (some ctx.scope)).bind_follows fun scope => ?_
  refine (keepsGraph_visitField he n _ ctx).bind_follows fun _ => ?_
  have hloop := follows_buildLoop hs n ends (ctx.withScope scope)
  cases n.field? "left" with
  | none => exact hloop
  | some left =>
    dsimp only
    split_ifs
    · exact (KeepsGraph.declare _ _ _).bind_follows fun _ => hloop
    · exact (keepsGraph_visitTarget he left _).bind_follows fun _ => hloop

lemma follows_buildWhile (n : Node) (ends : List OpenEnd) (ctx : Context) :
    (w.buildWhile n ends ctx).Follows ((Skeleton.loopOf sk n).build ctx.targets ends) :=
  (KeepsGraph.openScope .loop (some ctx.scope)).bind_follows fun scope =>
    (keepsGraph_visitField he n _ (ctx.withScope scope)).bind_follows fun _ =>
      (keepsGraph_checkLoop n).bind_follows fun _ =>
        follows_buildLoop hs n ends (ctx.withScope scope)

/-- Building a statement follows its skeleton if building its parts does. -/
theorem follows_buildStatement (n : Node) (ends : List OpenEnd) (ctx : Context) :
    (w.buildStatement n ends ctx).Follows ((Skeleton.ofNode sk n).build ctx.targets ends) := by
  unfold buildStatement Skeleton.ofNode
  cases n.construct with
  | block | elseClause | switchCase | switchDefault => exact follows_buildSequence hs he _ ends ctx
  | conditional => exact follows_buildConditional hs he n ends ctx
  | forLoop => exact follows_buildFor hs he n ends ctx
  | forEach => exact follows_buildForEach hs he n ends ctx
  | whileLoop => exact follows_buildWhile hs he n ends ctx
  | doWhile => exact follows_buildDoWhile hs he n ends ctx
  | switch => exact follows_buildSwitch hs he n ends ctx
  | tryCatch => exact follows_buildTry hs n ends ctx
  | returnJump => exact follows_buildReturn he n ends ctx
  | throwJump =>
    exact (follows_pointAfter .throwJump n ends).bind fun _ =>
      (keepsGraph_visitAll he n.children ctx).bind_follows fun _ => .pure []
  | breakJump => exact follows_buildBreak n ends ctx
  | continueJump => exact follows_buildContinue n ends ctx
  | labeled => exact follows_buildLabeled hs n ends ctx
  | ignored => exact .pure ends
  | declaration | function | classDef | statement => exact follows_buildPlain he n ends ctx

/-! ### Functions -/

lemma follows_buildBody (n : Node) (ends : List OpenEnd) (ctx : Context) :
    (w.buildBody n ends ctx).Follows ((Skeleton.ofBody sk n).build ctx.targets ends) := by
  unfold buildBody Skeleton.ofBody
  cases n.field? "body" with
  | none => exact .pure ends
  | some body =>
    dsimp only
    split_ifs
    · exact hs body ends ctx
    · have h := (follows_pointAfter .returnJump body ends).bind fun p =>
        (he body ctx).bind_follows fun _ => follows_leaveFunction p
      intro d
      exact (h d).trans (Skeleton.build_returns _ body ends d.graph).symm

/-- Building a function follows the skeleton of its body, from the entry of the graph on. -/
theorem follows_buildFunction (n : Node) (ctx : Context) :
    (w.buildFunction n ctx).Follows fun g => ((), (Skeleton.ofBody sk n).graphFrom g) := by
  have hbody (scope : Nat) : Follows (do
      w.declareParameters n (.root scope)
      let entry := OpenEnd.plain (← get).graph.entry
      let ends ← w.buildBody n [entry] (.root scope)
      linkToExits ends
      emit (.finished (some n) (← get).graph)) fun g =>
        ((), (Skeleton.ofBody sk n).graphFrom g) := by
    refine (keepsGraph_declareParameters he n (.root scope)).bind_follows fun _ d => ?_
    have h := (follows_buildBody hs he n [.plain d.graph.entry] (.root scope)).bind
      follows_linkToExits
    exact h d
  refine (KeepsGraph.openScope .function (some ctx.scope)).bind_follows fun scope => ?_
  dsimp only
  split_ifs
  · exact (KeepsGraph.declare _ _ _).bind_follows fun _ => hbody scope
  · exact hbody scope

end All

end Walker

/-- Visiting an expression leaves the graph alone at every depth. -/
theorem keepsGraph_expressionTo (d : Nat) (n : Node) (ctx : Context) :
    (expressionTo d n ctx).KeepsGraph := by
  induction d generalizing n ctx with
  | zero => exact .pure ()
  | succ d ih =>
    rw [expressionTo]
    exact Walker.keepsGraph_visitExpression ih n ctx

/-- Building a statement does to the graph what building its skeleton does. -/
theorem follows_statementTo (d : Nat) (n : Node) (ends : List OpenEnd) (ctx : Context) :
    (statementTo d n ends ctx).Follows ((skeleton d n).build ctx.targets ends) := by
  induction d generalizing n ends ctx with
  | zero => exact .pure ends
  | succ d ih =>
    rw [statementTo, skeleton]
    exact Walker.follows_buildStatement ih (keepsGraph_expressionTo d) n ends ctx

/-- Building a function does to the graph what building the skeleton of its body does. Without any
depth left, the parts of the function are passed over. -/
theorem follows_functionTo (d : Nat) (n : Node) (ctx : Context) :
    (functionTo d n ctx).Follows fun g =>
      ((), (Skeleton.ofBody (skeleton (d - 1)) n).graphFrom g) := by
  cases d with
  | zero =>
    rw [functionTo]
    exact Walker.follows_buildFunction (fun _ ends _ => .pure ends) (fun _ _ => .pure ()) n ctx
  | succ d =>
    rw [functionTo]
    exact Walker.follows_buildFunction (follows_statementTo d) (keepsGraph_expressionTo d) n ctx

/-! ### Whole analyses -/

/-- The graph of a finished program. -/
theorem draftProgram_graph (o : Options) (root : Node) :
    (draftProgram o root).graph = programGraph (o.maxDepth + 1) root := by
  have hprogram : (buildProgram (walker (o.maxDepth + 1)) root).Follows fun g =>
      ((), (skeleton (o.maxDepth + 1) root).graphFrom g) := by
    refine (Build.KeepsGraph.openScope .program none).bind_follows fun scope d => ?_
    have h := (follows_statementTo (o.maxDepth + 1) root [.plain d.graph.entry] (.root scope)).bind
      Build.follows_linkToExits
    exact h d
  exact hprogram.graph (.start root)

/-- The graph of a function that is built by itself. -/
theorem draftFunction_graph (o : Options) (function : Node) :
    (draftFunction o function).graph = functionGraph (o.maxDepth + 1) function := by
  have hfunction : (buildRootFunction (walker (o.maxDepth + 1)) function).Follows fun g =>
      ((), (Skeleton.ofBody (skeleton o.maxDepth) function).graphFrom g) :=
    (Build.KeepsGraph.openScope .program none).bind_follows fun scope =>
      follows_functionTo (o.maxDepth + 1) function (.root scope)
  exact hfunction.graph (.start function)

end Arbor.Flow
