import Arbor.Proofs.Flow.EntryPoints
import Arbor.Proofs.Flow.Site

/-!
# Loops that are noted

A loop that seems to have no end is noted before it is built. So whatever has been built so far, all
such loops of the graph stand in the trace. Visiting an expression changes nothing about that: it
leaves the graph alone, and no event is lost.
-/

namespace Arbor.Flow

open Build Flow.Graph

/-- The loop seems to have no end. Only loops of these two constructs are looked at. -/
structure IsEndless (loop : Node) : Prop where
  construct : loop.construct = .forLoop ∨ loop.construct = .whileLoop
  infinite : isInfiniteLoop loop = true

lemma not_isEndless {n : Node} (hfor : n.construct ≠ .forLoop) (hwhile : n.construct ≠ .whileLoop) :
    ¬ IsEndless n :=
  fun h => h.construct.elim hfor hwhile

/-- The loops of the graph that seem to have no end are noted. -/
def Draft.Noted (D : Draft) : Prop :=
  ∀ i loop, D.graph.StandsFor i .loop loop → IsEndless loop → .endless loop ∈ D.trace

/-! ### Points that stand for nodes -/

namespace Graph

variable {g : Graph} {i : Nat} {k k' : PointKind} {x y : Node}

/-- An edge changes nothing about what points stand for. -/
lemma standsFor_of_addEdge {e : Edge} (h : (g.addEdge e).StandsFor i k x) : g.StandsFor i k x := by
  obtain ⟨heq, -⟩ | ⟨heq, -⟩ := addEdge_cases g e
  · rwa [heq] at h
  · rw [heq] at h
    obtain ⟨p, hp, hkind, hspan, horigin⟩ := h
    rw [insertEdge_point?] at hp
    obtain ⟨q, hq, rfl⟩ := Option.map_eq_some_iff.1 hp
    exact ⟨q, hq, hkind, hspan, horigin⟩

/-- A new point stands for its node. -/
lemma standsFor_of_addPoint (h : (g.addPoint k' y.span (some y)).StandsFor i k x) :
    g.StandsFor i k x ∨ k = k' ∧ x = y := by
  obtain ⟨p, hp, hkind, hspan, horigin⟩ := h
  rw [addPoint_point?] at hp
  split_ifs at hp
  · obtain rfl := Option.some.inj hp
    exact .inr ⟨hkind.symm, (Option.some.inj horigin).symm⟩
  · exact .inl ⟨p, hp, hkind, hspan, horigin⟩

end Graph

/-! ### Steps -/

namespace Build

variable {α β γ : Type}

/-- Once the loops are noted they remain so. -/
def KeepsNoted (act : Build α) : Prop := ∀ D : Draft, D.Noted → (act D).2.Noted

/-- The step leaves the graph alone and loses no events. -/
structure Quiet (act : Build α) : Prop where
  graph : act.KeepsGraph
  events : act.KeepsEvents

namespace Quiet

lemma pure (a : α) : Quiet (Pure.pure a : Build α) := ⟨.pure a, fun _ _ he => he⟩

lemma bind {act : Build α} {next : α → Build β} (h : act.Quiet) (hn : ∀ a, (next a).Quiet) :
    (act >>= next).Quiet :=
  ⟨.bind h.graph fun a => (hn a).graph, .bind h.events fun a => (hn a).events⟩

lemma forM {act : γ → Build Unit} (xs : List γ) (h : ∀ x, (act x).Quiet) : (xs.forM act).Quiet :=
  ⟨.forM xs fun x _ => (h x).graph, .forM xs fun x _ => (h x).events⟩

lemma emit (e : Event) : (emit e).Quiet := ⟨.emit e, fun _ _ he => Array.mem_push_of_mem _ he⟩

lemma openScope (kind : ScopeKind) (parent : Option Nat) : (openScope kind parent).Quiet :=
  ⟨.openScope kind parent, fun _ _ he => Array.mem_push_of_mem _ he⟩

lemma declare (scope : Nat) (binding : Binding) (names : List Node) :
    (declare scope binding names).Quiet :=
  .forM names fun _ => .emit _

lemma keepsNoted {act : Build α} (h : act.Quiet) : act.KeepsNoted := by
  intro D hD i loop hloop hendless
  rw [h.graph D] at hloop
  exact h.events D _ (hD i loop hloop hendless)

end Quiet

namespace KeepsNoted

lemma pure (a : α) : KeepsNoted (Pure.pure a : Build α) := fun _ h => h

lemma bind {act : Build α} {next : α → Build β} (h : act.KeepsNoted)
    (hn : ∀ a, (next a).KeepsNoted) : (act >>= next).KeepsNoted :=
  fun D hD => hn _ _ (h D hD)

lemma forM {act : γ → Build Unit} (xs : List γ) (h : ∀ x, (act x).KeepsNoted) :
    (xs.forM act).KeepsNoted := by
  induction xs with
  | nil => exact .pure ()
  | cons x xs ih => exact .bind (h x) fun _ => ih

lemma edge (s t : Nat) (l : Option Label) (b : Bool) : (edge s t l b).KeepsNoted :=
  fun _ hD i loop hloop => hD i loop (standsFor_of_addEdge hloop)

lemma link (ends : List OpenEnd) (target : Nat) : (link ends target).KeepsNoted :=
  .forM ends fun _ _ hD i loop hloop => hD i loop (standsFor_of_addEdge hloop)

lemma linkBack (ends : List OpenEnd) (head : Nat) : (linkBack ends head).KeepsNoted :=
  .forM ends fun _ => .edge _ _ _ _

lemma linkToExits (ends : List OpenEnd) : (linkToExits ends).KeepsNoted := by
  have hexits (exits : List Nat) : KeepsNoted (do
      for exit in exits do
        Build.link ends exit) := by
    induction exits with
    | nil => exact .pure _
    | cons exit exits ih =>
      have h := KeepsNoted.bind (.link ends exit) fun _ => ih
      simpa using h
  intro D
  exact hexits D.graph.exits D

lemma point {kind : PointKind} (h : kind ≠ .loop) (n : Node) : (point kind n).KeepsNoted := by
  intro D hD i loop hloop
  rcases standsFor_of_addPoint hloop with hloop | ⟨heq, -⟩
  · exact hD i loop hloop
  · exact absurd heq.symm h

lemma pointAfter {kind : PointKind} (h : kind ≠ .loop) (n : Node) (ends : List OpenEnd) :
    (pointAfter kind n ends).KeepsNoted :=
  .bind (.point h n) fun p => .bind (.link ends p) fun _ => .pure p

lemma join (n : Node) (ends : List OpenEnd) : (join n ends).KeepsNoted := by
  cases ends with
  | nil => exact .pure []
  | cons first rest =>
    unfold Build.join
    dsimp only
    split_ifs
    · exact .pure [first]
    · exact .bind (.pointAfter (by decide) n _) fun _ => .pure _

/-- The end of a function or of the program. -/
lemma finish (f : Option Node) (ends : List OpenEnd) :
    KeepsNoted (do
      Build.linkToExits ends
      Build.emit (.finished f (← get).graph)) :=
  .bind (.linkToExits ends) fun _ => .bind (fun _ hD => hD) fun _ => (Quiet.emit _).keepsNoted

/-- The head of a loop may be added if the loop is noted, or has an end. -/
lemma loopPoint {n : Node} {next : Nat → Build β} (hn : ∀ a, (next a).KeepsNoted) {D : Draft}
    (hD : D.Noted) (h : IsEndless n → .endless n ∈ D.trace) :
    ((Build.point .loop n >>= next) D).2.Noted := by
  refine hn _ _ fun i loop hloop hendless => ?_
  rcases standsFor_of_addPoint hloop with hloop | ⟨-, rfl⟩
  · exact hD i loop hloop hendless
  · exact h hendless

end KeepsNoted

end Build

/-! ### Statements -/

/-- The walk notes loops in statements, and there are none in expressions. -/
structure Walker.Notes (w : Walker) : Prop where
  statement : ∀ n ends ctx, (w.statement n ends ctx).KeepsNoted
  expression : ∀ n ctx, (w.expression n ctx).Quiet
  visit : ∀ n ctx, (w.visitExpression n ctx).Quiet

namespace Walker.Notes

open Build

variable {w : Walker} (hw : w.Notes)
include hw

lemma visitAll (ms : List Node) (ctx : Context) : (w.visitAll ms ctx).Quiet :=
  .forM ms fun m => hw.expression m ctx

lemma visitField (n : Node) (name : String) (ctx : Context) : (w.visitField n name ctx).Quiet :=
  hw.visitAll _ ctx

lemma visitTarget (n : Node) (ctx : Context) : (w.visitTarget n ctx).Quiet := by
  simp only [Walker.visitTarget]
  split_ifs
  · exact .emit _
  · exact hw.expression _ ctx

lemma declareParameters (n : Node) (ctx : Context) : (w.declareParameters n ctx).Quiet :=
  .forM _ fun _ => .bind (.declare _ _ _) fun _ => hw.visitAll _ ctx

lemma buildAll (ms : List Node) (ends : List OpenEnd) (ctx : Context) :
    (w.buildAll ms ends ctx).KeepsNoted := by
  induction ms generalizing ends with
  | nil => exact .pure ends
  | cons m ms ih =>
    refine .bind (hw.statement m ends ctx) fun out => ?_
    split_ifs
    · refine .bind (.forM ms fun m' => ?_) fun _ => .pure []
      exact .bind (.point (by decide) m') fun _ => (hw.expression m' ctx).keepsNoted
    · exact ih out

lemma buildField (n : Node) (name : String) (ends : List OpenEnd) (ctx : Context) :
    (w.buildField n name ends ctx).KeepsNoted := by
  unfold Walker.buildField
  cases n.field? name with
  | none => exact .pure ends
  | some part => exact hw.statement part ends ctx

lemma buildLabeled (n : Node) (ends : List OpenEnd) (ctx : Context) :
    (w.buildLabeled n ends ctx).KeepsNoted := by
  unfold Walker.buildLabeled
  cases (n.field? "body").or n.children.getLast? with
  | none => exact .pure ends
  | some body => exact hw.statement body ends ctx

lemma buildConditional (n : Node) (ends : List OpenEnd) (ctx : Context) :
    (w.buildConditional n ends ctx).KeepsNoted :=
  .bind (.pointAfter (by decide) n ends) fun _ =>
    .bind (hw.visitField n _ ctx).keepsNoted fun _ => .bind (hw.buildField n _ _ ctx) fun _ =>
      .bind (hw.buildField n _ _ ctx) fun _ => .join n _

lemma buildCases (branch : Nat) (cs : List Node) (ends : List OpenEnd) (ctx : Context) :
    (w.buildCases branch cs ends ctx).KeepsNoted := by
  induction cs generalizing ends with
  | nil => exact .pure ends
  | cons c cs ih =>
    exact .bind (hw.visitField c _ ctx).keepsNoted fun _ =>
      .bind (hw.buildAll _ _ ctx) fun out => ih out

lemma buildSwitch (n : Node) (ends : List OpenEnd) (ctx : Context) :
    (w.buildSwitch n ends ctx).KeepsNoted := by
  refine .bind (.pointAfter (by decide) n ends) fun branch =>
    .bind (hw.visitField n _ ctx).keepsNoted fun _ => .bind (.point (by decide) n) fun merge =>
      .bind (Quiet.openScope _ _).keepsNoted fun scope =>
        .bind (hw.buildCases branch _ [] _) fun out => .bind (.link out merge) fun _ => ?_
  have hout : KeepsNoted (do
      if ((← get).graph.predecessors merge).isEmpty then return []
      else return [OpenEnd.plain merge]) := by
    refine .bind (fun _ hD => hD) fun D => ?_
    split_ifs
    · exact .pure _
    · exact .pure _
  split_ifs
  · exact .bind (.edge _ _ _ _) fun _ => hout
  · exact hout

/-- A loop may be built once it is noted. -/
lemma buildLoop (n : Node) (ends : List OpenEnd) (ctx : Context) {D : Draft} (hD : D.Noted)
    (h : IsEndless n → .endless n ∈ D.trace) : (w.buildLoop n ends ctx D).2.Noted := by
  refine KeepsNoted.loopPoint (fun head => ?_) hD h
  refine .bind (.point (by decide) n) fun merge => .bind (.link _ _) fun _ => ?_
  cases n.field? "body" with
  | none => exact .bind (.edge _ _ _ _) fun _ => .pure _
  | some body =>
    exact .bind (hw.statement body _ _) fun _ => .bind (.linkBack _ _) fun _ =>
      .bind (.edge _ _ _ _) fun _ => .pure _

/-- A loop that has just been looked at may be built. -/
lemma checkLoop (n : Node) (ends : List OpenEnd) (ctx : Context) :
    (Walker.checkLoop n >>= fun _ => w.buildLoop n ends ctx).KeepsNoted := by
  have hquiet : (Walker.checkLoop n).Quiet := by
    unfold Walker.checkLoop
    split_ifs
    · exact .emit _
    · exact .pure ()
  intro D hD
  have hnoted (h : IsEndless n) : .endless n ∈ (Walker.checkLoop n D).2.trace := by
    rw [Walker.checkLoop, if_pos h.infinite]
    exact Array.mem_push_self
  exact hw.buildLoop n ends ctx (hquiet.keepsNoted D hD) hnoted

/-- A loop of another construct is not looked at. -/
lemma buildLoop_other {n : Node} (hn : ¬ IsEndless n) (ends : List OpenEnd) (ctx : Context) :
    (w.buildLoop n ends ctx).KeepsNoted :=
  fun _ hD => hw.buildLoop n ends ctx hD fun h => absurd h hn

lemma buildFor (n : Node) (ends : List OpenEnd) (ctx : Context) :
    (w.buildFor n ends ctx).KeepsNoted :=
  .bind (Quiet.openScope _ _).keepsNoted fun _ => .bind (hw.visitField n _ _).keepsNoted fun _ =>
    .bind (hw.visitField n _ _).keepsNoted fun _ => .bind (hw.visitField n _ _).keepsNoted fun _ =>
      hw.checkLoop n ends _

lemma buildForEach {n : Node} (hn : ¬ IsEndless n) (ends : List OpenEnd) (ctx : Context) :
    (w.buildForEach n ends ctx).KeepsNoted := by
  refine .bind (Quiet.openScope _ _).keepsNoted fun scope =>
    .bind (hw.visitField n _ ctx).keepsNoted fun _ => ?_
  have hloop := hw.buildLoop_other hn ends (ctx.withScope scope)
  cases n.field? "left" with
  | none => exact hloop
  | some left =>
    dsimp only
    split_ifs
    · exact .bind (Quiet.declare _ _ _).keepsNoted fun _ => hloop
    · exact .bind (hw.visitTarget left _).keepsNoted fun _ => hloop

lemma buildWhile (n : Node) (ends : List OpenEnd) (ctx : Context) :
    (w.buildWhile n ends ctx).KeepsNoted :=
  .bind (Quiet.openScope _ _).keepsNoted fun _ => .bind (hw.visitField n _ _).keepsNoted fun _ =>
    hw.checkLoop n ends _

lemma buildDoWhile {n : Node} (hn : ¬ IsEndless n) (ends : List OpenEnd) (ctx : Context) :
    (w.buildDoWhile n ends ctx).KeepsNoted := by
  refine .bind (Quiet.openScope _ _).keepsNoted fun scope D hD =>
    KeepsNoted.loopPoint (fun head => ?_) hD fun h => absurd h hn
  exact .bind (.point (by decide) n) fun merge => .bind (hw.buildField n _ _ _) fun _ =>
    .bind (.linkBack _ _) fun _ => .bind (hw.visitField n _ _).keepsNoted fun _ =>
      .bind (.edge _ _ _ _) fun _ => .pure _

lemma buildHandler (handler : Node) (ends : List OpenEnd) (ctx : Context) :
    (w.buildHandler handler ends ctx).KeepsNoted :=
  .bind (Quiet.openScope _ _).keepsNoted fun _ => .bind (Quiet.declare _ _ _).keepsNoted fun _ =>
    hw.buildField handler _ _ _

lemma buildTry (n : Node) (ends : List OpenEnd) (ctx : Context) :
    (w.buildTry n ends ctx).KeepsNoted := by
  refine .bind (hw.buildField n _ ends ctx) fun tried => ?_
  cases n.field? "handler"
  case' none => refine .bind (.pure []) fun caught => ?_
  case' some handler => refine .bind (hw.buildHandler handler ends ctx) fun caught => ?_
  all_goals
    cases n.field? "finalizer" with
    | none => exact .join n (tried ++ caught)
    | some finalizer =>
      dsimp only
      split_ifs
      · exact .bind (hw.statement _ _ ctx) fun _ => .pure []
      · exact hw.statement _ _ ctx

omit hw in
lemma buildBreak (n : Node) (ends : List OpenEnd) (ctx : Context) :
    (buildBreak n ends ctx).KeepsNoted := by
  refine .bind (.pointAfter (by decide) n ends) fun p => ?_
  cases ctx.breakTarget? with
  | none => exact .pure []
  | some target => exact .bind (.edge _ _ _ _) fun _ => .pure []

omit hw in
lemma buildContinue (n : Node) (ends : List OpenEnd) (ctx : Context) :
    (buildContinue n ends ctx).KeepsNoted := by
  refine .bind (.pointAfter (by decide) n ends) fun p => ?_
  cases ctx.loopEntry with
  | none => exact .pure []
  | some head => exact .bind (.edge _ _ _ _) fun _ => .pure []

lemma buildStatement (n : Node) (ends : List OpenEnd) (ctx : Context) :
    (w.buildStatement n ends ctx).KeepsNoted := by
  unfold Walker.buildStatement
  cases hc : n.construct with
  | block | elseClause | switchCase | switchDefault => exact hw.buildAll _ ends ctx
  | conditional => exact hw.buildConditional n ends ctx
  | forLoop => exact hw.buildFor n ends ctx
  | forEach => exact hw.buildForEach (not_isEndless (by simp [hc]) (by simp [hc])) ends ctx
  | whileLoop => exact hw.buildWhile n ends ctx
  | doWhile => exact hw.buildDoWhile (not_isEndless (by simp [hc]) (by simp [hc])) ends ctx
  | switch => exact hw.buildSwitch n ends ctx
  | tryCatch => exact hw.buildTry n ends ctx
  | returnJump =>
    exact .bind (.pointAfter (by decide) n ends) fun _ =>
      .bind (hw.visitAll _ ctx).keepsNoted fun _ => .bind (.linkToExits _) fun _ => .pure []
  | throwJump =>
    exact .bind (.pointAfter (by decide) n ends) fun _ =>
      .bind (hw.visitAll _ ctx).keepsNoted fun _ => .pure []
  | breakJump => exact buildBreak n ends ctx
  | continueJump => exact buildContinue n ends ctx
  | labeled => exact hw.buildLabeled n ends ctx
  | ignored => exact .pure ends
  | declaration | function | classDef | statement =>
    exact .bind (.pointAfter (by decide) n ends) fun _ =>
      .bind (hw.visit n ctx).keepsNoted fun _ => .pure _

lemma buildBody (n : Node) (ends : List OpenEnd) (ctx : Context) :
    (w.buildBody n ends ctx).KeepsNoted := by
  unfold Walker.buildBody
  cases n.field? "body" with
  | none => exact .pure ends
  | some body =>
    dsimp only
    split_ifs
    · exact hw.statement body ends ctx
    · exact .bind (.pointAfter (by decide) body ends) fun _ =>
        .bind (hw.expression body ctx).keepsNoted fun _ => .bind (.linkToExits _) fun _ => .pure []

lemma buildFunction (n : Node) (ctx : Context) : (w.buildFunction n ctx).KeepsNoted := by
  refine .bind (Quiet.openScope _ _).keepsNoted fun scope => ?_
  have hbody : KeepsNoted (do
      w.declareParameters n (.root scope)
      let entry := OpenEnd.plain (← get).graph.entry
      let ends ← w.buildBody n [entry] (.root scope)
      linkToExits ends
      emit (.finished (some n) (← get).graph)) :=
    .bind (hw.declareParameters n _).keepsNoted fun _ => .bind (fun _ hD => hD) fun _ =>
      .bind (hw.buildBody n _ _) fun ends => .finish (some n) ends
  dsimp only
  split_ifs
  · exact .bind (Quiet.declare _ _ _).keepsNoted fun _ => hbody
  · exact hbody

end Walker.Notes

/-! ### Whole walks -/

/-- Expressions are quiet, whatever functions they hold. -/
lemma quiet_expressionTo (d : Nat) (n : Node) (ctx : Context) : (expressionTo d n ctx).Quiet :=
  ⟨keepsGraph_expressionTo d n ctx, (agrees_expressionTo d d (.inl rfl) (.refl ctx)).keepsEvents⟩

/-- Down to every depth the walk notes the loops of the graph that seem to have no end. -/
theorem notes_walker (d : Nat) : (walker d).Notes := by
  induction d with
  | zero => exact ⟨fun _ ends _ => .pure ends, quiet_expressionTo 0, quiet_expressionTo 1⟩
  | succ d ih => exact ⟨ih.buildStatement, quiet_expressionTo (d + 1), quiet_expressionTo (d + 2)⟩

lemma noted_start (n : Node) : (Draft.start n).Noted := by
  rintro i loop ⟨p, hp, hkind, -⟩
  match i with
  | 0 | 1 =>
    obtain rfl := Option.some.inj hp
    cases hkind
  | i + 2 => cases hp

theorem noted_draftProgram (o : Options) (root : Node) : (draftProgram o root).Noted := by
  have hbuild : (buildProgram (walker (o.maxDepth + 1)) root).KeepsNoted :=
    .bind (Quiet.openScope _ _).keepsNoted fun _ => .bind (fun _ hD => hD) fun _ =>
      .bind ((notes_walker _).statement root _ _) fun ends => .finish none ends
  exact hbuild _ (noted_start root)

theorem noted_draftFunction (o : Options) (n : Node) : (draftFunction o n).Noted := by
  have hbuild : (buildRootFunction (walker (o.maxDepth + 1)) n).KeepsNoted :=
    .bind (Quiet.openScope _ _).keepsNoted fun _ => (notes_walker o.maxDepth).buildFunction n _
  exact hbuild _ (noted_start n)

/-- The loops of the graph that seem to have no end are listed if this is asked for. -/
lemma Report.Shows.mem_infiniteLoops {r : Report} {o : Options} {D : Draft} (h : r.Shows o D)
    (hD : D.Noted) (ho : o.infiniteLoops = true) {i : Nat} {loop : Node}
    (hpoint : D.graph.StandsFor i .loop loop) (hloop : IsEndless loop) :
    loop.span ∈ r.infiniteLoops := by
  have hplaces := h.places .endlessLoop
  rw [Options.asksFor, ho, if_pos rfl] at hplaces
  have hmem : loop.span ∈ D.found.places .endlessLoop :=
    Draft.mem_places_found.2 ⟨.endless loop, hD i loop hpoint hloop, List.mem_singleton_self _⟩
  rwa [← hplaces] at hmem

end Arbor.Flow
