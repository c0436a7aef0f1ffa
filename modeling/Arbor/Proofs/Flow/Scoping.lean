import Arbor.Flow.Analysis
import Arbor.Proofs.Flow.Closed

/-!
# Open scopes

A walk names scopes by their numbers: where it declares a name, where it looks one up, and where it
opens a scope inside another. In every trace such a number belongs to a scope that was opened
before.
-/

namespace Arbor.Flow

/-! ### Scoped traces -/

/-- All scopes that the event names are among the first `k`. -/
def Event.Scoped (k : Nat) : Event → Prop
  | .opened _ parent => ∀ p ∈ parent, p < k
  | .declared scope _ _ | .read scope _ | .written scope _ => scope < k
  | .endless _ | .nullish _ | .finished _ _ => True

/-- The number of scopes that the event opens. -/
def Event.opens : Event → Nat
  | .opened _ _ => 1
  | _ => 0

/-- Each event names only scopes that are open when it happens. In the end `k` are open. -/
inductive Scoped : List Event → Nat → Prop where
  | nil : Scoped [] 0
  | snoc {events : List Event} {k : Nat} {e : Event} :
    Scoped events k → e.Scoped k → Scoped (events ++ [e]) (k + e.opens)

/-- The trace of the draft is scoped, and the draft counts the open scopes right. -/
def Draft.Scoped (D : Draft) : Prop := Flow.Scoped D.trace.toList D.scopes

lemma Draft.Scoped.emit {D : Draft} {e : Event} (h : D.Scoped) (he : e.Scoped D.scopes)
    (hopens : e.opens = 0) : (D.emit e).Scoped := by
  have hsnoc := Flow.Scoped.snoc h he
  rw [hopens, Nat.add_zero] at hsnoc
  rw [Draft.Scoped, Draft.emit, Array.toList_push]
  exact hsnoc

lemma Draft.Scoped.openScope {D : Draft} {parent : Option Nat} (h : D.Scoped)
    (hparent : ∀ p ∈ parent, p < D.scopes) (kind : ScopeKind) :
    (D.openScope kind parent).Scoped := by
  rw [Draft.Scoped, Draft.openScope, Draft.emit, Array.toList_push]
  exact Flow.Scoped.snoc (e := .opened kind parent) h hparent

namespace Build

variable {α β : Type} {k : Nat}

/-- Where at least `k` scopes are open, the step names open scopes only. It closes none. -/
def ScopedFrom (k : Nat) (act : Build α) : Prop :=
  ∀ D : Draft, D.Scoped → k ≤ D.scopes → (act D).2.Scoped ∧ D.scopes ≤ (act D).2.scopes

namespace ScopedFrom

lemma bind {act : Build α} {next : α → Build β} (h : act.ScopedFrom k)
    (hn : ∀ a, (next a).ScopedFrom k) : (act >>= next).ScopedFrom k := by
  intro D hD hk
  obtain ⟨hact, hle⟩ := h D hD hk
  obtain ⟨hnext, hle'⟩ := hn (act D).1 (act D).2 hact (Nat.le_trans hk hle)
  exact ⟨hnext, Nat.le_trans hle hle'⟩

/-- A step on the graph has nothing to do with scopes. -/
lemma of_graph {act : Build α}
    (h : ∀ D, (act D).2.trace = D.trace ∧ (act D).2.scopes = D.scopes) : act.ScopedFrom k := by
  intro D hD _
  obtain ⟨htrace, hscopes⟩ := h D
  rw [Draft.Scoped, htrace, hscopes]
  exact ⟨hD, Nat.le_refl _⟩

lemma steps : Composes fun _ act => act.ScopedFrom k := ⟨bind, of_graph⟩

lemma emit {e : Event} (he : ∀ j, k ≤ j → e.Scoped j) (hopens : e.opens = 0) :
    (emit e).ScopedFrom k :=
  fun D hD hk => ⟨hD.emit (he D.scopes hk) hopens, Nat.le_refl _⟩

lemma declare {scope : Nat} (h : scope < k) (binding : Binding) (names : List Node) :
    (declare scope binding names).ScopedFrom k :=
  steps.forM names fun _ _ => .emit (fun _ hj => Nat.lt_of_lt_of_le h hj) rfl

lemma emitRead {scope : Nat} (h : scope < k) (n : Node) :
    (Build.emit (.read scope n)).ScopedFrom k :=
  .emit (fun _ hj => Nat.lt_of_lt_of_le h hj) rfl

lemma emitWritten {scope : Nat} (h : scope < k) (n : Node) :
    (Build.emit (.written scope n)).ScopedFrom k :=
  .emit (fun _ hj => Nat.lt_of_lt_of_le h hj) rfl

/-- What comes behind the opening of a scope may name it. -/
lemma openScope {kind : ScopeKind} {parent : Option Nat} {next : Nat → Build β}
    (hparent : ∀ p ∈ parent, p < k)
    (hn : ∀ scope, k ≤ scope → (next scope).ScopedFrom (scope + 1)) :
    (openScope kind parent >>= next).ScopedFrom k := by
  intro D hD hk
  have hopen := hD.openScope (fun p hp => Nat.lt_of_lt_of_le (hparent p hp) hk) kind
  obtain ⟨hnext, hle⟩ := hn D.scopes hk (D.openScope kind parent) hopen (Nat.le_refl _)
  exact ⟨hnext, Nat.le_trans (Nat.le_succ _) hle⟩

lemma onFreshGraph {act : Build Unit} (h : act.ScopedFrom k) (span : Span) :
    (onFreshGraph span act).ScopedFrom k :=
  fun D hD hk => h { D with graph := .fresh span } hD hk

/-- The end of a function or of the program. -/
lemma finish (f : Option Node) (ends : List OpenEnd) :
    ScopedFrom k (do
      Build.linkToExits ends
      Build.emit (.finished f (← get).graph)) :=
  .bind (steps.linkToExits ends) fun _ => .bind (.of_graph fun _ => ⟨rfl, rfl⟩) fun _ =>
    .emit (fun _ _ => trivial) rfl

end ScopedFrom

end Build

/-! ### One step of the walk -/

/-- Started in an open scope, the walk names open scopes only. -/
structure Walker.Scoped (w : Walker) : Prop where
  statement : ∀ {k : Nat} {ctx : Context}, ctx.scope < k →
    ∀ n ends, (w.statement n ends ctx).ScopedFrom k
  expression : ∀ {k : Nat} {ctx : Context}, ctx.scope < k →
    ∀ n, (w.expression n ctx).ScopedFrom k
  function : ∀ {k : Nat} {ctx : Context}, ctx.scope < k →
    ∀ n, (w.function n ctx).ScopedFrom k

namespace Walker.Scoped

open Build Build.ScopedFrom

variable {w : Walker} (hw : w.Scoped) {k : Nat} {ctx : Context} (hctx : ctx.scope < k)
include hw hctx

/-! #### Expressions -/

lemma visitAll (ms : List Node) : (w.visitAll ms ctx).ScopedFrom k :=
  steps.forM ms fun m _ => hw.expression hctx m

lemma visitField (n : Node) (name : String) : (w.visitField n name ctx).ScopedFrom k :=
  hw.visitAll hctx _

lemma visitTarget (n : Node) : (w.visitTarget n ctx).ScopedFrom k := by
  simp only [Walker.visitTarget]
  split_ifs
  · exact .emitWritten hctx _
  · exact hw.expression hctx _

lemma visitDeclarator (n : Node) : (w.visitDeclarator n ctx).ScopedFrom k := by
  refine .bind (hw.visitField hctx n _) fun _ => ?_
  cases n.field? "name" with
  | none => exact steps.pure ()
  | some target => exact .bind (.declare hctx _ _) fun _ => hw.visitAll hctx _

lemma visitUpdate (n : Node) : (w.visitUpdate n ctx).ScopedFrom k := by
  unfold Walker.visitUpdate
  cases (n.field? "argument").map Node.unwrapped with
  | none => exact hw.visitAll hctx _
  | some target =>
    dsimp only
    split_ifs
    · exact .bind (.emitRead hctx _) fun _ => .emitWritten hctx _
    · exact hw.visitAll hctx _

lemma visitFunction (n : Node) : (w.visitFunction n ctx).ScopedFrom k := by
  have hfresh := ScopedFrom.onFreshGraph (hw.function hctx n) n.span
  unfold Walker.visitFunction
  split_ifs
  · exact .bind (.declare hctx _ _) fun _ => hfresh
  · exact hfresh

lemma visitClass (n : Node) : (w.visitClass n ctx).ScopedFrom k :=
  .bind (.declare hctx _ _) fun _ => hw.visitAll hctx _

omit hw hctx in
lemma checkReceiver (n : Node) (receiver : String) : (checkReceiver n receiver).ScopedFrom k := by
  unfold Walker.checkReceiver
  split_ifs
  · exact .emit (fun _ _ => trivial) rfl
  · exact steps.pure ()

lemma visitExpression (n : Node) : (w.visitExpression n ctx).ScopedFrom k := by
  unfold Walker.visitExpression
  cases expressionForm n with
  | name => exact .emitRead hctx n
  | declarator => exact hw.visitDeclarator hctx n
  | assignment =>
    refine .bind (hw.visitField hctx n _) fun _ => ?_
    cases n.field? "left" with
    | none => exact steps.pure ()
    | some left => exact hw.visitTarget hctx left
  | update => exact hw.visitUpdate hctx n
  | use receiver => exact .bind (checkReceiver n receiver) fun _ => hw.visitAll hctx _
  | inert => exact steps.pure ()
  | function => exact hw.visitFunction hctx n
  | classDef => exact hw.visitClass hctx n
  | compound => exact hw.visitAll hctx _

/-! #### Functions -/

lemma buildBody (n : Node) (ends : List OpenEnd) : (w.buildBody n ends ctx).ScopedFrom k := by
  unfold Walker.buildBody
  cases n.field? "body" with
  | none => exact steps.pure ends
  | some body =>
    dsimp only
    split_ifs
    · exact hw.statement hctx body ends
    · exact .bind (steps.pointAfter _ body ends) fun _ => .bind (hw.expression hctx body) fun _ =>
        .bind (steps.linkToExits _) fun _ => steps.pure []

lemma declareParameters (n : Node) : (w.declareParameters n ctx).ScopedFrom k :=
  steps.forM _ fun _ _ => .bind (.declare hctx _ _) fun _ => hw.visitAll hctx _

lemma buildFunction (n : Node) : (w.buildFunction n ctx).ScopedFrom k := by
  refine .openScope (by simpa using hctx) fun scope _ => ?_
  have hinner : (Context.root scope).scope < scope + 1 := Nat.lt_succ_self scope
  have hbody : ScopedFrom (scope + 1) (do
      w.declareParameters n (.root scope)
      let entry := OpenEnd.plain (← get).graph.entry
      let ends ← w.buildBody n [entry] (.root scope)
      linkToExits ends
      emit (.finished (some n) (← get).graph)) :=
    .bind (hw.declareParameters hinner n) fun _ => .bind (.of_graph fun _ => ⟨rfl, rfl⟩) fun _ =>
      .bind (hw.buildBody hinner n _) fun ends => .finish (some n) ends
  dsimp only
  split_ifs
  · exact .bind (.declare hinner _ _) fun _ => hbody
  · exact hbody

/-! #### Statements -/

lemma buildAll (ms : List Node) (ends : List OpenEnd) : (w.buildAll ms ends ctx).ScopedFrom k := by
  induction ms generalizing ends with
  | nil => exact steps.pure ends
  | cons m ms ih =>
    refine .bind (hw.statement hctx m ends) fun out => ?_
    split_ifs
    · refine .bind (steps.forM ms fun m' _ => ?_) fun _ => steps.pure []
      exact .bind (steps.point _ m') fun _ => hw.expression hctx m'
    · exact ih out

lemma buildSequence (ms : List Node) (ends : List OpenEnd) :
    (w.buildSequence ms ends ctx).ScopedFrom k :=
  hw.buildAll hctx _ ends

lemma buildField (n : Node) (name : String) (ends : List OpenEnd) :
    (w.buildField n name ends ctx).ScopedFrom k := by
  unfold Walker.buildField
  cases n.field? name with
  | none => exact steps.pure ends
  | some part => exact hw.statement hctx part ends

lemma buildLabeled (n : Node) (ends : List OpenEnd) :
    (w.buildLabeled n ends ctx).ScopedFrom k := by
  unfold Walker.buildLabeled
  cases (n.field? "body").or n.children.getLast? with
  | none => exact steps.pure ends
  | some body => exact hw.statement hctx body ends

lemma buildConditional (n : Node) (ends : List OpenEnd) :
    (w.buildConditional n ends ctx).ScopedFrom k :=
  .bind (steps.pointAfter _ n ends) fun _ => .bind (hw.visitField hctx n _) fun _ =>
    .bind (hw.buildField hctx n _ _) fun _ => .bind (hw.buildField hctx n _ _) fun _ =>
      steps.join n _

lemma buildCases (branch : Nat) (cs : List Node) (ends : List OpenEnd) :
    (w.buildCases branch cs ends ctx).ScopedFrom k := by
  induction cs generalizing ends with
  | nil => exact steps.pure ends
  | cons c cs ih =>
    exact .bind (hw.visitField hctx c _) fun _ =>
      .bind (hw.buildSequence hctx _ _) fun out => ih out

lemma buildSwitch (n : Node) (ends : List OpenEnd) : (w.buildSwitch n ends ctx).ScopedFrom k := by
  refine .bind (steps.pointAfter _ n ends) fun branch => .bind (hw.visitField hctx n _) fun _ => ?_
  refine .bind (steps.point _ n) fun merge => .openScope (by simpa using hctx) fun scope _ => ?_
  have hinner : (ctx.inSwitch scope merge).scope < scope + 1 := Nat.lt_succ_self scope
  refine .bind (hw.buildCases hinner branch _ []) fun out => ?_
  refine .bind (steps.link out merge) fun _ => ?_
  split_ifs
  · exact .bind (steps.edge _ _ _ _) fun _ => steps.openEndsOf merge
  · exact steps.openEndsOf merge

lemma buildLoop (n : Node) (ends : List OpenEnd) : (w.buildLoop n ends ctx).ScopedFrom k := by
  refine .bind (steps.point _ n) fun head => .bind (steps.point _ n) fun merge => ?_
  refine .bind (steps.link _ _) fun _ => ?_
  cases n.field? "body" with
  | none => exact .bind (steps.edge _ _ _ _) fun _ => steps.pure _
  | some body =>
    have hinner : (ctx.inLoop ctx.scope head merge).scope < k := hctx
    exact .bind (hw.statement hinner body _) fun _ => .bind (steps.linkBack _ _) fun _ =>
      .bind (steps.edge _ _ _ _) fun _ => steps.pure _

omit hw hctx in
lemma checkLoop (n : Node) : (checkLoop n).ScopedFrom k := by
  unfold Walker.checkLoop
  split_ifs
  · exact .emit (fun _ _ => trivial) rfl
  · exact steps.pure ()

lemma buildFor (n : Node) (ends : List OpenEnd) : (w.buildFor n ends ctx).ScopedFrom k := by
  refine .openScope (by simpa using hctx) fun scope _ => ?_
  have hinner : (ctx.withScope scope).scope < scope + 1 := Nat.lt_succ_self scope
  exact .bind (hw.visitField hinner n _) fun _ => .bind (hw.visitField hinner n _) fun _ =>
    .bind (hw.visitField hinner n _) fun _ => .bind (checkLoop n) fun _ =>
      hw.buildLoop hinner n ends

lemma buildForEach (n : Node) (ends : List OpenEnd) :
    (w.buildForEach n ends ctx).ScopedFrom k := by
  refine .openScope (by simpa using hctx) fun scope hk => ?_
  have hinner : (ctx.withScope scope).scope < scope + 1 := Nat.lt_succ_self scope
  -- What the loop goes through is evaluated outside.
  refine .bind (hw.visitField (show ctx.scope < scope + 1 by omega) n _) fun _ => ?_
  have hloop := hw.buildLoop hinner n ends
  cases n.field? "left" with
  | none => exact hloop
  | some left =>
    dsimp only
    split_ifs
    · exact .bind (.declare hinner _ _) fun _ => hloop
    · exact .bind (hw.visitTarget hinner left) fun _ => hloop

lemma buildWhile (n : Node) (ends : List OpenEnd) : (w.buildWhile n ends ctx).ScopedFrom k := by
  refine .openScope (by simpa using hctx) fun scope _ => ?_
  have hinner : (ctx.withScope scope).scope < scope + 1 := Nat.lt_succ_self scope
  exact .bind (hw.visitField hinner n _) fun _ => .bind (checkLoop n) fun _ =>
    hw.buildLoop hinner n ends

lemma buildDoWhile (n : Node) (ends : List OpenEnd) :
    (w.buildDoWhile n ends ctx).ScopedFrom k := by
  refine .openScope (by simpa using hctx) fun scope _ => ?_
  refine .bind (steps.point _ n) fun head => .bind (steps.point _ n) fun merge => ?_
  have hinner : (ctx.inLoop scope head merge).scope < scope + 1 := Nat.lt_succ_self scope
  exact .bind (hw.buildField hinner n _ _) fun _ => .bind (steps.linkBack _ _) fun _ =>
    .bind (hw.visitField hinner n _) fun _ => .bind (steps.edge _ _ _ _) fun _ => steps.pure _

lemma buildHandler (handler : Node) (ends : List OpenEnd) :
    (w.buildHandler handler ends ctx).ScopedFrom k := by
  refine .openScope (by simpa using hctx) fun scope _ => ?_
  have hinner : (ctx.withScope scope).scope < scope + 1 := Nat.lt_succ_self scope
  exact .bind (.declare hinner _ _) fun _ => hw.buildField hinner handler _ _

lemma buildTry (n : Node) (ends : List OpenEnd) : (w.buildTry n ends ctx).ScopedFrom k := by
  refine .bind (hw.buildField hctx n _ ends) fun tried => ?_
  cases n.field? "handler"
  case' none => refine .bind (steps.pure []) fun caught => ?_
  case' some handler => refine .bind (hw.buildHandler hctx handler ends) fun caught => ?_
  all_goals
    cases n.field? "finalizer" with
    | none => exact steps.join n (tried ++ caught)
    | some finalizer =>
      dsimp only
      split_ifs
      · exact .bind (hw.statement hctx _ _) fun _ => steps.pure []
      · exact hw.statement hctx _ _

lemma buildStatement (n : Node) (ends : List OpenEnd) :
    (w.buildStatement n ends ctx).ScopedFrom k := by
  unfold Walker.buildStatement
  cases n.construct with
  | block | elseClause | switchCase | switchDefault => exact hw.buildSequence hctx _ ends
  | conditional => exact hw.buildConditional hctx n ends
  | forLoop => exact hw.buildFor hctx n ends
  | forEach => exact hw.buildForEach hctx n ends
  | whileLoop => exact hw.buildWhile hctx n ends
  | doWhile => exact hw.buildDoWhile hctx n ends
  | switch => exact hw.buildSwitch hctx n ends
  | tryCatch => exact hw.buildTry hctx n ends
  | returnJump =>
    exact .bind (steps.pointAfter _ n ends) fun _ => .bind (hw.visitAll hctx _) fun _ =>
      .bind (steps.linkToExits _) fun _ => steps.pure []
  | throwJump =>
    exact .bind (steps.pointAfter _ n ends) fun _ => .bind (hw.visitAll hctx _) fun _ =>
      steps.pure []
  | breakJump => exact steps.buildBreak n ends ctx
  | continueJump => exact steps.buildContinue n ends ctx
  | labeled => exact hw.buildLabeled hctx n ends
  | ignored => exact steps.pure ends
  | declaration | function | classDef | statement =>
    exact .bind (steps.pointAfter _ n ends) fun _ => .bind (hw.visitExpression hctx n) fun _ =>
      steps.pure _

end Walker.Scoped

/-! ### Whole walks -/

open Build.ScopedFrom (steps)

lemma Walker.scoped_idle : Walker.idle.Scoped :=
  ⟨fun _ _ ends => steps.pure ends, fun _ _ => steps.pure (), fun _ _ => steps.pure ()⟩

/-- Down to every depth the walk names open scopes only. -/
theorem scoped_walker (d : Nat) : (walker d).Scoped := by
  induction d with
  | zero =>
    exact ⟨fun _ _ ends => steps.pure ends, fun _ _ => steps.pure (),
      fun hctx n => Walker.scoped_idle.buildFunction hctx n⟩
  | succ d ih =>
    exact ⟨fun hctx n ends => ih.buildStatement hctx n ends,
      fun hctx n => ih.visitExpression hctx n, fun hctx n => ih.buildFunction hctx n⟩

lemma scoped_start (n : Node) : (Draft.start n).Scoped := .nil

theorem scoped_draftProgram (o : Options) (root : Node) : (draftProgram o root).Scoped := by
  have hbuild : (buildProgram (walker (o.maxDepth + 1)) root).ScopedFrom 0 := by
    refine .openScope (by simp) fun scope _ => .bind (.of_graph fun _ => ⟨rfl, rfl⟩) fun D => ?_
    exact .bind ((scoped_walker _).statement (Nat.lt_succ_self scope) root _) fun ends =>
      .finish none ends
  exact (hbuild _ (scoped_start root) (Nat.zero_le _)).1

theorem scoped_draftFunction (o : Options) (n : Node) : (draftFunction o n).Scoped := by
  have hbuild : (buildRootFunction (walker (o.maxDepth + 1)) n).ScopedFrom 0 :=
    .openScope (by simp) fun scope _ =>
      (scoped_walker _).function (Nat.lt_succ_self scope) n
  exact (hbuild _ (scoped_start n) (Nat.zero_le _)).1

end Arbor.Flow
