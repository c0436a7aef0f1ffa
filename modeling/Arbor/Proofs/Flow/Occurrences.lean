import Arbor.Proofs.Flow.Closed
import Arbor.Proofs.Flow.Variables
import Arbor.Proofs.Shares

/-!
# Every occurrence counts once

A walk may come to the parts of a node by their fields and as its children, and to the target of a
declaration for its names and again for its defaults. If no two fields of a node name the same
child, and every switch has a body, it still uses each name once at most in each way: of all the
parts that it visits at a node, a given place lies in one at most.
-/

namespace Arbor.Flow

open Node

/-! ### Uses in a trace -/

/-- The ways in which a name is used. -/
inductive Way where
  | read
  | write
  deriving DecidableEq

/-- The name that the event uses, and the way in which it does. A declaration with a value is a
write. -/
def Event.use? : Event → Option (Way × Node)
  | .read _ n => some (.read, n)
  | .written _ n => some (.write, n)
  | .declared _ n binding => if binding = .initialized then some (.write, n) else none
  | .opened .. | .endless _ | .nullish _ | .finished .. => none

/-- Whether the use is of a given way, at a given place. -/
def isUse (way : Way) (k : Nat) (u : Way × Node) : Bool := u.1 == way && u.2.number == k

/-- How often the event uses a place in a given way. -/
def Event.uses (way : Way) (k : Nat) (e : Event) : Nat := e.use?.toList.countP (isUse way k)

/-- How often the events of the draft use a place in a given way. -/
def Draft.uses (way : Way) (k : Nat) (D : Draft) : Nat :=
  (D.trace.toList.filterMap Event.use?).countP (isUse way k)

variable {way : Way} {k : Nat}

lemma Draft.uses_emit (D : Draft) (e : Event) :
    (D.emit e).uses way k = D.uses way k + e.uses way k := by
  rw [Draft.uses, Draft.emit, Array.toList_push, List.filterMap_append, List.countP_append,
    Draft.uses, Event.uses]
  cases h : e.use? with
  | none => simp [h]
  | some u => simp [h]

lemma Event.uses_le {e : Event} {n : Node} (h : ∀ u ∈ e.use?, u.2 = n) :
    e.uses way k ≤ n.here k := by
  rw [Event.uses, here]
  cases he : e.use? with
  | none => simp
  | some u =>
    obtain rfl := h u he
    simp only [Option.toList_some, List.countP_singleton, isUse, Bool.and_eq_true, beq_iff_eq]
    split_ifs with huse hat
    · exact Nat.le_refl 1
    · exact absurd huse.2 hat
    · exact Nat.zero_le 1
    · exact Nat.zero_le 0

/-- A name that is both read and written is used once in each way. -/
lemma Event.uses_read_add_written_le (scope : Nat) (n : Node) :
    (Event.read scope n).uses way k + (Event.written scope n).uses way k ≤ n.here k := by
  have hread : (Event.read scope n).uses way k ≤ n.here k := Event.uses_le (by simp [use?])
  have hwritten : (Event.written scope n).uses way k ≤ n.here k := Event.uses_le (by simp [use?])
  cases way with
  | read => simpa [Event.uses, use?, isUse] using hread
  | write => simpa [Event.uses, use?, isUse] using hwritten

namespace Build

variable {α β : Type} {i j : Nat}

/-- The step adds a number of uses at most of a place in a given way. -/
def Spends (way : Way) (k j : Nat) (act : Build α) : Prop :=
  ∀ D : Draft, (act D).2.uses way k ≤ D.uses way k + j

namespace Spends

lemma mono {act : Build α} (h : act.Spends way k i) (hij : i ≤ j) : act.Spends way k j :=
  fun D => Nat.le_trans (h D) (Nat.add_le_add_left hij _)

lemma pure (a : α) : Spends way k 0 (Pure.pure a : Build α) := fun _ => Nat.le_refl _

lemma bind {act : Build α} {next : α → Build β} (h : act.Spends way k i)
    (hn : ∀ a, (next a).Spends way k j) : (act >>= next).Spends way k (i + j) := by
  intro D
  have hfirst := h D
  have hsecond := hn (act D).1 (act D).2
  exact Nat.le_trans hsecond (by omega)

/-- A step that uses nothing comes first. -/
lemma seq {act : Build α} {next : α → Build β} (h : act.Spends way k 0)
    (hn : ∀ a, (next a).Spends way k j) : (act >>= next).Spends way k j :=
  (h.bind hn).mono (by omega)

/-- A step that uses nothing comes last. -/
lemma before {act : Build α} {next : α → Build β} (h : act.Spends way k j)
    (hn : ∀ a, (next a).Spends way k 0) : (act >>= next).Spends way k j :=
  (h.bind hn).mono (by omega)

lemma forM {act : Node → Build Unit} {cost : Node → Nat} (ns : List Node)
    (h : ∀ n ∈ ns, (act n).Spends way k (cost n)) :
    (ns.forM act).Spends way k (total cost ns) := by
  induction ns with
  | nil => exact .pure ()
  | cons n ns ih =>
    exact .bind (h n (by simp)) fun _ => ih fun m hm => h m (List.mem_cons_of_mem n hm)

/-- A step on the graph uses nothing. -/
lemma of_graph {act : Build α} (h : ∀ D, (act D).2.trace = D.trace) : act.Spends way k 0 := by
  intro D
  rw [Draft.uses, Draft.uses, h]
  exact Nat.le_refl _

lemma emit (e : Event) : (emit e).Spends way k (e.uses way k) :=
  fun D => Nat.le_of_eq (D.uses_emit e)

lemma emit_of_none {e : Event} (h : e.use? = none) : (Build.emit e).Spends way k 0 := by
  refine (Spends.emit e).mono ?_
  rw [Event.uses, h]
  exact Nat.le_refl _

lemma openScope (kind : ScopeKind) (parent : Option Nat) :
    (openScope kind parent).Spends way k 0 :=
  fun D => Spends.emit_of_none (e := .opened kind parent) rfl D

lemma declare (scope : Nat) (binding : Binding) (names : List Node) :
    (declare scope binding names).Spends way k (total (here k) names) := by
  refine .forM names fun b _ => (Spends.emit _).mono (Event.uses_le fun u hu => ?_)
  simp only [Event.use?] at hu
  split_ifs at hu
  · cases hu
    rfl
  · cases hu

lemma declare_of_zero {scope : Nat} {binding : Binding} {names : List Node}
    (h : ∀ b ∈ names, (Event.declared scope b binding).uses way k = 0) :
    (Build.declare scope binding names).Spends way k 0 := by
  induction names with
  | nil => exact .pure ()
  | cons b names ih =>
    have hfirst := (Spends.emit (.declared scope b binding)).mono (Nat.le_of_eq (h b (by simp)))
    exact .seq hfirst fun _ => ih fun c hc => h c (List.mem_cons_of_mem b hc)

/-- A declaration without a value uses nothing. -/
lemma declare_implicit (scope : Nat) (names : List Node) :
    (Build.declare scope .implicit names).Spends way k 0 :=
  .declare_of_zero fun _ _ => rfl

/-- A declaration reads nothing. -/
lemma declare_read (scope : Nat) (binding : Binding) (names : List Node) :
    (Build.declare scope binding names).Spends .read k 0 := by
  refine .declare_of_zero fun b _ => ?_
  cases binding with
  | initialized => simp [Event.uses, Event.use?, isUse]
  | uninitialized | implicit => rfl

lemma point (kind : PointKind) (n : Node) : (point kind n).Spends way k 0 :=
  .of_graph fun _ => rfl

lemma edge (s t : Nat) (l : Option Label) (b : Bool) : (edge s t l b).Spends way k 0 :=
  .of_graph fun _ => rfl

lemma onFreshGraph {act : Build Unit} (h : act.Spends way k j) (span : Span) :
    (onFreshGraph span act).Spends way k j :=
  fun D => h { D with graph := .fresh span }

end Spends

lemma composes_spends : Composes fun _ act => act.Spends way k 0 where
  bind := .seq
  of_graph h := .of_graph fun D => (h D).1

/-- The end of a function or of the program uses nothing. -/
lemma Spends.finish (f : Option Node) (ends : List OpenEnd) :
    Spends way k 0 (do
      Build.linkToExits ends
      Build.emit (.finished f (← get).graph)) :=
  .seq (composes_spends.linkToExits ends) fun _ => .seq (.of_graph fun _ => rfl) fun _ =>
    .emit_of_none rfl

end Build

/-! ### One step of the walk -/

/-- At every tidy node, the walk uses a place at most as often as the place lies at or below it. -/
structure Walker.Thrifty (w : Walker) (way : Way) (k : Nat) : Prop where
  statement : ∀ {n : Node}, n.Tidy → ∀ ends ctx, (w.statement n ends ctx).Spends way k (n.share k)
  expression : ∀ {n : Node}, n.Tidy → ∀ ctx, (w.expression n ctx).Spends way k (n.share k)
  function : ∀ {n : Node}, n.Tidy → ∀ ctx, (w.function n ctx).Spends way k (n.share k)

namespace Walker.Thrifty

open Build

variable {w : Walker} (hw : w.Thrifty way k) {n : Node} (hn : n.Tidy)
include hw

/-! #### Expressions -/

lemma visitAll {ms : List Node} (hms : ∀ m ∈ ms, m.Tidy) (ctx : Context) :
    (w.visitAll ms ctx).Spends way k (total (share k) ms) :=
  .forM ms fun m hm => hw.expression (hms m hm) ctx

include hn

lemma visitSome {ms : List Node} (hsub : ms.Sublist n.children) (ctx : Context) :
    (w.visitAll ms ctx).Spends way k (n.share k) :=
  (hw.visitAll (fun _ hm => hn.of_mem_children (hsub.subset hm)) ctx).mono
    (shares_le_of_sublist k hsub)

lemma visitChildren (ctx : Context) : (w.visitAll n.children ctx).Spends way k (n.share k) :=
  hw.visitSome hn (.refl _) ctx

lemma visitField (name : String) (ctx : Context) :
    (w.visitField n name ctx).Spends way k (n.fieldShare k name) :=
  hw.visitAll (fun _ hm => hn.of_field? (Option.mem_toList.1 hm)) ctx

lemma visitTarget (ctx : Context) : (w.visitTarget n ctx).Spends way k (n.share k) := by
  have htarget := n.unwrapped_mem_preorder
  have hle := share_le_of_mem_preorder k htarget
  simp only [Walker.visitTarget]
  split_ifs
  · have hself := shares_children_le k n.unwrapped
    have huses : (Event.written ctx.scope n.unwrapped).uses way k ≤ n.unwrapped.here k :=
      Event.uses_le (by simp [Event.use?])
    exact (Spends.emit _).mono (by omega)
  · exact (hw.expression (hn.of_mem_preorder htarget) ctx).mono hle

/-- The names of a target and its defaults are not more than the target. -/
lemma visitDeclarator (ctx : Context) : (w.visitDeclarator n ctx).Spends way k (n.share k) := by
  have hfields := hn.fields.fieldShares_le k ["value", "name"] (by decide)
  simp only [fieldShares] at hfields
  unfold Walker.visitDeclarator
  cases htarget? : n.field? "name" with
  | none => exact ((hw.visitField hn "value" ctx).before fun _ => .pure ()).mono (by omega)
  | some target =>
    have htarget := hn.of_field? htarget?
    have hdefaults := hw.visitAll (fun m hm =>
      htarget.of_inside (inside_of_mem_bindingDefaults hm)) ctx
    have hparts := htarget.fields.nameShare_add_le k
    rw [fieldShare_of_some htarget?] at hfields
    refine (Spends.bind (hw.visitField hn "value" ctx) fun _ =>
      .bind (.declare ctx.scope _ target.boundNames) fun _ => hdefaults).mono ?_
    rw [nameShare] at hparts
    omega

lemma visitUpdate (ctx : Context) : (w.visitUpdate n ctx).Spends way k (n.share k) := by
  unfold Walker.visitUpdate
  cases hargument : n.field? "argument" with
  | none => exact hw.visitChildren hn ctx
  | some argument =>
    dsimp only [Option.map_some]
    split_ifs
    · have htarget := share_le_of_mem_preorder k argument.unwrapped_mem_preorder
      have hself := shares_children_le k argument.unwrapped
      have hle := n.fieldShare_le k "argument"
      have huses : (Event.read ctx.scope argument.unwrapped).uses way k +
          (Event.written ctx.scope argument.unwrapped).uses way k ≤ argument.unwrapped.here k :=
        Event.uses_read_add_written_le _ _
      rw [fieldShare_of_some hargument] at hle
      exact (Spends.bind (.emit _) fun _ => .emit _).mono (by omega)
    · exact hw.visitChildren hn ctx

lemma visitFunction (ctx : Context) : (w.visitFunction n ctx).Spends way k (n.share k) := by
  have hfresh := (hw.function hn ctx).onFreshGraph n.span
  unfold Walker.visitFunction
  split_ifs
  · exact .seq (.declare_implicit _ _) fun _ => hfresh
  · exact hfresh

lemma visitClass (ctx : Context) : (w.visitClass n ctx).Spends way k (n.share k) :=
  .seq (.declare_implicit _ _) fun _ => hw.visitSome hn List.filter_sublist ctx

omit hw hn in
lemma checkReceiver (n : Node) (receiver : String) :
    (checkReceiver n receiver).Spends way k 0 := by
  unfold Walker.checkReceiver
  split_ifs
  · exact .emit_of_none rfl
  · exact .pure ()

lemma visitAssignment (ctx : Context) : Spends way k (n.share k) (do
    w.visitField n "right" ctx
    if let some left := n.field? "left" then
      w.visitTarget left ctx) := by
  have hfields := hn.fields.fieldShares_le k ["right", "left"] (by decide)
  simp only [fieldShares] at hfields
  cases hleft : n.field? "left" with
  | none => exact ((hw.visitField hn "right" ctx).before fun _ => .pure ()).mono (by omega)
  | some left =>
    rw [fieldShare_of_some hleft] at hfields
    exact (Spends.bind (hw.visitField hn "right" ctx) fun _ =>
      hw.visitTarget (hn.of_field? hleft) ctx).mono (by omega)

lemma visitExpression (ctx : Context) : (w.visitExpression n ctx).Spends way k (n.share k) := by
  unfold Walker.visitExpression
  cases expressionForm n with
  | name =>
    have hself := shares_children_le k n
    have huses : (Event.read ctx.scope n).uses way k ≤ n.here k :=
      Event.uses_le (by simp [Event.use?])
    exact (Spends.emit _).mono (by omega)
  | declarator => exact hw.visitDeclarator hn ctx
  | assignment => exact hw.visitAssignment hn ctx
  | update => exact hw.visitUpdate hn ctx
  | use receiver => exact .seq (checkReceiver n receiver) fun _ => hw.visitChildren hn ctx
  | inert => exact (Spends.pure ()).mono (Nat.zero_le _)
  | function => exact hw.visitFunction hn ctx
  | classDef => exact hw.visitClass hn ctx
  | compound => exact hw.visitChildren hn ctx

/-! #### Functions -/

lemma buildBody (ends : List OpenEnd) (ctx : Context) :
    (w.buildBody n ends ctx).Spends way k (n.fieldShare k "body") := by
  unfold Walker.buildBody
  cases hbody : n.field? "body" with
  | none => exact (Spends.pure ends).mono (Nat.zero_le _)
  | some body =>
    have htidy := hn.of_field? hbody
    rw [fieldShare_of_some hbody]
    dsimp only
    split_ifs
    · exact hw.statement htidy ends ctx
    · exact .seq (composes_spends.pointAfter _ body ends) fun _ =>
        .before (hw.expression htidy ctx) fun _ =>
          .seq (composes_spends.linkToExits _) fun _ => .pure []

lemma declareParameters (ctx : Context) :
    (w.declareParameters n ctx).Spends way k (total (share k) n.parameters) := by
  refine .forM _ fun p hp => ?_
  have htidy := hn.of_inside (inside_of_mem_parameters hp)
  have hdefaults := hw.visitAll (fun m hm =>
    htidy.of_inside (inside_of_mem_bindingDefaults hm)) ctx
  exact (Spends.seq (.declare_implicit _ _) fun _ => hdefaults).mono
    (shares_bindingDefaults_le htidy.fields k)

lemma buildFunction (ctx : Context) : (w.buildFunction n ctx).Spends way k (n.share k) := by
  have hparts := hn.fields.shares_parameters_le k
  refine .seq (.openScope _ _) fun scope => ?_
  have hbody : Spends way k (n.share k) (do
      w.declareParameters n (.root scope)
      let entry := OpenEnd.plain (← get).graph.entry
      let ends ← w.buildBody n [entry] (.root scope)
      linkToExits ends
      emit (.finished (some n) (← get).graph)) :=
    (Spends.bind (hw.declareParameters hn _) fun _ => .seq (.of_graph fun _ => rfl) fun _ =>
      .before (hw.buildBody hn _ _) fun ends => .finish (some n) ends).mono hparts
  dsimp only
  split_ifs
  · exact .seq (.declare_implicit _ _) fun _ => hbody
  · exact hbody

/-! #### Statements -/

omit hn in
lemma buildAll {ms : List Node} (hms : ∀ m ∈ ms, m.Tidy) (ends : List OpenEnd) (ctx : Context) :
    (w.buildAll ms ends ctx).Spends way k (total (share k) ms) := by
  induction ms generalizing ends with
  | nil => exact .pure ends
  | cons m ms ih =>
    have hrest : ∀ m' ∈ ms, m'.Tidy := fun m' hm' => hms m' (List.mem_cons_of_mem m hm')
    refine .bind (hw.statement (hms m List.mem_cons_self) ends ctx) fun out => ?_
    split_ifs
    · refine .before (.forM ms fun m' hm' => ?_) fun _ => .pure []
      exact .seq (.point _ m') fun _ => hw.expression (hrest m' hm') ctx
    · exact ih hrest out

lemma buildSequence {ms : List Node} (hsub : ∀ m ∈ ms, m ∈ n.children) (ends : List OpenEnd)
    (ctx : Context) : (w.buildSequence ms ends ctx).Spends way k (total (share k) ms) :=
  (hw.buildAll (fun m hm => hn.of_mem_children (hsub m (List.mem_of_mem_filter hm))) ends ctx).mono
    (total_le_of_sublist _ List.filter_sublist)

lemma buildField (name : String) (ends : List OpenEnd) (ctx : Context) :
    (w.buildField n name ends ctx).Spends way k (n.fieldShare k name) := by
  unfold Walker.buildField
  cases hpart : n.field? name with
  | none => exact (Spends.pure ends).mono (Nat.zero_le _)
  | some part =>
    rw [fieldShare_of_some hpart]
    exact hw.statement (hn.of_field? hpart) ends ctx

lemma buildLabeled (ends : List OpenEnd) (ctx : Context) :
    (w.buildLabeled n ends ctx).Spends way k (n.share k) := by
  unfold Walker.buildLabeled
  cases hbody : (n.field? "body").or n.children.getLast? with
  | none => exact (Spends.pure ends).mono (Nat.zero_le _)
  | some body =>
    have hinside := inside_of_field?_or_getLast? hbody
    exact (hw.statement (hn.of_inside hinside) ends ctx).mono
      (share_le_of_mem_preorder k hinside.mem_preorder)

lemma buildConditional (ends : List OpenEnd) (ctx : Context) :
    (w.buildConditional n ends ctx).Spends way k (n.share k) := by
  have hfields :=
    hn.fields.fieldShares_le k ["condition", "consequence", "alternative"] (by decide)
  simp only [fieldShares] at hfields
  refine (Spends.seq (composes_spends.pointAfter _ n ends) fun _ =>
    .bind (hw.visitField hn _ ctx) fun _ => .bind (hw.buildField hn _ _ ctx) fun _ =>
      .before (hw.buildField hn _ _ ctx) fun _ => composes_spends.join n _).mono ?_
  omega

omit hn in
lemma buildCases (branch : Nat) {cs : List Node} (hcs : ∀ c ∈ cs, c.Tidy) (ends : List OpenEnd)
    (ctx : Context) : (w.buildCases branch cs ends ctx).Spends way k (total (share k) cs) := by
  induction cs generalizing ends with
  | nil => exact .pure ends
  | cons c cs ih =>
    have hc := hcs c List.mem_cons_self
    have hcs' : ∀ c' ∈ cs, c'.Tidy := fun c' hc' => hcs c' (List.mem_cons_of_mem c hc')
    -- The value of a case is not among its statements.
    have hparts := shares_field_add_others_le k c "value"
    refine (Spends.bind (hw.visitField hc "value" ctx) fun _ =>
      .bind (hw.buildSequence hc (fun _ hm => List.mem_of_mem_filter hm) _ ctx) fun out =>
        ih hcs' out).mono ?_
    rw [total_cons]
    omega

lemma buildSwitch (hswitch : n.construct = .switch) (ends : List OpenEnd) (ctx : Context) :
    (w.buildSwitch n ends ctx).Spends way k (n.share k) := by
  have hfields := hn.fields.fieldShares_le k ["value", "body"] (by decide)
  obtain ⟨body, hbody⟩ := Option.isSome_iff_exists.1 (hn.bodies n n.self_mem_preorder hswitch)
  have hsub : (switchCases n).Sublist body.children := by
    rw [switchCases, hbody]
    exact List.filter_sublist
  have hle := shares_le_of_sublist k hsub
  simp only [fieldShares, fieldShare_of_some hbody]
    at hfields
  have hcases branch ctx := hw.buildCases branch
    (fun c hc => (hn.of_field? hbody).of_mem_children (hsub.subset hc)) [] ctx
  refine Spends.mono (i := n.fieldShare k "value" + total (share k) (switchCases n)) ?_ (by omega)
  refine .seq (composes_spends.pointAfter _ n ends) fun branch => ?_
  refine .bind (hw.visitField hn "value" ctx) fun _ => ?_
  refine .seq (.point _ n) fun merge => .seq (.openScope _ _) fun scope => ?_
  refine .before (hcases branch _) fun out => .seq (composes_spends.link out merge) fun _ => ?_
  split_ifs
  · exact .seq (.edge _ _ _ _) fun _ => composes_spends.openEndsOf merge
  · exact composes_spends.openEndsOf merge

lemma buildLoop (ends : List OpenEnd) (ctx : Context) :
    (w.buildLoop n ends ctx).Spends way k (n.fieldShare k "body") := by
  refine .seq (.point _ n) fun head => .seq (.point _ n) fun merge => ?_
  refine .seq (composes_spends.link _ _) fun _ => ?_
  cases hbody : n.field? "body" with
  | none =>
    exact (Spends.seq (.edge _ _ _ _) fun _ => .pure _).mono (Nat.zero_le _)
  | some body =>
    rw [fieldShare_of_some hbody]
    exact .before (hw.statement (hn.of_field? hbody) _ _) fun _ =>
      .seq (composes_spends.linkBack _ _) fun _ => .seq (.edge _ _ _ _) fun _ => .pure _

omit hw hn in
lemma checkLoop (n : Node) : (checkLoop n).Spends way k 0 := by
  unfold Walker.checkLoop
  split_ifs
  · exact .emit_of_none rfl
  · exact .pure ()

lemma buildFor (ends : List OpenEnd) (ctx : Context) :
    (w.buildFor n ends ctx).Spends way k (n.share k) := by
  have hfields :=
    hn.fields.fieldShares_le k ["initializer", "condition", "increment", "body"] (by decide)
  simp only [fieldShares] at hfields
  refine (Spends.seq (.openScope _ _) fun _ => .bind (hw.visitField hn _ _) fun _ =>
    .bind (hw.visitField hn _ _) fun _ => .bind (hw.visitField hn _ _) fun _ =>
      .seq (checkLoop n) fun _ => hw.buildLoop hn ends _).mono ?_
  omega

lemma buildForEach (ends : List OpenEnd) (ctx : Context) :
    (w.buildForEach n ends ctx).Spends way k (n.share k) := by
  have hfields := hn.fields.fieldShares_le k ["right", "left", "body"] (by decide)
  simp only [fieldShares] at hfields
  refine .seq (.openScope _ _) fun scope => ?_
  have hloop := hw.buildLoop hn ends (ctx.withScope scope)
  cases hleft? : n.field? "left" with
  | none => exact (Spends.bind (hw.visitField hn "right" ctx) fun _ => hloop).mono (by omega)
  | some left =>
    have hleft := hn.of_field? hleft?
    rw [fieldShare_of_some hleft?] at hfields
    dsimp only
    split_ifs
    · have hnames := hleft.fields.nameShare_add_le k
      rw [nameShare] at hnames
      exact (Spends.bind (hw.visitField hn "right" ctx) fun _ =>
        .bind (.declare _ _ left.boundNames) fun _ => hloop).mono (by omega)
    · exact (Spends.bind (hw.visitField hn "right" ctx) fun _ =>
        .bind (hw.visitTarget hleft _) fun _ => hloop).mono (by omega)

lemma buildWhile (ends : List OpenEnd) (ctx : Context) :
    (w.buildWhile n ends ctx).Spends way k (n.share k) := by
  have hfields := hn.fields.fieldShares_le k ["condition", "body"] (by decide)
  simp only [fieldShares] at hfields
  refine (Spends.seq (.openScope _ _) fun _ => .bind (hw.visitField hn _ _) fun _ =>
    .seq (checkLoop n) fun _ => hw.buildLoop hn ends _).mono ?_
  omega

lemma buildDoWhile (ends : List OpenEnd) (ctx : Context) :
    (w.buildDoWhile n ends ctx).Spends way k (n.share k) := by
  have hfields := hn.fields.fieldShares_le k ["body", "condition"] (by decide)
  simp only [fieldShares] at hfields
  refine (Spends.seq (.openScope _ _) fun _ => .seq (.point _ n) fun _ => .seq (.point _ n) fun _ =>
    .bind (hw.buildField hn _ _ _) fun _ => .seq (composes_spends.linkBack _ _) fun _ =>
      .before (hw.visitField hn _ _) fun _ => .seq (.edge _ _ _ _) fun _ => .pure _).mono ?_
  omega

lemma buildHandler (ends : List OpenEnd) (ctx : Context) :
    (w.buildHandler n ends ctx).Spends way k (n.fieldShare k "body") :=
  .seq (.openScope _ _) fun _ => .seq (.declare_implicit _ _) fun _ => hw.buildField hn _ _ _

/-- Of the handler only the body counts. -/
lemma buildTry_of_handler {i : Nat} (hi : ∀ handler, n.field? "handler" = some handler →
    handler.fieldShare k "body" ≤ i) (ends : List OpenEnd) (ctx : Context) :
    (w.buildTry n ends ctx).Spends way k
      (n.fieldShare k "body" + (i + n.fieldShare k "finalizer")) := by
  refine .bind (hw.buildField hn "body" ends ctx) fun tried => ?_
  cases hhandler : n.field? "handler"
  case' none => refine .bind ((Spends.pure []).mono (Nat.zero_le _)) fun caught => ?_
  case' some handler =>
    have hcaught := hw.buildHandler (hn.of_field? hhandler) ends ctx
    refine .bind (hcaught.mono (hi handler hhandler)) fun caught => ?_
  all_goals
    cases hfinalizer : n.field? "finalizer" with
    | none => exact (composes_spends.join n (tried ++ caught)).mono (Nat.zero_le _)
    | some finalizer =>
      have hbody := finalizer.field?_getD_mem_preorder "body"
      have htidy := (hn.of_field? hfinalizer).of_mem_preorder hbody
      have hle := share_le_of_mem_preorder k hbody
      rw [fieldShare_of_some hfinalizer]
      dsimp only
      split_ifs
      · exact ((hw.statement htidy _ ctx).mono hle).before fun _ => .pure []
      · exact (hw.statement htidy _ ctx).mono hle

lemma buildTry (ends : List OpenEnd) (ctx : Context) :
    (w.buildTry n ends ctx).Spends way k (n.share k) := by
  have hfields := hn.fields.fieldShares_le k ["body", "handler", "finalizer"] (by decide)
  simp only [fieldShares] at hfields
  have hhandler : ∀ handler, n.field? "handler" = some handler →
      handler.fieldShare k "body" ≤ n.fieldShare k "handler" := by
    intro handler hhandler
    rw [fieldShare_of_some hhandler]
    exact handler.fieldShare_le k "body"
  exact (hw.buildTry_of_handler hn hhandler ends ctx).mono (by omega)

lemma buildStatement (ends : List OpenEnd) (ctx : Context) :
    (w.buildStatement n ends ctx).Spends way k (n.share k) := by
  unfold Walker.buildStatement
  cases hconstruct : n.construct with
  | block | elseClause | switchCase | switchDefault =>
    exact (hw.buildSequence hn (fun _ hm => hm) ends ctx).mono (shares_le_of_sublist k (.refl _))
  | conditional => exact hw.buildConditional hn ends ctx
  | forLoop => exact hw.buildFor hn ends ctx
  | forEach => exact hw.buildForEach hn ends ctx
  | whileLoop => exact hw.buildWhile hn ends ctx
  | doWhile => exact hw.buildDoWhile hn ends ctx
  | switch => exact hw.buildSwitch hn hconstruct ends ctx
  | tryCatch => exact hw.buildTry hn ends ctx
  | returnJump =>
    exact .seq (composes_spends.pointAfter _ n ends) fun _ =>
      .before (hw.visitChildren hn ctx) fun _ =>
        .seq (composes_spends.linkToExits _) fun _ => .pure []
  | throwJump =>
    exact .seq (composes_spends.pointAfter _ n ends) fun _ =>
      .before (hw.visitChildren hn ctx) fun _ => .pure []
  | breakJump => exact (composes_spends.buildBreak n ends ctx).mono (Nat.zero_le _)
  | continueJump => exact (composes_spends.buildContinue n ends ctx).mono (Nat.zero_le _)
  | labeled => exact hw.buildLabeled hn ends ctx
  | ignored => exact (Spends.pure ends).mono (Nat.zero_le _)
  | declaration | function | classDef | statement =>
    exact .seq (composes_spends.pointAfter _ n ends) fun _ =>
      .before (hw.visitExpression hn ctx) fun _ => .pure _

end Walker.Thrifty

/-! ### Whole walks -/

lemma Walker.thrifty_idle : Walker.idle.Thrifty way k :=
  ⟨fun _ ends _ => (Build.Spends.pure ends).mono (Nat.zero_le _),
    fun _ _ => (Build.Spends.pure ()).mono (Nat.zero_le _),
    fun _ _ => (Build.Spends.pure ()).mono (Nat.zero_le _)⟩

/-- Down to every depth the walk uses a place once at most where the place lies, and elsewhere not
at all. -/
theorem thrifty_walker (d : Nat) : (walker d).Thrifty way k := by
  induction d with
  | zero =>
    exact ⟨Walker.thrifty_idle.statement, Walker.thrifty_idle.expression,
      fun hn ctx => Walker.thrifty_idle.buildFunction hn ctx⟩
  | succ d ih =>
    exact ⟨fun hn ends ctx => ih.buildStatement hn ends ctx,
      fun hn ctx => ih.visitExpression hn ctx, fun hn ctx => ih.buildFunction hn ctx⟩

lemma uses_start (n : Node) : (Draft.start n).uses way k = 0 := rfl

theorem uses_draftProgram_le {n : Node} (hn : n.Tidy) (o : Options) :
    (draftProgram o n).uses way k ≤ n.share k := by
  have hbuild : (buildProgram (walker (o.maxDepth + 1)) n).Spends way k (n.share k) :=
    .seq (.openScope _ _) fun _ => .seq (.of_graph fun _ => rfl) fun _ =>
      .before ((thrifty_walker _).statement hn _ _) fun ends => .finish none ends
  have hle := hbuild (.start n)
  rwa [uses_start, Nat.zero_add] at hle

theorem uses_draftFunction_le {n : Node} (hn : n.Tidy) (o : Options) :
    (draftFunction o n).uses way k ≤ n.share k := by
  have hbuild : (buildRootFunction (walker (o.maxDepth + 1)) n).Spends way k (n.share k) :=
    .seq (.openScope _ _) fun _ => (thrifty_walker _).function hn _
  have hle := hbuild (.start n)
  rwa [uses_start, Nat.zero_add] at hle

/-! ### Entries -/

/-- The uses behind the entries that events add to a list of the ledger: those at which the list
changes. -/
def additions (list : Ledger → Array Access) : Ledger → List Event → List (Way × Node)
  | _, [] => []
  | l, e :: events =>
    (if list (l.record e) = list l then [] else e.use?.toList) ++
      additions list (l.record e) events

/-- The list stays as it is, or one entry is added to it, for the name that the event uses in one of
some ways. -/
def Event.Adds (e : Event) (ways : List Way) (before after : Array Access) : Prop :=
  after = before ∨ ∃ u ∈ e.use?, u.1 ∈ ways ∧ after = before.push (.of u.2)

/-- Whatever happens, the list grows by uses in some ways only. -/
def AddsUses (list : Ledger → Array Access) (ways : List Way) : Prop :=
  ∀ (l : Ledger) (e : Event), e.Adds ways (list l) (list (l.record e))

section Additions

variable {list : Ledger → Array Access} {ways : List Way}

lemma additions_sublist (list : Ledger → Array Access) (l : Ledger) (events : List Event) :
    (additions list l events).Sublist (events.filterMap Event.use?) := by
  induction events generalizing l with
  | nil => exact .slnil
  | cons e events ih =>
    have hcons : (e :: events).filterMap Event.use? =
        e.use?.toList ++ events.filterMap Event.use? := by
      cases he : e.use? <;> simp [he]
    rw [hcons, additions]
    refine List.Sublist.append ?_ (ih _)
    split_ifs
    · exact List.nil_sublist _
    · exact .refl _

/-- Played back, a list is filled by the additions to it. -/
lemma AddsUses.foldl_eq (h : AddsUses list ways) (l : Ledger) (events : List Event) :
    (list (events.foldl Ledger.record l)).toList =
      (list l).toList ++ (additions list l events).map fun u => .of u.2 := by
  induction events generalizing l with
  | nil => simp [additions]
  | cons e events ih =>
    rw [List.foldl_cons, ih, additions]
    rcases h l e with hsame | ⟨u, hu, -, hpush⟩
    · rw [if_pos hsame, hsame, List.nil_append]
    · have hne : list (l.record e) ≠ list l := by
        intro heq
        have hsize := congrArg Array.size (hpush.symm.trans heq)
        simp at hsize
      rw [if_neg hne, hpush, Option.mem_def.1 hu]
      simp

lemma AddsUses.ways_of_mem (h : AddsUses list ways) {l : Ledger} {events : List Event}
    {u : Way × Node} (hu : u ∈ additions list l events) : u.1 ∈ ways := by
  induction events generalizing l with
  | nil => cases hu
  | cons e events ih =>
    rw [additions, List.mem_append] at hu
    rcases hu with hu | hu
    · rcases h l e with hsame | ⟨u', hu', hway, -⟩
      · rw [if_pos hsame] at hu
        cases hu
      · split_ifs at hu
        · cases hu
        · rw [Option.mem_toList, Option.mem_def.1 hu'] at hu
          cases hu
          exact hway
    · exact ih hu

end Additions

/-- What an event may add to each list. -/
structure Ledger.Adds (l : Ledger) (e : Event) : Prop where
  reads : e.Adds [.read] l.reads (l.record e).reads
  writes : e.Adds [.write] l.writes (l.record e).writes
  captures : e.Adds [.read, .write] l.captures (l.record e).captures
  uninitialized : e.Adds [.read] l.uninitialized (l.record e).uninitialized

lemma Event.Adds.push {e : Event} {way : Way} {n : Node} {ways : List Way}
    (h : e.use? = some (way, n)) (hway : way ∈ ways) (xs : Array Access) :
    e.Adds ways xs (xs.push (.of n)) :=
  .inr ⟨(way, n), h, hway, rfl⟩

lemma Event.Adds.ite {e : Event} {ways : List Way} {xs ys zs : Array Access} (c : Prop)
    [Decidable c] (hy : e.Adds ways xs ys) (hz : e.Adds ways xs zs) :
    e.Adds ways xs (if c then ys else zs) := by
  split_ifs
  · exact hy
  · exact hz

lemma Ledger.Adds.of_eq {l : Ledger} {e : Event} (h : l.record e = l) : l.Adds e :=
  ⟨.inl (by rw [h]), .inl (by rw [h]), .inl (by rw [h]), .inl (by rw [h])⟩

theorem Ledger.adds (l : Ledger) (e : Event) : l.Adds e := by
  cases e with
  | read scope n =>
    have hpush {ways : List Way} (h : .read ∈ ways) := Event.Adds.push (e := .read scope n) rfl h
    -- A name that is not known leaves no trace when it is read.
    cases hr : l.scopes.resolve? scope n.text with
    | none => exact .of_eq (read_of_none hr)
    | some r =>
      cases hv : l.scopes.vars[r.var]? with
      | none => exact .of_eq (by simp only [record, read, hr, hv])
      | some v =>
        constructor
        all_goals rw [record, read_of_some hr hv]
        · exact hpush (by simp) _
        · exact .inl rfl
        · exact .ite _ (hpush (by simp) _) (.inl rfl)
        · exact .ite _ (.inl rfl) (hpush (by simp) _)
  | written scope n =>
    have hpush {ways : List Way} (h : .write ∈ ways) :=
      Event.Adds.push (e := .written scope n) rfl h
    -- A name that is written to is recorded, known or not.
    cases hr : l.scopes.resolve? scope n.text with
    | none =>
      constructor
      all_goals rw [record, write_of_none hr]
      case writes => exact hpush (by simp) _
      all_goals exact .inl rfl
    | some r =>
      constructor
      all_goals rw [record, write_of_some hr]
      · exact .inl rfl
      · exact hpush (by simp) _
      · exact .ite _ (hpush (by simp) _) (.inl rfl)
      · exact .inl rfl
  | declared scope n binding =>
    refine ⟨.inl rfl, ?_, .inl rfl, .inl rfl⟩
    cases binding with
    | initialized => exact .inr ⟨(.write, n), rfl, by simp, rfl⟩
    | uninitialized | implicit => exact .inl rfl
  | opened => exact ⟨.inl rfl, .inl rfl, .inl rfl, .inl rfl⟩
  | endless | nullish | finished => exact .of_eq rfl

/-- The entries stand for uses, one for one, all of some ways. No two of these uses are of the same
way and at the same place. -/
structure Tallied (entries : Array Access) (uses : List (Way × Node)) (ways : List Way) : Prop where
  entries_eq : entries.toList = uses.map fun u => .of u.2
  ways : ∀ u ∈ uses, u.1 ∈ ways
  once : (uses.map fun u => (u.1, u.2.number)).Nodup

/-- All lists of uses in the report have one entry at most for each place, and for each way if uses
of both ways are listed. -/
structure Report.CountsOnce (r : Report) (o : Options) (events : List Event) : Prop where
  reads : Tallied r.reads (additions Ledger.reads .empty events) [.read]
  writes : Tallied r.writes (additions Ledger.writes .empty events) [.write]
  captures : Tallied r.captures (additions Ledger.captures .empty events) [.read, .write]
  uninitializedReads : Tallied r.uninitializedReads
    (if o.uninitializedReads then additions Ledger.uninitialized .empty events else []) [.read]

lemma AddsUses.entries_eq {list : Ledger → Array Access} {ways : List Way} (h : AddsUses list ways)
    (hempty : list .empty = #[]) (D : Draft) : (list (Ledger.ofTrace D.trace)).toList =
      (additions list .empty D.trace.toList).map fun u => .of u.2 := by
  have hfold := h.foldl_eq .empty D.trace.toList
  rw [hempty, Array.foldl_toList] at hfold
  exact hfold

lemma AddsUses.tallied {list : Ledger → Array Access} {ways : List Way} (h : AddsUses list ways)
    (hempty : list .empty = #[]) {D : Draft} (hD : ∀ way k, D.uses way k ≤ 1) :
    Tallied (list (Ledger.ofTrace D.trace)) (additions list .empty D.trace.toList) ways where
  entries_eq := h.entries_eq hempty D
  ways _ := h.ways_of_mem
  once := by
    refine List.nodup_iff_count_le_one.2 fun ⟨way, k⟩ => ?_
    have hle := ((additions_sublist list .empty D.trace.toList).map
      fun u => (u.1, u.2.number)).count_le (way, k)
    refine Nat.le_trans hle (Nat.le_trans (Nat.le_of_eq ?_) (hD way k))
    rw [List.count, List.countP_map, Draft.uses]
    rfl

lemma Draft.WellFormed.report_countsOnce {D : Draft} (h : D.WellFormed)
    (hD : ∀ way k, D.uses way k ≤ 1) (o : Options) :
    ∃ r, report o D = .ok r ∧ r.CountsOnce o D.trace.toList := by
  obtain ⟨r, hr, hshows⟩ := h.report_showsUses o
  refine ⟨r, hr, ?_, ?_, ?_, ?_⟩
  · rw [hshows.reads]
    exact AddsUses.tallied (fun l e => (l.adds e).reads) rfl hD
  · rw [hshows.writes]
    exact AddsUses.tallied (fun l e => (l.adds e).writes) rfl hD
  · rw [hshows.captures]
    exact AddsUses.tallied (fun l e => (l.adds e).captures) rfl hD
  · rw [hshows.uninitializedReads]
    split_ifs
    · exact AddsUses.tallied (fun l e => (l.adds e).uninitialized) rfl hD
    · exact ⟨rfl, by simp, List.nodup_nil⟩

/-- In a tidy tree each occurrence of a name is counted once: whatever is analyzed, it has one entry
at most among the reads, the writes and the reads without a value, and one at most for each way
among the captures. -/
theorem occurrences_counted_once (o : Options) {n : Node} (hn : n.Tidy) :
    (∃ r, analyze o n = .ok r ∧ r.CountsOnce o (draftProgram o n).trace.toList) ∧
    (∃ r, analyzeFunction o n = .ok r ∧ r.CountsOnce o (draftFunction o n).trace.toList) := by
  constructor
  · exact (wellFormed_draftProgram o n).report_countsOnce
      (fun _ k => Nat.le_trans (uses_draftProgram_le hn o) (n.share_le_one k)) o
  · exact (wellFormed_draftFunction o n).report_countsOnce
      (fun _ k => Nat.le_trans (uses_draftFunction_le hn o) (n.share_le_one k)) o

/-- A closure over a variable that is counted up in it, in a case whose value reads the variable
too, with a pattern that declares a name and reads the variable as its default. -/
theorem occurrences_counted_once_closure :
    let x : Tree := .leaf "identifier" "x"
    let declarator : Tree := ⟨"variable_declarator", "x", .zero, [x], .ofList [("name", 0)]⟩
    let closure : Tree := ⟨"arrow_function", "() => x++", .zero,
      [.leaf "formal_parameters" "()",
        ⟨"update_expression", "x++", .zero, [x], .ofList [("argument", 0)]⟩],
      .ofList [("parameters", 0), ("body", 1)]⟩
    let target : Tree := ⟨"object_pattern", "{ y = x }", .zero,
      [⟨"object_assignment_pattern", "y = x", .zero,
        [.leaf "shorthand_property_identifier_pattern" "y", x],
        .ofList [("left", 0), ("right", 1)]⟩], ∅⟩
    let pattern : Tree := ⟨"variable_declarator", "{ y = x } = f", .zero,
      [target, .leaf "identifier" "f"], .ofList [("name", 0), ("value", 1)]⟩
    let case : Tree := ⟨"switch_case", "case x: () => x++; let { y = x } = f", .zero,
      [x, ⟨"expression_statement", "() => x++", .zero, [closure], ∅⟩,
        ⟨"lexical_declaration", "let { y = x } = f", .zero, [pattern], ∅⟩], .ofList [("value", 0)]⟩
    let switch : Tree := ⟨"switch_statement", "switch (x) { .. }", .zero,
      [x, ⟨"switch_body", "{ .. }", .zero, [case], ∅⟩], .ofList [("value", 0), ("body", 1)]⟩
    let n := Node.root ⟨"program", "", .zero,
      [⟨"lexical_declaration", "let x", .zero, [declarator], ∅⟩, switch], ∅⟩
    n.Tidy ∧
    (analyze {} n).toOption.map (fun r => (r.reads.map (·.name), r.writes.map (·.name),
      r.captures.map (·.name), r.uninitializedReads.size)) =
      some (#["x", "x", "x", "x"], #["x", "y"], #["x", "x"], 3) ∧
    ∃ r, analyze {} n = .ok r ∧ r.CountsOnce {} (draftProgram {} n).trace.toList := by
  intro x declarator closure target pattern case switch n
  have hn : n.Tidy := by decide +kernel
  exact ⟨hn, by decide +kernel, (occurrences_counted_once {} hn).1⟩

end Arbor.Flow
