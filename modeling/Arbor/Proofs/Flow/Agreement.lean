import Arbor.Proofs.Flow.Alike

/-!
# Walks that agree

Two walks over a node and its counterpart do the same to drafts that are alike: they extend the
graphs in the same way, and find the same. Walks agree that may go down to the same depth, and also
walks that both get to the end of every branch. A node is its own counterpart, so what holds of the
two walks holds of two walks over the same node.
-/

namespace Arbor.Flow

/-- The walks agree on the nodes inside `n`, and the second passes over comments. -/
structure Walker.Agrees (E : Node → Node → Prop) (whole : Bool) (n : Node) (w w' : Walker) :
    Prop where
  statement {m m' : Node} (hm : m.Inside n) (h : E m m') (ends : List OpenEnd) {c c' : Context}
    (hc : c.Alike whole c') :
    Build.Agrees E whole Eq (w.statement m ends c) (w'.statement m' ends c')
  expression {m m' : Node} (hm : m.Inside n) (h : E m m') {c c' : Context}
    (hc : c.Alike whole c') : Build.Agrees E whole Eq (w.expression m c) (w'.expression m' c')
  comment {m : Node} (hm : m.IsComment) (c : Context) : w'.expression m c = pure ()

namespace Walker

open Build

variable {E : Node → Node → Prop} {w w' : Walker} {whole : Bool} {m m' n n' : Node}
  {c c' : Context} {spares : Node → List Bool → Prop} (hE : Mirrors spares E)
include hE

/-! ### Expressions -/

lemma agrees_checkReceiver (h : E n n') {receiver : String}
    (hform : expressionForm n = .use receiver) :
    Build.Agrees E whole Eq (checkReceiver n receiver) (checkReceiver n' receiver) := by
  have hopened (r : Node) (hr : n.field? receiver = some r) :
      ∀ m ∈ r :: branches r.unwrapped, m ∈ openedParts n := by
    intro m hm
    apply List.mem_append_right
    simpa [operandParts, hform, hr] using hm
  have hnullish : (n'.field? receiver).any isNullishReceiver
      = (n.field? receiver).any isNullishReceiver := by
    match hr : n.field? receiver, n'.field? receiver, hE.field? h receiver with
    | none, none, .none => rfl
    | some r, some r', .some hrr' =>
      obtain ⟨hfirst, hrest⟩ := List.forall_mem_cons.1 (hopened r hr)
      exact hE.isNullishReceiver (hE.opened h hfirst hrr') fun m hm _ => hE.opened h (hrest m hm)
  rw [checkReceiver, checkReceiver, hnullish]
  split_ifs
  · exact .emit rfl fun _ => .nullish h
  · exact .pure rfl

lemma agrees_checkLoop (h : E n n')
    (hloop : n.construct = .forLoop ∨ n.construct = .whileLoop) :
    Build.Agrees E whole Eq (checkLoop n) (checkLoop n') := by
  have hopened : ∀ m ∈ n.field? "condition", m ∈ openedParts n := by
    intro m hm
    apply List.mem_append_left
    rcases hloop with hloop | hloop <;> simpa [headerParts, hloop] using hm
  rw [checkLoop, checkLoop, hE.isInfiniteLoop h fun m hm _ => hE.opened h (hopened m hm)]
  split_ifs
  · exact .emit rfl fun _ => .endless h
  · exact .pure rfl

lemma agrees_visitFunction (h : E n n')
    (hf : ∀ {c c'}, c.Alike whole c' →
      Build.Agrees E whole Eq (w.function n c) (w'.function n' c'))
    (hc : c.Alike whole c') :
    Build.Agrees E whole Eq (w.visitFunction n c) (w'.visitFunction n' c') := by
  have hfresh := Agrees.onFreshGraph (hE.span h) (hf hc)
  unfold visitFunction
  rw [hE.kind h]
  split_ifs
  · exact .seq (.declare hc.scope _ (forall₂_toList (hE.field? h _))) fun _ => hfresh
  · exact hfresh

section

variable (hw : w.Agrees E whole n w')
include hw

omit hE in
lemma agrees_visitAll {ms ms' : List Node} (hms : ∀ m ∈ ms, m.Inside n)
    (h : Arbor.Spread Node.IsComment E ms ms') (hc : c.Alike whole c') :
    Build.Agrees E whole Eq (w.visitAll ms c) (w'.visitAll ms' c') :=
  .forM_spread h (fun m hm _ h => hw.expression (hms m hm) h hc) fun _ hm => hw.comment hm c'

lemma agrees_visitChildren (h : E n n') (hc : c.Alike whole c') :
    Build.Agrees E whole Eq (w.visitAll n.children c) (w'.visitAll n'.children c') :=
  agrees_visitAll hw (fun _ hm => Node.inside_of_mem_children hm) (hE.children h) hc

lemma agrees_visitField (hm : m ∈ n.preorder) (h : E m m') (name : String)
    (hc : c.Alike whole c') :
    Build.Agrees E whole Eq (w.visitField m name c) (w'.visitField m' name c') := by
  refine agrees_visitAll hw (fun p hp => ?_) (.of_option (hE.field? h name)) hc
  exact (Node.inside_of_field? (Option.mem_toList.1 hp)).up hm

lemma agrees_visitTarget (hn : E n n') (hopened : m ∈ openedParts n) (hm : m.Inside n)
    (h : E m m') (hc : c.Alike whole c') :
    Build.Agrees E whole Eq (w.visitTarget m c) (w'.visitTarget m' c') := by
  have htarget := hE.opened hn hopened h
  simp only [visitTarget, hE.expressionForm htarget]
  split_ifs
  · exact .emit_scoped (fun hw => by rw [hc.scope hw]; exact .written _ htarget) rfl rfl
  · exact hw.expression (hm.of_mem_preorder m.unwrapped_mem_preorder) htarget hc

lemma agrees_visitDefaults (hm : m.Inside n) (h : E m m') (hc : c.Alike whole c') :
    Build.Agrees E whole Eq (w.visitAll m.bindingDefaults c)
      (w'.visitAll m'.bindingDefaults c') :=
  agrees_visitAll hw (fun _ hd => (Node.inside_of_mem_bindingDefaults hd).trans hm)
    (.of_forall₂ (hE.bindingDefaults h)) hc

lemma agrees_visitDeclarator (h : E n n') (hc : c.Alike whole c') :
    Build.Agrees E whole Eq (w.visitDeclarator n c) (w'.visitDeclarator n' c') := by
  refine .seq (agrees_visitField hE hw n.self_mem_preorder h _ hc) fun _ => ?_
  rw [hE.isSome_field? h]
  match hname : n.field? "name", n'.field? "name", hE.field? h "name" with
  | none, none, .none => exact .pure rfl
  | some target, some target', .some htarget =>
    exact .seq (.declare hc.scope _ (hE.boundNames htarget)) fun _ =>
      agrees_visitDefaults hE hw (Node.inside_of_field? hname) htarget hc

lemma agrees_visitUpdate (h : E n n') (hform : expressionForm n = .update)
    (hc : c.Alike whole c') :
    Build.Agrees E whole Eq (w.visitUpdate n c) (w'.visitUpdate n' c') := by
  unfold visitUpdate
  match hargument : n.field? "argument", n'.field? "argument", hE.field? h "argument" with
  | none, none, .none => exact agrees_visitChildren hE hw h hc
  | some m, some m', .some hm =>
    have hopened : m ∈ openedParts n :=
      List.mem_append_right _ (by simp [operandParts, hform, hargument])
    have htarget := hE.opened h hopened hm
    simp only [Option.map_some, hE.expressionForm htarget]
    split_ifs
    · refine .seq (.emit_scoped (fun hw => ?_) rfl rfl) fun _ =>
        .emit_scoped (fun hw => ?_) rfl rfl
      · rw [hc.scope hw]
        exact .read _ htarget
      · rw [hc.scope hw]
        exact .written _ htarget
    · exact agrees_visitChildren hE hw h hc

lemma agrees_visitClass (h : E n n') (hc : c.Alike whole c') :
    Build.Agrees E whole Eq (w.visitClass n c) (w'.visitClass n' c') := by
  refine .seq (.declare hc.scope _ (forall₂_toList (hE.field? h _))) fun _ =>
    agrees_visitAll hw (fun m hm => ?_) (hE.others h "name") hc
  exact Node.inside_of_mem_children (List.mem_filter.1 hm).1

lemma agrees_declareParameters (h : E n n') (hc : c.Alike whole c') :
    Build.Agrees E whole Eq (w.declareParameters n c) (w'.declareParameters n' c') := by
  refine .forM_spread (hE.parameters h) (fun p hp p' hpp' => ?_) fun p' hp' => ?_
  · exact .seq (.declare hc.scope _ (hE.boundNames hpp')) fun _ =>
      agrees_visitDefaults hE hw (Node.inside_of_mem_parameters hp) hpp' hc
  · rw [hp'.boundNames, hp'.bindingDefaults]
    rfl

theorem agrees_visitExpression (h : E n n')
    (hf : ∀ {c c'}, c.Alike whole c' →
      Build.Agrees E whole Eq (w.function n c) (w'.function n' c'))
    (hc : c.Alike whole c') :
    Build.Agrees E whole Eq (w.visitExpression n c) (w'.visitExpression n' c') := by
  unfold visitExpression
  rw [hE.expressionForm h]
  cases hform : expressionForm n with
  | name => exact .emit_scoped (fun hw => by rw [hc.scope hw]; exact .read _ h) rfl rfl
  | declarator => exact agrees_visitDeclarator hE hw h hc
  | assignment =>
    refine .seq (agrees_visitField hE hw n.self_mem_preorder h _ hc) fun _ => ?_
    match hleft : n.field? "left", n'.field? "left", hE.field? h "left" with
    | none, none, .none => exact .pure rfl
    | some left, some left', .some hl =>
      have hopened : left ∈ openedParts n :=
        List.mem_append_right _ (by simp [operandParts, hform, hleft])
      exact agrees_visitTarget hE hw h hopened (Node.inside_of_field? hleft) hl hc
  | update => exact agrees_visitUpdate hE hw h hform hc
  | use receiver =>
    exact .seq (agrees_checkReceiver hE h hform) fun _ => agrees_visitChildren hE hw h hc
  | inert => exact .pure rfl
  | function => exact agrees_visitFunction hE h hf hc
  | classDef => exact agrees_visitClass hE hw h hc
  | compound => exact agrees_visitChildren hE hw h hc

end

/-! ### Statements -/

lemma agrees_buildBreak (h : E n n') (ends : List OpenEnd) (hc : c.Alike whole c') :
    Build.Agrees E whole Eq (buildBreak n ends c) (buildBreak n' ends c') := by
  unfold buildBreak
  rw [hc.breakTarget?]
  refine .seq (.pointAfter h (hE.span h) _ ends) fun p => ?_
  cases c.breakTarget? with
  | none => exact .pure rfl
  | some target => exact .seq (.edge _ _ _ _) fun _ => .pure rfl

lemma agrees_buildContinue (h : E n n') (ends : List OpenEnd) (hc : c.Alike whole c') :
    Build.Agrees E whole Eq (buildContinue n ends c) (buildContinue n' ends c') := by
  unfold buildContinue
  rw [hc.loopEntry]
  refine .seq (.pointAfter h (hE.span h) _ ends) fun p => ?_
  cases c.loopEntry with
  | none => exact .pure rfl
  | some head => exact .seq (.edge _ _ _ _) fun _ => .pure rfl

section

variable (hw : w.Agrees E whole n w')
include hw

lemma agrees_buildField (hm : m ∈ n.preorder) (h : E m m') (name : String) (ends : List OpenEnd)
    (hc : c.Alike whole c') :
    Build.Agrees E whole Eq (w.buildField m name ends c) (w'.buildField m' name ends c') := by
  unfold buildField
  match hpart : m.field? name, m'.field? name, hE.field? h name with
  | none, none, .none => exact .pure rfl
  | some part, some part', .some hp =>
    exact hw.statement ((Node.inside_of_field? hpart).up hm) hp ends hc

lemma agrees_buildLabeled (h : E n n') (hlabeled : n.construct = .labeled) (ends : List OpenEnd)
    (hc : c.Alike whole c') :
    Build.Agrees E whole Eq (w.buildLabeled n ends c) (w'.buildLabeled n' ends c') := by
  unfold buildLabeled
  match hbody : (n.field? "body").or n.children.getLast?,
    (n'.field? "body").or n'.children.getLast?, hE.labeled h hlabeled with
  | none, none, .none => exact .pure rfl
  | some body, some body', .some hb =>
    exact hw.statement (Node.inside_of_field?_or_getLast? hbody) hb ends hc

lemma agrees_buildLoop (h : E n n') (ends : List OpenEnd) (hc : c.Alike whole c') :
    Build.Agrees E whole Eq (w.buildLoop n ends c) (w'.buildLoop n' ends c') := by
  have hspan := hE.span h
  refine .seq (.point h hspan _) fun head => .seq (.point h hspan _) fun merge => ?_
  refine .seq (.link _ _) fun _ => ?_
  match hbody : n.field? "body", n'.field? "body", hE.field? h "body" with
  | none, none, .none => exact .seq (.edge _ _ _ _) fun _ => .pure rfl
  | some body, some body', .some hb =>
    have hlow := Node.inside_of_field? hbody
    exact .seq (hw.statement hlow hb _ (.inLoop hc.scope head merge)) fun _ =>
      .seq (.linkBack _ _) fun _ => .seq (.edge _ _ _ _) fun _ => .pure rfl

lemma agrees_buildHandler (hm : m.Inside n) (h : E m m') (ends : List OpenEnd)
    (hc : c.Alike whole c') :
    Build.Agrees E whole Eq (w.buildHandler m ends c) (w'.buildHandler m' ends c') :=
  .bind (.openScope _ fun hw => by rw [hc.scope hw]) fun _ _ hscope =>
    .seq (.declare hscope _ (hE.boundNames_field? h "parameter")) fun _ =>
      agrees_buildField hE hw hm.mem_preorder h "body" _ (hc.withScope hscope)

lemma agrees_buildTry (h : E n n') (ends : List OpenEnd) (hc : c.Alike whole c') :
    Build.Agrees E whole Eq (w.buildTry n ends c) (w'.buildTry n' ends c') := by
  refine .seq (agrees_buildField hE hw n.self_mem_preorder h "body" ends hc) fun tried => ?_
  have hhandler := hE.field? h "handler"
  generalize hx : n.field? "handler" = x, n'.field? "handler" = x' at hhandler
  cases hhandler
  case' none => refine .seq (.pure rfl) fun caught => ?_
  case' some handler handler' hh =>
    have hlow := Node.inside_of_field? hx
    refine .seq (agrees_buildHandler hE hw hlow hh ends hc) fun caught => ?_
  -- With a handler or without one, what follows is the same.
  all_goals
    match hfin : n.field? "finalizer", n'.field? "finalizer", hE.field? h "finalizer" with
    | none, none, .none => exact .join h (hE.span h) (tried ++ caught)
    | some finalizer, some finalizer', .some hf =>
      have hlow := (Node.inside_of_field? hfin).of_mem_preorder
        (finalizer.field?_getD_mem_preorder "body")
      have hbody := hE.field?_getD hf "body"
      dsimp only
      split_ifs
      · exact .seq (hw.statement hlow hbody _ hc) fun _ => .pure rfl
      · exact hw.statement hlow hbody _ hc

/-! ### Sequences -/

lemma agrees_buildAll {ms ms' : List Node} (hms : ∀ m ∈ ms, m.Inside n)
    (h : List.Forall₂ E ms ms') (ends : List OpenEnd) (hc : c.Alike whole c') :
    Build.Agrees E whole Eq (w.buildAll ms ends c) (w'.buildAll ms' ends c') := by
  induction h generalizing ends with
  | nil => exact .pure rfl
  | @cons m m' ms ms' hm hrest ih =>
    have hlow : ∀ m ∈ ms, m.Inside n := fun m hm => hms m (List.mem_cons_of_mem _ hm)
    refine .seq (hw.statement (hms m (by simp)) hm ends hc) fun out => ?_
    split_ifs
    · refine .seq (.forM hrest fun p hp p' hpp' => ?_) fun _ => .pure rfl
      exact .seq (.point hpp' (hE.span hpp') _) fun _ => hw.expression (hlow p hp) hpp' hc
    · exact ih hlow out

lemma agrees_buildSequence {ms ms' : List Node} (hms : ∀ m ∈ ms, m.Inside n)
    (h : Arbor.Spread Node.IsComment E ms ms') (ends : List OpenEnd) (hc : c.Alike whole c') :
    Build.Agrees E whole Eq (w.buildSequence ms ends c) (w'.buildSequence ms' ends c') :=
  agrees_buildAll hE hw (fun m hm => hms m (List.mem_filter.1 hm).1) (hE.statements h) ends hc

lemma agrees_buildConditional (h : E n n') (ends : List OpenEnd) (hc : c.Alike whole c') :
    Build.Agrees E whole Eq (w.buildConditional n ends c) (w'.buildConditional n' ends c') :=
  have hself := n.self_mem_preorder
  .seq (.pointAfter h (hE.span h) _ ends) fun _ =>
    .seq (agrees_visitField hE hw hself h _ hc) fun _ =>
      .seq (agrees_buildField hE hw hself h _ _ hc) fun _ =>
        .seq (agrees_buildField hE hw hself h _ _ hc) fun _ => .join h (hE.span h) _

lemma agrees_buildCases (branch : Nat) {ms ms' : List Node} (hms : ∀ m ∈ ms, m.Inside n)
    (h : List.Forall₂ E ms ms') (ends : List OpenEnd) (hc : c.Alike whole c') :
    Build.Agrees E whole Eq (w.buildCases branch ms ends c) (w'.buildCases branch ms' ends c') := by
  induction h generalizing ends with
  | nil => exact .pure rfl
  | @cons m m' ms ms' hm _ ih =>
    have hlow := hms m (by simp)
    refine .seq (agrees_visitField hE hw hlow.mem_preorder hm _ hc) fun _ => ?_
    have hlabel : caseLabel m' = caseLabel m := by rw [caseLabel, caseLabel, hE.construct hm]
    rw [hlabel]
    refine .seq (agrees_buildSequence hE hw (fun s hs => ?_) (hE.others hm "value") _ hc)
      fun out => ih (fun m hm => hms m (List.mem_cons_of_mem _ hm)) out
    exact (Node.inside_of_mem_children (List.mem_filter.1 hs).1).trans hlow

lemma agrees_buildSwitch (h : E n n') (ends : List OpenEnd) (hc : c.Alike whole c') :
    Build.Agrees E whole Eq (w.buildSwitch n ends c) (w'.buildSwitch n' ends c') := by
  have hspan := hE.span h
  have hlow : ∀ m ∈ switchCases n, m.Inside n := fun _ hm => Node.inside_of_mem_switchCases hm
  have hdefault : ((switchCases n').any (·.construct == .switchDefault))
      = (switchCases n).any (·.construct == .switchDefault) := by
    have hcases : Arbor.Spread (fun _ => False) E (switchCases n) (switchCases n') :=
      .of_forall₂ (hE.switchCases h)
    exact hcases.any (fun m _ m' hm => by rw [hE.construct hm]) fun _ => False.elim
  refine .seq (.pointAfter h hspan _ ends) fun branch =>
    .seq (agrees_visitField hE hw n.self_mem_preorder h _ hc) fun _ => ?_
  refine .seq (.point h hspan _) fun merge => ?_
  refine .bind (.openScope _ fun hw => by rw [hc.scope hw]) fun _ _ hscope => ?_
  refine .seq (agrees_buildCases hE hw branch hlow (hE.switchCases h) []
    (hc.inSwitch hscope merge)) fun out => ?_
  refine .seq (.link out merge) fun _ => ?_
  have hout : Build.Agrees E whole Eq
      (do if ((← get).graph.predecessors merge).isEmpty then return []
          else return [OpenEnd.plain merge])
      (do if ((← get).graph.predecessors merge).isEmpty then return []
          else return [OpenEnd.plain merge]) := by
    refine .bind .get fun D D' hD => ?_
    rw [hD.predecessors]
    split_ifs
    · exact .pure rfl
    · exact .pure rfl
  rw [hdefault]
  split_ifs
  · exact .seq (.edge _ _ _ _) fun _ => hout
  · exact hout

/-! ### Loops -/

lemma agrees_buildFor (h : E n n') (hconstruct : n.construct = .forLoop) (ends : List OpenEnd)
    (hc : c.Alike whole c') :
    Build.Agrees E whole Eq (w.buildFor n ends c) (w'.buildFor n' ends c') := by
  have hself := n.self_mem_preorder
  refine .bind (.openScope _ fun hw => by rw [hc.scope hw]) fun _ _ hscope => ?_
  have hinner := hc.withScope hscope
  exact .seq (agrees_visitField hE hw hself h _ hinner) fun _ =>
    .seq (agrees_visitField hE hw hself h _ hinner) fun _ =>
      .seq (agrees_visitField hE hw hself h _ hinner) fun _ =>
        .seq (agrees_checkLoop hE h (.inl hconstruct)) fun _ =>
          agrees_buildLoop hE hw h ends hinner

lemma agrees_buildForEach (h : E n n') (hconstruct : n.construct = .forEach) (ends : List OpenEnd)
    (hc : c.Alike whole c') :
    Build.Agrees E whole Eq (w.buildForEach n ends c) (w'.buildForEach n' ends c') := by
  refine .bind (.openScope _ fun hw => by rw [hc.scope hw]) fun _ _ hscope => ?_
  have hinner := hc.withScope hscope
  refine .seq (agrees_visitField hE hw n.self_mem_preorder h _ hc) fun _ => ?_
  have hloop := agrees_buildLoop hE hw h ends hinner
  rw [hE.isSome_field? h]
  match hleft : n.field? "left", n'.field? "left", hE.field? h "left" with
  | none, none, .none => exact hloop
  | some left, some left', .some hl =>
    dsimp only
    split_ifs with hkind
    · exact .seq (.declare hscope _ (hE.boundNames hl)) fun _ => hloop
    · have hopened : left ∈ openedParts n :=
        List.mem_append_left _ (by simp [headerParts, hconstruct, hkind, hleft])
      have hlow := Node.inside_of_field? hleft
      exact .seq (agrees_visitTarget hE hw h hopened hlow hl hinner) fun _ => hloop

lemma agrees_buildWhile (h : E n n') (hconstruct : n.construct = .whileLoop)
    (ends : List OpenEnd) (hc : c.Alike whole c') :
    Build.Agrees E whole Eq (w.buildWhile n ends c) (w'.buildWhile n' ends c') := by
  refine .bind (.openScope _ fun hw => by rw [hc.scope hw]) fun _ _ hscope => ?_
  have hinner := hc.withScope hscope
  exact .seq (agrees_visitField hE hw n.self_mem_preorder h _ hinner) fun _ =>
    .seq (agrees_checkLoop hE h (.inr hconstruct)) fun _ => agrees_buildLoop hE hw h ends hinner

lemma agrees_buildDoWhile (h : E n n') (ends : List OpenEnd) (hc : c.Alike whole c') :
    Build.Agrees E whole Eq (w.buildDoWhile n ends c) (w'.buildDoWhile n' ends c') := by
  have hspan := hE.span h
  have hself := n.self_mem_preorder
  refine .bind (.openScope _ fun hw => by rw [hc.scope hw]) fun _ _ hscope => ?_
  refine .seq (.point h hspan _) fun head => .seq (.point h hspan _) fun merge => ?_
  have hinner : (c.inLoop _ head merge).Alike whole (c'.inLoop _ head merge) := .inLoop hscope _ _
  exact .seq (agrees_buildField hE hw hself h _ _ hinner) fun _ =>
    .seq (.linkBack _ _) fun _ => .seq (agrees_visitField hE hw hself h _ hinner) fun _ =>
      .seq (.edge _ _ _ _) fun _ => .pure rfl

/-! ### All constructs -/

theorem agrees_buildStatement (h : E n n')
    (hf : ∀ {c c'}, c.Alike whole c' →
      Build.Agrees E whole Eq (w.function n c) (w'.function n' c'))
    (ends : List OpenEnd) (hc : c.Alike whole c') :
    Build.Agrees E whole Eq (w.buildStatement n ends c) (w'.buildStatement n' ends c') := by
  have hspan := hE.span h
  unfold buildStatement
  rw [hE.construct h]
  cases hconstruct : n.construct with
  | block | elseClause | switchCase | switchDefault =>
    exact agrees_buildSequence hE hw (fun _ hm => Node.inside_of_mem_children hm) (hE.children h)
      ends hc
  | conditional => exact agrees_buildConditional hE hw h ends hc
  | forLoop => exact agrees_buildFor hE hw h hconstruct ends hc
  | forEach => exact agrees_buildForEach hE hw h hconstruct ends hc
  | whileLoop => exact agrees_buildWhile hE hw h hconstruct ends hc
  | doWhile => exact agrees_buildDoWhile hE hw h ends hc
  | switch => exact agrees_buildSwitch hE hw h ends hc
  | tryCatch => exact agrees_buildTry hE hw h ends hc
  | returnJump =>
    exact .seq (.pointAfter h hspan _ ends) fun _ =>
      .seq (agrees_visitChildren hE hw h hc) fun _ => .seq (.linkToExits _) fun _ => .pure rfl
  | throwJump =>
    exact .seq (.pointAfter h hspan _ ends) fun _ =>
      .seq (agrees_visitChildren hE hw h hc) fun _ => .pure rfl
  | breakJump => exact agrees_buildBreak hE h ends hc
  | continueJump => exact agrees_buildContinue hE h ends hc
  | labeled => exact agrees_buildLabeled hE hw h hconstruct ends hc
  | ignored => exact .pure rfl
  | declaration | function | classDef | statement =>
    exact .seq (.pointAfter h hspan _ ends) fun _ =>
      .seq (agrees_visitExpression hE hw h hf hc) fun _ => .pure rfl

/-! ### Functions -/

lemma agrees_buildBody (h : E n n') (ends : List OpenEnd) (hc : c.Alike whole c') :
    Build.Agrees E whole Eq (w.buildBody n ends c) (w'.buildBody n' ends c') := by
  unfold buildBody
  match hbody : n.field? "body", n'.field? "body", hE.field? h "body" with
  | none, none, .none => exact .pure rfl
  | some body, some body', .some hb =>
    have hlow := Node.inside_of_field? hbody
    dsimp only
    rw [hE.construct hb]
    split_ifs
    · exact hw.statement hlow hb ends hc
    · exact .seq (.pointAfter hb (hE.span hb) _ ends) fun _ =>
        .seq (hw.expression hlow hb hc) fun _ => .seq (.linkToExits _) fun _ => .pure rfl

theorem agrees_buildFunction (h : E n n') (hc : c.Alike whole c') :
    Build.Agrees E whole Eq (w.buildFunction n c) (w'.buildFunction n' c') := by
  refine .bind (.openScope _ fun hw => by rw [hc.scope hw]) fun scope scope' hscope => ?_
  have hinner : (Context.root scope).Alike whole (.root scope') := .root hscope
  have hbody : Build.Agrees E whole Eq
      (do
        w.declareParameters n (.root scope)
        let entry := OpenEnd.plain (← get).graph.entry
        let ends ← w.buildBody n [entry] (.root scope)
        linkToExits ends
        emit (.finished (some n) (← get).graph))
      (do
        w'.declareParameters n' (.root scope')
        let entry := OpenEnd.plain (← get).graph.entry
        let ends ← w'.buildBody n' [entry] (.root scope')
        linkToExits ends
        emit (.finished (some n') (← get).graph)) := by
    refine .seq (agrees_declareParameters hE hw h hinner) fun _ => .bind .get fun D D' hD => ?_
    rw [hD.entry]
    refine .seq (agrees_buildBody hE hw h _ hinner) fun ends =>
      .seq (.linkToExits ends) fun _ => ?_
    exact .bind .get fun D D' hD => .emit rfl fun _ => .finished (.some h) hD
  have hname : List.Forall₂ E ((n.field? "name").filter (·.kind == "identifier")).toList
      ((n'.field? "name").filter (·.kind == "identifier")).toList :=
    forall₂_toList (rel_filter (hE.field? h "name") fun _ _ hn => by rw [hE.kind hn])
  dsimp only
  rw [hE.kind h]
  split_ifs
  · exact .seq (.declare hscope _ hname) fun _ => hbody
  · exact hbody

end

end Walker

/-! ### Whole walks -/

/-- Nothing is done for a comment. -/
lemma expressionTo_comment {m : Node} (hm : m.IsComment) (d : Nat) (c : Context) :
    expressionTo d m c = pure () := by
  cases d with
  | zero => rw [expressionTo]
  | succ d =>
    rw [expressionTo, Walker.visitExpression, hm.expressionForm, hm.children]
    rfl

section

variable {spares : Node → List Bool → Prop} {E : Node → Node → Prop} {whole : Bool} {n : Node}

/-- Walks agree inside a node that has nothing below it. -/
lemma Walker.agrees_of_height_le (hn : n.height ≤ 1) (w : Walker) {w' : Walker}
    (hcomment : ∀ {m : Node}, m.IsComment → ∀ c, w'.expression m c = pure ()) :
    Walker.Agrees E whole n w w' := by
  have hnone {m : Node} (hm : m.Inside n) : False := by
    have := Node.height_lt_of_inside hm
    have := m.height_pos
    omega
  exact ⟨fun hm => (hnone hm).elim, fun hm => (hnone hm).elim, hcomment⟩

-- A walker is made of the walks of its own depth, and these use the walker one level below.
mutual

/-- Two walks agree inside a node if they have the same depth left or enough for all of it. -/
theorem agrees_walker (hE : Mirrors spares E) (d d' : Nat) (n : Node)
    (h : d' = d ∨ 2 * n.height ≤ d + 3 ∧ 2 * n.height ≤ d' + 3) :
    Walker.Agrees E whole n (walker d) (walker d') := by
  refine ⟨fun hm hmm' ends _ _ hc => ?_, fun hm hmm' _ _ hc => ?_,
    fun hm c => expressionTo_comment hm d' c⟩
  · have := Node.height_lt_of_inside hm
    exact agrees_statementTo_counterpart hE d d' hmm' (by omega) ends hc
  · have := Node.height_lt_of_inside hm
    exact agrees_expressionTo_counterpart hE d d' hmm' (by omega) hc
termination_by (d, 1)

theorem agrees_statementTo_counterpart (hE : Mirrors spares E) (d d' : Nat) {n n' : Node}
    {c c' : Context} (hn : E n n')
    (h : d' = d ∨ 2 * n.height ≤ d + 1 ∧ 2 * n.height ≤ d' + 1) (ends : List OpenEnd)
    (hc : c.Alike whole c') :
    Build.Agrees E whole Eq (statementTo d n ends c) (statementTo d' n' ends c') := by
  have hpos := n.height_pos
  match d, d' with
  | 0, 0 => exact .pure rfl
  | 0, d' + 1 => omega
  | d + 1, 0 => omega
  | d + 1, d' + 1 =>
    rw [statementTo, statementTo]
    exact Walker.agrees_buildStatement hE (agrees_walker hE d d' n (by omega)) hn
      (fun hc => agrees_functionTo_counterpart hE d d' hn (by omega) hc) ends hc
termination_by (d, 0)

theorem agrees_expressionTo_counterpart (hE : Mirrors spares E) (d d' : Nat) {n n' : Node}
    {c c' : Context} (hn : E n n')
    (h : d' = d ∨ 2 * n.height ≤ d + 1 ∧ 2 * n.height ≤ d' + 1) (hc : c.Alike whole c') :
    Build.Agrees E whole Eq (expressionTo d n c) (expressionTo d' n' c') := by
  have hpos := n.height_pos
  match d, d' with
  | 0, 0 => exact .pure rfl
  | 0, d' + 1 => omega
  | d + 1, 0 => omega
  | d + 1, d' + 1 =>
    rw [expressionTo, expressionTo]
    exact Walker.agrees_visitExpression hE (agrees_walker hE d d' n (by omega)) hn
      (fun hc => agrees_functionTo_counterpart hE d d' hn (by omega) hc) hc
termination_by (d, 0)

theorem agrees_functionTo_counterpart (hE : Mirrors spares E) (d d' : Nat) {n n' : Node}
    {c c' : Context} (hn : E n n')
    (h : d' = d ∨ 2 * n.height ≤ d + 2 ∧ 2 * n.height ≤ d' + 2) (hc : c.Alike whole c') :
    Build.Agrees E whole Eq (functionTo d n c) (functionTo d' n' c') := by
  -- Without any depth left a function is built with the idle walk, which is enough for one that has
  -- nothing below it.
  match d, d' with
  | 0, 0 =>
    rw [functionTo, functionTo]
    exact Walker.agrees_buildFunction hE
      ⟨fun _ _ _ _ _ _ => .pure rfl, fun _ _ _ _ _ => .pure rfl, fun _ _ => rfl⟩ hn hc
  | 0, d' + 1 =>
    rw [functionTo, functionTo]
    have hw : Walker.Agrees E whole n .idle (walker d') :=
      Walker.agrees_of_height_le (by omega) _ fun hm => expressionTo_comment hm d'
    exact Walker.agrees_buildFunction hE hw hn hc
  | d + 1, 0 =>
    rw [functionTo, functionTo]
    have hw : Walker.Agrees E whole n (walker d) .idle :=
      Walker.agrees_of_height_le (by omega) _ fun _ _ => rfl
    exact Walker.agrees_buildFunction hE hw hn hc
  | d + 1, d' + 1 =>
    rw [functionTo, functionTo]
    exact Walker.agrees_buildFunction hE (agrees_walker hE d d' n (by omega)) hn hc
termination_by (d, 0)

end

/-! ### Programs and functions by themselves -/

lemma agrees_buildProgram (hE : Mirrors spares E) (d d' : Nat) {root root' : Node}
    (hroot : E root root')
    (h : d' = d ∨ 2 * root.height ≤ d + 1 ∧ 2 * root.height ≤ d' + 1) :
    Build.Agrees E true Eq (buildProgram (walker d) root) (buildProgram (walker d') root') := by
  refine .bind (.openScope _ fun _ => rfl) fun scope scope' hscope => .bind .get fun D D' hD => ?_
  rw [hscope rfl, hD.entry]
  refine .seq (agrees_statementTo_counterpart hE d d' hroot h _ (.refl _)) fun ends => ?_
  exact .seq (.linkToExits ends) fun _ => .bind .get fun D D' hD =>
    .emit rfl fun _ => .finished .none hD

lemma agrees_buildRootFunction (hE : Mirrors spares E) (d d' : Nat) {f f' : Node}
    (hf : E f f') (h : d' = d ∨ 2 * f.height ≤ d + 2 ∧ 2 * f.height ≤ d' + 2) :
    Build.Agrees E true Eq (buildRootFunction (walker d) f) (buildRootFunction (walker d') f') :=
  .bind (.openScope _ fun _ => rfl) fun _ _ hscope =>
    agrees_functionTo_counterpart hE d d' hf h (.root hscope)

end

/-! ### Walks over the same node -/

/-- Every node mirrors itself. -/
lemma mirrors_self : Mirrors (fun _ _ => True) Eq where
  toCounterparts := Node.counterparts_eq fun _ => trivial
  opened _ _ h := by rw [h]
  labeled h _ := by
    rw [h]
    cases Option.or _ _ with
    | none => exact .none
    | some _ => exact .some rfl

section

variable {whole : Bool} (d d' : Nat) {n : Node} {c c' : Context}

theorem agrees_statementTo (h : d' = d ∨ 2 * n.height ≤ d + 1 ∧ 2 * n.height ≤ d' + 1)
    (ends : List OpenEnd) (hc : c.Alike whole c') :
    Build.Agrees Eq whole Eq (statementTo d n ends c) (statementTo d' n ends c') :=
  agrees_statementTo_counterpart mirrors_self d d' rfl h ends hc

theorem agrees_expressionTo (h : d' = d ∨ 2 * n.height ≤ d + 1 ∧ 2 * n.height ≤ d' + 1)
    (hc : c.Alike whole c') :
    Build.Agrees Eq whole Eq (expressionTo d n c) (expressionTo d' n c') :=
  agrees_expressionTo_counterpart mirrors_self d d' rfl h hc

theorem agrees_functionTo (h : d' = d ∨ 2 * n.height ≤ d + 2 ∧ 2 * n.height ≤ d' + 2)
    (hc : c.Alike whole c') :
    Build.Agrees Eq whole Eq (functionTo d n c) (functionTo d' n c') :=
  agrees_functionTo_counterpart mirrors_self d d' rfl h hc

end

end Arbor.Flow
