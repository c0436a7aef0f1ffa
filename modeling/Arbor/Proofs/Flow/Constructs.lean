import Arbor.Proofs.Flow.Lexical
import Arbor.Proofs.Height

/-!
# Skeletons and the constructs they come from

The skeleton of a node keeps what the node was: jumps come from jumps, loops from loops. Here a
property of skeletons is carried over to all skeletons that building comes to, and this one is
proved of the skeletons of all nodes.
-/

namespace Arbor.Flow

mutual

/-- The property holds of the skeleton and of all its parts. -/
def Skeleton.Every (P : Skeleton → Prop) : Skeleton → Prop
  | .pass => P .pass
  | .plain n => P (.plain n)
  | .leave k n => P (.leave k n)
  | .andThen a dead b => P (.andThen a dead b) ∧ a.Every P ∧ b.Every P
  | .branch n a b => P (.branch n a b) ∧ a.Every P ∧ b.Every P
  | .attempt a b => P (.attempt a b) ∧ a.Every P ∧ b.Every P
  | .joined n a => P (.joined n a) ∧ a.Every P
  | .bareLoop n => P (.bareLoop n)
  | .loop n a => P (.loop n a) ∧ a.Every P
  | .doWhile n a => P (.doWhile n a) ∧ a.Every P
  | .switch n cs => P (.switch n cs) ∧ cs.Every P
  | .finally a b => P (.finally a b) ∧ a.Every P ∧ b.Every P

/-- The property holds of all bodies of the cases and of their parts. -/
def Cases.Every (P : Skeleton → Prop) : Cases → Prop
  | .nil => True
  | .cons _ body rest => body.Every P ∧ rest.Every P

end

variable {P : Skeleton → Prop}

lemma Skeleton.Every.self {s : Skeleton} (h : s.Every P) : P s := by
  cases s with
  | pass | plain | leave | bareLoop => exact h
  | _ => exact h.1

mutual

lemma Skeleton.Every.mono {Q : Skeleton → Prop} (hPQ : ∀ s, P s → Q s) {s : Skeleton}
    (h : s.Every P) : s.Every Q := by
  match s with
  | .pass | .plain _ | .leave _ _ | .bareLoop _ => exact hPQ _ h
  | .andThen _ _ _ | .branch _ _ _ | .attempt _ _ | .finally _ _ =>
    exact ⟨hPQ _ h.1, h.2.1.mono hPQ, h.2.2.mono hPQ⟩
  | .joined _ _ | .loop _ _ | .doWhile _ _ => exact ⟨hPQ _ h.1, h.2.mono hPQ⟩
  | .switch _ _ => exact ⟨hPQ _ h.1, h.2.mono hPQ⟩

lemma Cases.Every.mono {Q : Skeleton → Prop} (hPQ : ∀ s, P s → Q s) {cs : Cases}
    (h : cs.Every P) : cs.Every Q := by
  match cs with
  | .nil => exact trivial
  | .cons _ _ _ => exact ⟨h.1.mono hPQ, h.2.mono hPQ⟩

end

lemma Cases.Part.every {branch : Nat} {fs : List Frame} {cs : Cases} {ends : List OpenEnd}
    {g : Graph} {s : Site} (hpart : cs.Part branch fs ends g s) (h : cs.Every P) :
    s.skeleton.Every P := by
  induction hpart with
  | here => exact h.1
  | later _ _ ih => exact ih h.2

lemma Site.Part.every {s s' : Site} (hpart : s.Part s') (h : s.skeleton.Every P) :
    s'.skeleton.Every P := by
  cases hpart with
  | first | yes | tried | guarded => exact h.2.1
  | rest | no | handler | last => exact h.2.2
  | joined | loop | doWhile => exact h.2
  | case _ hpart => exact hpart.every h.2

theorem Site.Meets.every {s s' : Site} (hmeets : s.Meets s') (h : s.skeleton.Every P) :
    s'.skeleton.Every P := by
  induction hmeets with
  | refl => exact h
  | tail _ hpart ih => exact hpart.every ih

/-! ### Skeletons of parts -/

section

variable {sk : Node → Skeleton}

lemma Skeleton.every_sequence {ns : List Node} (hpass : P .pass)
    (hthen : ∀ m ms, (m :: ms) <:+ ns → P (.andThen (sk m) ms (.sequence sk ms)))
    (h : ∀ m ∈ ns, (sk m).Every P) : (Skeleton.sequence sk ns).Every P := by
  induction ns with
  | nil => exact hpass
  | cons n ns ih =>
    refine ⟨hthen n ns (List.suffix_refl _), h n List.mem_cons_self, ih ?_ ?_⟩
    · intro m ms hms
      exact hthen m ms (hms.trans (List.suffix_cons n ns))
    · intro m hm
      exact h m (List.mem_cons_of_mem n hm)

lemma Skeleton.every_part {part : Option Node} (hpass : P .pass)
    (h : ∀ m ∈ part.toList, (sk m).Every P) : (Skeleton.part sk part).Every P := by
  cases part with
  | none => exact hpass
  | some m => exact h m (by simp)

/-- The parts of a try statement in front of its last part. -/
lemma Skeleton.every_guarded {n : Node} (hn : n.construct = .tryCatch) (hpass : P .pass)
    (hattempt : ∀ handler, n.field? "handler" = some handler →
      P (.attempt (.part sk (n.field? "body")) (.part sk (handler.field? "body"))))
    (h : ∀ m ∈ statementParts n, (sk m).Every P) : (Skeleton.guarded sk n).Every P := by
  simp only [statementParts, hn, List.mem_append] at h
  have hbody : (Skeleton.part sk (n.field? "body")).Every P :=
    every_part hpass fun m hm => h m (.inl (.inl hm))
  rw [guarded]
  cases hhandler : n.field? "handler" with
  | none => exact hbody
  | some handler =>
    refine ⟨hattempt handler hhandler, hbody, every_part hpass fun m hm => h m (.inl (.inr ?_))⟩
    rwa [hhandler, Option.bind_some]

lemma Cases.every_ofNodes {cs : List Node}
    (h : ∀ c ∈ cs, (Skeleton.statements sk (caseStatements c)).Every P) :
    (Cases.ofNodes sk cs).Every P := by
  induction cs with
  | nil => exact trivial
  | cons c cs ih =>
    refine ⟨h c List.mem_cons_self, ih ?_⟩
    intro c' hc'
    exact h c' (List.mem_cons_of_mem c hc')

end

/-! ### Constructs -/

/-- The construct of a jump. -/
def Jump.construct : Jump → Construct
  | returns => .returnJump
  | throws => .throwJump
  | breaks => .breakJump
  | continues => .continueJump

/-- Jumps and loops come from such, and what is inside a loop is the skeleton of its body. -/
def Skeleton.Fits : Skeleton → Prop
  | .leave k n => n.construct = k.construct
  | .bareLoop n => n.construct ≠ .doWhile
  | .loop n a =>
    n.construct ≠ .doWhile ∧ ∃ d body, n.field? "body" = some body ∧ a = skeleton d body
  | .doWhile n a => n.construct = .doWhile ∧ ∃ d, a = .part (skeleton d) (n.field? "body")
  | .pass | .plain _ | .andThen _ _ _ | .branch _ _ _ | .attempt _ _ | .joined _ _ | .switch _ _
  | .finally _ _ => True

/-- Jumps, conditionals, loops and switches come from such, and what is inside a loop or a switch
are the skeletons of its body or its cases. Where there were `enough` levels of depth, there are for
a switch. -/
def Skeleton.Stems (enough : Prop) : Skeleton → Prop
  | .branch n _ _ => n.construct = .conditional
  | .switch n cs => n.construct = .switch ∧
    ∃ d, cs = .ofNodes (skeleton d) (Walker.switchCases n) ∧ (enough → n.height ≤ d + 1)
  | s => s.Fits

section

variable {enough : Prop} {d : Nat} {n : Node}

lemma Skeleton.Stems.fits {s : Skeleton} (h : s.Stems enough) : s.Fits := by
  cases s with
  | branch | switch => exact trivial
  | _ => exact h

lemma Skeleton.stems_statements {ns : List Node}
    (h : ∀ m ∈ ns, (skeleton d m).Every (Stems enough)) :
    (Skeleton.statements (skeleton d) ns).Every (Stems enough) := by
  apply every_sequence
  · exact trivial
  · intro m ms _
    exact trivial
  · intro m hm
    exact h m (List.mem_filter.1 hm).1

/-- The skeleton of a node stems from it if the skeletons of its parts do from them. -/
lemma Skeleton.stems_ofNode (hn : enough → n.height ≤ d + 1)
    (h : ∀ m ∈ statementParts n, (skeleton d m).Every (Stems enough)) :
    (Skeleton.ofNode (skeleton d) n).Every (Stems enough) := by
  have hguarded (hc : n.construct = .tryCatch) : (guarded (skeleton d) n).Every (Stems enough) :=
    every_guarded hc trivial (fun _ _ => trivial) h
  unfold statementParts at h
  rw [ofNode]
  cases hc : n.construct <;> simp only [hc] at h ⊢
  case block | elseClause | switchCase | switchDefault => exact stems_statements h
  case conditional =>
    refine ⟨trivial, hc, every_part trivial fun m hm => ?_, every_part trivial fun m hm => ?_⟩
    · exact h m (List.mem_append_left _ hm)
    · exact h m (List.mem_append_right _ hm)
  case forLoop | forEach | whileLoop =>
    -- These loops decide before each round.
    have hne : n.construct ≠ .doWhile := by
      rw [hc]
      decide
    rw [loopOf]
    cases hbody : n.field? "body" with
    | none => exact hne
    | some body => exact ⟨⟨hne, d, body, hbody, rfl⟩, h body (by simp [hbody])⟩
  case doWhile => exact ⟨⟨hc, d, rfl⟩, every_part trivial h⟩
  case switch =>
    refine ⟨⟨hc, d, rfl, hn⟩, Cases.every_ofNodes fun c hcase => ?_⟩
    exact stems_statements fun m hm => h m (List.mem_flatMap.2 ⟨c, hcase, hm⟩)
  case tryCatch =>
    rw [tryOf]
    cases hlast : n.field? "finalizer" with
    | none => exact ⟨trivial, hguarded hc⟩
    | some last =>
      refine ⟨trivial, hguarded hc, h _ (List.mem_append_right _ ?_)⟩
      rw [hlast, Option.map_some, Option.mem_toList]
  case returnJump | throwJump | breakJump | continueJump => exact hc
  case labeled => exact every_part trivial h
  case ignored | declaration | function | classDef | statement => exact trivial

theorem stems_skeleton (h : enough → n.height ≤ d) :
    (skeleton d n).Every (Skeleton.Stems enough) := by
  induction d generalizing n with
  | zero => exact trivial
  | succ d ih =>
    refine Skeleton.stems_ofNode h fun m hm => ih fun he => ?_
    have hlt := Node.height_lt_of_inside (inside_of_mem_statementParts hm)
    exact Nat.le_of_lt_succ (Nat.lt_of_lt_of_le hlt (h he))

/-- A body that is no block is returned, whatever it is. -/
lemma stems_ofBody (h : enough → n.height ≤ d + 1) :
    (Skeleton.ofBody (skeleton d) n).Every (Skeleton.Stems enough) ∨
      ∃ body, Skeleton.ofBody (skeleton d) n = .leave .returns body := by
  unfold Skeleton.ofBody
  cases hbody : n.field? "body" with
  | none => exact .inl trivial
  | some body =>
    have hlt := Node.height_lt_of_field? hbody
    dsimp only
    split_ifs
    · exact .inl (stems_skeleton fun he => Nat.le_of_lt_succ (Nat.lt_of_lt_of_le hlt (h he)))
    · exact .inr ⟨body, rfl⟩

end

theorem fits_skeleton (d : Nat) (n : Node) : (skeleton d n).Every Skeleton.Fits :=
  (stems_skeleton False.elim).mono fun _ => Skeleton.Stems.fits

lemma fits_ofBody (d : Nat) (f : Node) :
    (Skeleton.ofBody (skeleton d) f).Every Skeleton.Fits ∨
      ∃ body, Skeleton.ofBody (skeleton d) f = .leave .returns body :=
  (stems_ofBody False.elim).imp_left fun h => h.mono fun _ => Skeleton.Stems.fits

/-- A jump has no parts. -/
lemma Site.Meets.eq_of_leave {k : Jump} {n : Node} {sp : Span} {s : Site}
    (h : (Site.start (.leave k n) sp).Meets s) : s = .start (.leave k n) sp := by
  rcases Relation.ReflTransGen.cases_head h with heq | ⟨s', hpart, -⟩
  · exact heq.symm
  · cases hpart

/-! ### Lists of statements and sides -/

/-- The lists of statements in the node that are built one after the other: those of a block, or
those of the cases of a switch. -/
def statementLists (n : Node) : List (List Node) :=
  match n.construct with
  | .block | .elseClause | .switchCase | .switchDefault =>
    [n.children.filter (·.construct != .ignored)]
  | .switch =>
    (Walker.switchCases n).map fun c => (caseStatements c).filter (·.construct != .ignored)
  | _ => []

/-- The node has two sides, and what they leave open is brought together behind it. -/
def Joins (n : Node) : Prop :=
  n.construct = .conditional ∨ n.construct = .tryCatch ∧ n.field? "finalizer" = none

/-- The skeleton of the sides of a conditional or of a try statement. -/
def Skeleton.sides (sk : Node → Skeleton) (n : Node) : Skeleton :=
  if n.construct = .conditional then
    .branch n (.part sk (n.field? "consequence")) (.part sk (n.field? "alternative"))
  else .guarded sk n

lemma Joins.ofNode {n : Node} (h : Joins n) (sk : Node → Skeleton) :
    Skeleton.ofNode sk n = .joined n (.sides sk n) := by
  rcases h with hn | ⟨hn, hlast⟩
  · rw [Skeleton.ofNode, Skeleton.sides, hn, if_pos rfl]
  · rw [Skeleton.ofNode, Skeleton.sides, hn, if_neg (by decide)]
    simp only [Skeleton.tryOf, hlast]

/-- Sequences are the rest of a list of statements in `root`, the open ends that are brought
together are those of sides, and loops and switches are what they seem. -/
def Skeleton.Sourced (root : Node) : Skeleton → Prop
  | .andThen a dead b => ∃ n ∈ root.preorder, ∃ d before m,
    before ++ m :: dead ∈ statementLists n ∧ a = skeleton d m ∧ b = .sequence (skeleton d) dead
  | .joined n a => Joins n ∧ ∃ d, a = .sides (skeleton d) n
  | .bareLoop n | .loop n _ => n.construct.isLoop = true ∧ n.construct ≠ .doWhile
  | .doWhile n _ => n.construct = .doWhile
  | .switch n _ => n.construct = .switch
  | .pass | .plain _ | .leave _ _ | .branch _ _ _ | .attempt _ _ | .finally _ _ => True

section

variable {root n : Node} {d : Nat}

lemma Skeleton.sourced_statements {ns : List Node} (hn : n ∈ root.preorder)
    (hlist : ns.filter (·.construct != .ignored) ∈ statementLists n)
    (h : ∀ m ∈ ns, (skeleton d m).Every (Sourced root)) :
    (Skeleton.statements (skeleton d) ns).Every (Sourced root) := by
  apply every_sequence
  · exact trivial
  · rintro m ms ⟨before, heq⟩
    exact ⟨n, hn, d, before, m, heq ▸ hlist, rfl, rfl⟩
  · intro m hm
    exact h m (List.mem_filter.1 hm).1

lemma Skeleton.sourced_ofNode (hn : n ∈ root.preorder)
    (h : ∀ m ∈ statementParts n, (skeleton d m).Every (Sourced root)) :
    (Skeleton.ofNode (skeleton d) n).Every (Sourced root) := by
  have hguarded (hc : n.construct = .tryCatch) : (guarded (skeleton d) n).Every (Sourced root) :=
    every_guarded hc trivial (fun _ _ => trivial) h
  have hjoined (hjoins : Joins n) : (Skeleton.joined n (.sides (skeleton d) n)).Sourced root :=
    ⟨hjoins, d, rfl⟩
  unfold statementParts at h
  rw [ofNode]
  cases hc : n.construct <;> simp only [hc] at h ⊢
  case block | elseClause | switchCase | switchDefault =>
    exact sourced_statements hn (by simp [statementLists, hc]) h
  case conditional =>
    -- The ends of a conditional and of a try statement without a last part are joined.
    have hsides := hjoined (.inl hc)
    rw [sides, if_pos hc] at hsides
    refine ⟨hsides, trivial, every_part trivial fun m hm => ?_, every_part trivial fun m hm => ?_⟩
    · exact h m (List.mem_append_left _ hm)
    · exact h m (List.mem_append_right _ hm)
  case forLoop | forEach | whileLoop =>
    have hloop : n.construct.isLoop = true ∧ n.construct ≠ .doWhile := by
      rw [hc]
      decide
    rw [loopOf]
    cases hbody : n.field? "body" with
    | none => exact hloop
    | some body => exact ⟨hloop, h body (by simp [hbody])⟩
  case doWhile => exact ⟨hc, every_part trivial h⟩
  case switch =>
    refine ⟨hc, Cases.every_ofNodes fun c hcase => ?_⟩
    refine sourced_statements hn ?_ fun m hm => h m (List.mem_flatMap.2 ⟨c, hcase, hm⟩)
    simp only [statementLists, hc]
    exact List.mem_map_of_mem hcase
  case tryCatch =>
    rw [tryOf]
    cases hlast : n.field? "finalizer" with
    | none =>
      have hsides := hjoined (.inr ⟨hc, hlast⟩)
      rw [sides, if_neg (by simp [hc])] at hsides
      exact ⟨hsides, hguarded hc⟩
    | some last =>
      refine ⟨trivial, hguarded hc, h _ (List.mem_append_right _ ?_)⟩
      rw [hlast, Option.map_some, Option.mem_toList]
  case labeled => exact every_part trivial h
  case returnJump | throwJump | breakJump | continueJump => exact trivial
  case ignored | declaration | function | classDef | statement => exact trivial

theorem sourced_skeleton (d : Nat) (hn : n ∈ root.preorder) :
    (skeleton d n).Every (Skeleton.Sourced root) := by
  induction d generalizing n with
  | zero => exact trivial
  | succ d ih =>
    refine Skeleton.sourced_ofNode hn fun m hm => ih ?_
    exact Node.mem_preorder_trans (inside_of_mem_statementParts hm).mem_preorder hn

lemma sourced_ofBody (d : Nat) (f : Node) :
    (Skeleton.ofBody (skeleton d) f).Every (Skeleton.Sourced f) := by
  unfold Skeleton.ofBody
  cases hbody : f.field? "body" with
  | none => exact trivial
  | some body =>
    dsimp only
    split_ifs
    · exact sourced_skeleton d (Node.inside_of_field? hbody).mem_preorder
    · exact trivial

end

end Arbor.Flow
