import Arbor.Flow.Builder
import Arbor.Proofs.Flow.Edges
import Arbor.Proofs.Subtree

/-!
# Control skeletons

The part of a statement that shapes the graph. A skeleton keeps the nodes for which points are added
and the way in which they are connected; scopes, expressions and the fields of nodes are gone, and
so is the depth at which building stops. Building a skeleton is a function on graphs alone, by
recursion on the skeleton.
-/

namespace Arbor.Flow

/-! ### Jumps -/

/-- The jumps out of a statement. -/
inductive Jump where
  | returns
  | throws
  | breaks
  | continues
  deriving DecidableEq, Repr

namespace Jump

/-- The kind of the point at which the jump is made. -/
def kind : Jump → PointKind
  | returns => .returnJump
  | throws => .throwJump
  | breaks => .breakJump
  | continues => .continueJump

/-- The label of the edge that the jump takes. -/
def label : Jump → Option Label
  | returns | throws => none
  | breaks => some .onBreak
  | continues => some .onContinue

/-- Whether the jump leads back. -/
def back : Jump → Bool
  | continues => true
  | returns | throws | breaks => false

/-- The edges that the jump takes from a point. -/
def edges (k : Jump) (p : Nat) (targets : List Nat) : List Edge :=
  targets.map fun t => ⟨p, t, k.label, k.back⟩

end Jump

/-- Where jumps lead that stay in the function. -/
structure Targets where
  breakTo : Option Nat
  continueTo : Option Nat
  deriving DecidableEq, Repr

/-- The points to which a jump leads. -/
def Targets.of (t : Targets) (exits : List Nat) : Jump → List Nat
  | .returns => exits
  | .throws => []
  | .breaks => t.breakTo.toList
  | .continues => t.continueTo.toList

/-- The targets of jumps at some place of a program. -/
def Context.targets (c : Context) : Targets := ⟨c.breakTarget?, c.loopEntry⟩

/-! ### Skeletons -/

mutual

/-- The control structure of a statement. -/
inductive Skeleton where
  /-- Nothing that control would notice. -/
  | pass
  | plain (n : Node)
  | leave (k : Jump) (n : Node)
  /-- A statement and what follows it. If it leaves no open ends, the nodes that follow are dead. -/
  | andThen (first : Skeleton) (dead : List Node) (rest : Skeleton)
  /-- A choice of two sides, whose open ends are left as they are. -/
  | branch (n : Node) (yes no : Skeleton)
  /-- Two parts that are entered from the same open ends, the second when the first fails. -/
  | attempt (body handler : Skeleton)
  /-- The open ends are brought together. -/
  | joined (n : Node) (s : Skeleton)
  /-- A loop without a body. -/
  | bareLoop (n : Node)
  | loop (n : Node) (body : Skeleton)
  | doWhile (n : Node) (body : Skeleton)
  | switch (n : Node) (cases : Cases)
  /-- A statement and the part that runs after it in any case. -/
  | finally (s last : Skeleton)

/-- The cases of a switch in their order, each with the reason for which it is entered. -/
inductive Cases where
  | nil
  | cons (label : Label) (body : Skeleton) (rest : Cases)

end

/-- Whether there is a case for all other values. -/
def Cases.hasDefault : Cases → Bool
  | .nil => false
  | .cons label _ rest => label == .onDefault || rest.hasDefault

mutual

/-- Builds a skeleton from the open ends in front of it and gives those behind it. -/
def Skeleton.build : Skeleton → Targets → List OpenEnd → Graph → List OpenEnd × Graph
  | .pass, _, ends, g => (ends, g)
  | .plain n, _, ends, g => ([.plain g.points.size], g.pointAfter .statement n ends)
  | .leave k n, t, ends, g =>
    ([], (g.pointAfter k.kind n ends).addEdges (k.edges g.points.size (t.of g.exits k)))
  | .andThen first dead rest, t, ends, g =>
    let r := first.build t ends g
    if r.1.isEmpty then ([], r.2.addDead dead) else rest.build t r.1 r.2
  | .branch n yes no, t, ends, g =>
    let r := yes.build t [.labelled g.points.size .whenTrue] (g.pointAfter .branch n ends)
    let r' := no.build t [.labelled g.points.size .whenFalse] r.2
    (r.1 ++ r'.1, r'.2)
  | .attempt body handler, t, ends, g =>
    let r := body.build t ends g
    let r' := handler.build t (ends.map (·.relabel .onCatch)) r.2
    (r.1 ++ r'.1, r'.2)
  | .joined n s, t, ends, g =>
    let r := s.build t ends g
    r.2.join n r.1
  | .bareLoop n, _, ends, g =>
    let head := g.points.size
    ([.plain (head + 1)],
      ((g.loopPoints n).addEdges (ends.map (·.edgeTo head))).closeLoop head [])
  | .loop n body, _, ends, g =>
    let head := g.points.size
    let r := body.build ⟨some (head + 1), some head⟩ [.labelled head .whenTrue]
      ((g.loopPoints n).addEdges (ends.map (·.edgeTo head)))
    ([.plain (head + 1)], r.2.closeLoop head r.1)
  | .doWhile n body, _, ends, g =>
    let head := g.points.size
    let r := body.build ⟨some (head + 1), some head⟩ (ends ++ [⟨head, some .whenTrue, true⟩])
      (g.loopPoints n)
    ([.plain (head + 1)], r.2.closeLoop head r.1)
  | .switch n cases, t, ends, g =>
    let branch := g.points.size
    let g := g.pointAfter .branch n ends
    let merge := g.points.size
    let r := cases.build branch ⟨some merge, t.continueTo⟩ []
      (g.addPoint .merge n.span (some n))
    let g := r.2.closeSwitch branch merge cases.hasDefault r.1
    (g.endAt merge, g)
  | .finally s last, t, ends, g =>
    let r := s.build t ends g
    if r.1.isEmpty then ([], (last.build t (ends.map (·.relabel .onFinally)) r.2).2)
    else last.build t (r.1.map (·.relabel .onFinally)) r.2

/-- Builds cases one after the other, each entered from the branch and from the case before it. -/
def Cases.build : Cases → Nat → Targets → List OpenEnd → Graph → List OpenEnd × Graph
  | .nil, _, _, ends, g => (ends, g)
  | .cons label body rest, branch, t, ends, g =>
    let r := body.build t (ends ++ [.labelled branch label]) g
    rest.build branch t r.1 r.2

end

/-- A return flows on to the end of the function. -/
lemma Skeleton.build_returns (t : Targets) (n : Node) (ends : List OpenEnd) (g : Graph) :
    (Skeleton.leave .returns n).build t ends g =
      ([], (g.pointAfter .returnJump n ends).toExits [.plain g.points.size]) := by
  rw [Skeleton.build, Graph.toExits_plain, Graph.pointAfter_exits]
  rfl

/-! ### The skeleton of a node -/

/-- The skeleton of statements in sequence. -/
def Skeleton.sequence (skeleton : Node → Skeleton) : List Node → Skeleton
  | [] => .pass
  | n :: ns => .andThen (skeleton n) ns (sequence skeleton ns)

/-- The skeleton of the statements among some nodes. -/
def Skeleton.statements (skeleton : Node → Skeleton) (ns : List Node) : Skeleton :=
  .sequence skeleton (ns.filter (·.construct != .ignored))

/-- The skeleton of a part that may be missing. -/
def Skeleton.part (skeleton : Node → Skeleton) : Option Node → Skeleton
  | some n => skeleton n
  | none => .pass

/-- The nodes of a case that are built as its statements: all but its value. -/
def caseStatements (c : Node) : List Node :=
  c.children.filter fun s => !(c.field? "value").any s.same

/-- The skeletons of cases in their order. -/
def Cases.ofNodes (skeleton : Node → Skeleton) : List Node → Cases
  | [] => .nil
  | c :: cs =>
    .cons (Walker.caseLabel c) (.statements skeleton (caseStatements c)) (ofNodes skeleton cs)

lemma Cases.hasDefault_ofNodes (skeleton : Node → Skeleton) (cs : List Node) :
    (Cases.ofNodes skeleton cs).hasDefault = cs.any (·.construct == .switchDefault) := by
  induction cs with
  | nil => rfl
  | cons c cs ih =>
    have hlabel : (Walker.caseLabel c == .onDefault) = (c.construct == .switchDefault) := by
      unfold Walker.caseLabel
      cases c.construct == .switchDefault <;> rfl
    rw [Cases.ofNodes, Cases.hasDefault, ih, hlabel, List.any_cons]

/-- The skeleton of a loop that decides before each round. -/
def Skeleton.loopOf (skeleton : Node → Skeleton) (n : Node) : Skeleton :=
  match n.field? "body" with
  | some body => .loop n (skeleton body)
  | none => .bareLoop n

/-- The skeleton of the part of a try statement that its last part follows. -/
def Skeleton.guarded (skeleton : Node → Skeleton) (n : Node) : Skeleton :=
  match n.field? "handler" with
  | some handler =>
    .attempt (.part skeleton (n.field? "body")) (.part skeleton (handler.field? "body"))
  | none => .part skeleton (n.field? "body")

/-- The skeleton of a try statement. -/
def Skeleton.tryOf (skeleton : Node → Skeleton) (n : Node) : Skeleton :=
  match n.field? "finalizer" with
  | some finalizer =>
    .finally (.guarded skeleton n) (skeleton ((finalizer.field? "body").getD finalizer))
  | none => .joined n (.guarded skeleton n)

/-- The skeleton of a node whose parts have the skeletons given. -/
def Skeleton.ofNode (skeleton : Node → Skeleton) (n : Node) : Skeleton :=
  match n.construct with
  | .block | .elseClause | .switchCase | .switchDefault => .statements skeleton n.children
  | .conditional =>
    .joined n (.branch n (.part skeleton (n.field? "consequence"))
      (.part skeleton (n.field? "alternative")))
  | .forLoop | .forEach | .whileLoop => .loopOf skeleton n
  | .doWhile => .doWhile n (.part skeleton (n.field? "body"))
  | .switch => .switch n (.ofNodes skeleton (Walker.switchCases n))
  | .tryCatch => .tryOf skeleton n
  | .returnJump => .leave .returns n
  | .throwJump => .leave .throws n
  | .breakJump => .leave .breaks n
  | .continueJump => .leave .continues n
  | .labeled => .part skeleton ((n.field? "body").or n.children.getLast?)
  | .ignored => .pass
  | .declaration | .function | .classDef | .statement => .plain n

/-- The skeleton of the body of a function. A body that is no block is the value that the function
returns. -/
def Skeleton.ofBody (skeleton : Node → Skeleton) (n : Node) : Skeleton :=
  match n.field? "body" with
  | some body => if body.construct = .block then skeleton body else .leave .returns body
  | none => .pass

/-! ### The statements in a statement -/

/-- The statements that the statement is made of. -/
def statementParts (n : Node) : List Node :=
  match n.construct with
  | .block | .elseClause | .switchCase | .switchDefault => n.children
  | .conditional => (n.field? "consequence").toList ++ (n.field? "alternative").toList
  | .forLoop | .forEach | .whileLoop | .doWhile => (n.field? "body").toList
  | .switch => (Walker.switchCases n).flatMap caseStatements
  | .tryCatch =>
    (n.field? "body").toList ++ ((n.field? "handler").bind (·.field? "body")).toList ++
      ((n.field? "finalizer").map fun last => (last.field? "body").getD last).toList
  | .labeled => ((n.field? "body").or n.children.getLast?).toList
  | .returnJump | .throwJump | .breakJump | .continueJump | .declaration | .function | .classDef
  | .ignored | .statement => []

lemma inside_of_mem_caseStatements {n c m : Node} (hc : c ∈ Walker.switchCases n)
    (hm : m ∈ caseStatements c) : m.Inside n := by
  have hstatement := Node.inside_of_mem_children (List.mem_filter.1 hm).1
  exact hstatement.trans (Node.inside_of_mem_switchCases hc)

lemma inside_of_mem_statementParts {n m : Node} (h : m ∈ statementParts n) : m.Inside n := by
  have hfield {name : String} (hm : m ∈ (n.field? name).toList) : m.Inside n :=
    Node.inside_of_field? (Option.mem_toList.1 hm)
  unfold statementParts at h
  cases hc : n.construct <;> simp only [hc, List.not_mem_nil] at h
  case block | elseClause | switchCase | switchDefault => exact Node.inside_of_mem_children h
  case conditional =>
    rcases List.mem_append.1 h with h | h
    · exact hfield h
    · exact hfield h
  case forLoop | forEach | whileLoop | doWhile => exact hfield h
  case switch =>
    obtain ⟨c, hc, hm⟩ := List.mem_flatMap.1 h
    exact inside_of_mem_caseStatements hc hm
  case tryCatch =>
    rw [List.append_assoc, List.mem_append, List.mem_append] at h
    rcases h with h | h | h
    · exact hfield h
    · obtain ⟨handler, hhandler, hbody⟩ := Option.bind_eq_some_iff.1 (Option.mem_toList.1 h)
      exact (Node.inside_of_field? hbody).trans (Node.inside_of_field? hhandler)
    · obtain ⟨last, hlast, rfl⟩ := Option.map_eq_some_iff.1 (Option.mem_toList.1 h)
      exact (Node.inside_of_field? hlast).of_mem_preorder (last.field?_getD_mem_preorder "body")
  case labeled => exact Node.inside_of_field?_or_getLast? (Option.mem_toList.1 h)

/-! ### Graphs -/

/-- Builds a skeleton from the entry of a graph on, and lets what is open at the end flow to the
exits. -/
def Skeleton.graphFrom (s : Skeleton) (g : Graph) : Graph :=
  let r := s.build ⟨none, none⟩ [.plain g.entry] g
  r.2.toExits r.1

/-- The skeleton of a node with some levels of depth left. -/
def skeleton : Nat → Node → Skeleton
  | 0, _ => .pass
  | d + 1, n => .ofNode (skeleton d) n

/-- The graph of a program with some levels of depth left. -/
def programGraph (d : Nat) (n : Node) : Graph :=
  (skeleton d n).graphFrom (.fresh n.span)

/-- The graph of a function with some levels of depth left. The function itself takes one of them,
if there is one. -/
def functionGraph (d : Nat) (n : Node) : Graph :=
  (Skeleton.ofBody (skeleton (d - 1)) n).graphFrom (.fresh n.span)

end Arbor.Flow
