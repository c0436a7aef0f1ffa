import Arbor.Proofs.Flow.Entered
import Arbor.Proofs.Flow.Orderly

/-!
# Merges behind conditionals and try statements

What the sides of a conditional or of a try statement leave open is brought together behind it. Only
open ends at two different points need a new point to meet in. Where they all start at one point,
whatever their labels are, control flows on from there.
-/

namespace Arbor.Flow

open Relation Flow.Graph

/-! ### Bringing open ends together -/

/-- There are open ends at two different points. -/
def OpenEnd.Split (ends : List OpenEnd) : Prop :=
  ∃ u ∈ OpenEnd.points ends, ∃ v ∈ OpenEnd.points ends, u ≠ v

variable {ends : List OpenEnd}

lemma OpenEnd.split_cons_iff {e : OpenEnd} :
    Split (e :: ends) ↔ (e :: ends).all (·.point == e.point) = false := by
  have hall : (e :: ends).all (·.point == e.point) = false ↔ ∃ e' ∈ ends, e'.point ≠ e.point := by
    simp
  rw [hall]
  constructor
  · rintro ⟨u, hu, v, hv, hne⟩
    by_contra! hsame
    have hpoint (w : Nat) (hw : w ∈ OpenEnd.points (e :: ends)) : w = e.point := by
      obtain ⟨e', he', rfl⟩ := List.mem_map.1 hw
      rcases List.mem_cons.1 he' with rfl | he'
      · rfl
      · exact hsame e' he'
    exact hne ((hpoint u hu).trans (hpoint v hv).symm)
  · rintro ⟨e', he', hne⟩
    exact ⟨_, List.mem_map_of_mem (List.mem_cons_of_mem e he'), _,
      List.mem_map_of_mem List.mem_cons_self, hne⟩

/-- Open ends at two points meet in a new one. -/
lemma Graph.join_of_split (h : OpenEnd.Split ends) (g : Graph) (n : Node) :
    g.join n ends = ([.plain g.points.size], g.pointAfter .merge n ends) := by
  cases ends with
  | nil =>
    obtain ⟨u, hu, -⟩ := h
    cases hu
  | cons e ends => rw [Graph.join, OpenEnd.split_cons_iff.1 h, if_neg Bool.false_ne_true]

/-- Open ends at one point are left alone, but for all labels except the first. -/
lemma Build.join_of_not_split (h : ¬ OpenEnd.Split ends) (n : Node) (D : Draft) :
    Build.join n ends D = (ends.take 1, D) := by
  cases ends with
  | nil => rfl
  | cons e ends =>
    rw [OpenEnd.split_cons_iff, Bool.not_eq_false] at h
    rw [Build.join, h, if_pos rfl]
    rfl

lemma Graph.join_of_not_split (h : ¬ OpenEnd.Split ends) (g : Graph) (n : Node) :
    g.join n ends = (ends.take 1, g) := by
  have hfollows := Build.follows_join n ends ⟨g, 0, #[]⟩
  rw [Build.join_of_not_split h] at hfollows
  exact hfollows.symm

lemma Graph.isNew_join_iff {g : Graph} {n : Node} {i : Nat} :
    g.IsNew (g.join n ends).2 i ↔ OpenEnd.Split ends ∧ i = g.points.size := by
  by_cases h : OpenEnd.Split ends
  · rw [join_of_split h, IsNew, pointAfter_size, and_iff_right h]
    omega
  · rw [join_of_not_split h, IsNew, iff_false_right fun hi => h hi.1]
    exact fun hi => Nat.not_lt.2 hi.1 hi.2

/-! ### The sides of a statement -/

namespace Walker

open Build

/-- Builds the sides of a conditional or of a try statement, and gives what they leave open. -/
def buildSides (w : Walker) (n : Node) (ends : List OpenEnd) (ctx : Context) :
    Build (List OpenEnd) :=
  if n.construct = .conditional then do
    let branch ← Build.pointAfter .branch n ends
    w.visitField n "condition" ctx
    let taken ← w.buildField n "consequence" [.labelled branch .whenTrue] ctx
    let passed ← w.buildField n "alternative" [.labelled branch .whenFalse] ctx
    return taken ++ passed
  else do
    let tried ← w.buildField n "body" ends ctx
    let caught ← match n.field? "handler" with
      | some handler => w.buildHandler handler ends ctx
      | none => pure []
    return tried ++ caught

variable {w : Walker} {sk : Node → Skeleton}

/-- What the sides leave open is brought together. -/
lemma buildStatement_of_joins {n : Node} (h : Joins n) (w : Walker) (ends : List OpenEnd)
    (ctx : Context) : w.buildStatement n ends ctx = w.buildSides n ends ctx >>= Build.join n := by
  rcases h with hn | ⟨hn, hlast⟩
  · simp only [buildStatement, buildSides, hn, if_true, buildConditional, bind_assoc, pure_bind]
  · cases hhandler : n.field? "handler" <;>
      simp only [buildStatement, buildSides, hn, reduceCtorEq, if_false, buildTry, hlast, hhandler,
        bind_assoc, pure_bind]

lemma follows_buildSides
    (hs : ∀ n ends ctx, (w.statement n ends ctx).Follows ((sk n).build ctx.targets ends))
    (he : ∀ n ctx, (w.expression n ctx).KeepsGraph) (n : Node) (ends : List OpenEnd)
    (ctx : Context) :
    (w.buildSides n ends ctx).Follows ((Skeleton.sides sk n).build ctx.targets ends) := by
  unfold buildSides Skeleton.sides
  split_ifs
  · have h := Follows.bind (follows_pointAfter .branch n ends) fun branch =>
      (keepsGraph_visitField he n "condition" ctx).bind_follows fun _ =>
        Follows.bind (follows_buildField hs n "consequence" [.labelled branch .whenTrue] ctx)
          fun taken =>
            Follows.bind (follows_buildField hs n "alternative" [.labelled branch .whenFalse] ctx)
              fun passed => .pure (taken ++ passed)
    exact h
  · exact follows_guarded hs (fun out => .pure out) n ends ctx

end Walker

section Nodes

variable {d : Nat} {x : Node}

lemma not_mem_nodes_part {name : String} :
    x ∉ (Skeleton.part (skeleton d) (x.field? name)).nodes := by
  intro hx
  obtain ⟨m, hm, hx⟩ := mem_nodes_part hx
  exact (Node.inside_of_field? hm).not_mem_preorder hx

lemma not_mem_nodes_guarded : x ∉ (Skeleton.guarded (skeleton d) x).nodes := by
  intro hx
  obtain ⟨name, m, -, hm, hx⟩ := mem_nodes_guarded hx
  exact (Node.inside_of_field? hm).not_mem_preorder hx

end Nodes

/-! ### Sites -/

variable {sk : Skeleton} {sp : Span} {s : Site} {d i : Nat} {x : Node} {fs : List Frame}
  {g : Graph}

/-- Building at a site adds no points for a node that is not in its skeleton. -/
lemma Site.Meets.not_standsFor (hmeets : (Site.start sk sp).Meets s) (hx : x ∉ s.skeleton.nodes)
    (hnew : s.graph.IsNew s.build.2 i) {k : PointKind} :
    ¬ (sk.graphFrom (.fresh sp)).StandsFor i k x := by
  intro hi
  obtain ⟨s', k', y, hmeets', hadds⟩ := s.exists_adds hnew
  obtain ⟨-, rfl⟩ := hi.unique (hadds.graphFrom (hmeets.trans hmeets'))
  exact hx (Site.Meets.nodes_subset hmeets' hadds.mem_nodes)

/-- The sides of a statement have no merge for the statement itself. -/
lemma Site.Meets.not_merge_of_sides
    (hmeets : (Site.start sk sp).Meets ⟨.sides (Flow.skeleton d) x, fs, ends, g⟩)
    (hnew : g.IsNew ((Skeleton.sides (Flow.skeleton d) x).build (Frame.targets fs) ends g).2 i) :
    ¬ (sk.graphFrom (.fresh sp)).StandsFor i .merge x := by
  by_cases hx : x.construct = .conditional
  · rw [Skeleton.sides, if_pos hx] at hmeets hnew
    rcases Site.new_cases ⟨_, fs, ends, g⟩ hnew with ⟨k, y, hadds⟩ | ⟨s', hpart, hnew'⟩
    · intro hi
      obtain ⟨rfl, rfl⟩ := hi.unique (hadds.graphFrom hmeets)
      cases hadds with
      | exit hloop => cases hloop
    · have hs' := hmeets.tail hpart
      cases hpart with
      | yes => exact Site.Meets.not_standsFor hs' not_mem_nodes_part hnew'
      | no => exact Site.Meets.not_standsFor hs' not_mem_nodes_part hnew'
  · rw [Skeleton.sides, if_neg hx] at hmeets hnew
    exact Site.Meets.not_standsFor hmeets not_mem_nodes_guarded hnew

lemma Joins.skeleton_eq (h : Joins x) (d : Nat) :
    skeleton (d + 1) x = .joined x (.sides (skeleton d) x) := h.ofNode (skeleton d)

lemma Joins.statement_eq (h : Joins x) (d : Nat) (ends : List OpenEnd) (ctx : Context) (D : Draft) :
    (walker (d + 1)).statement x ends ctx D =
      Build.join x ((walker d).buildSides x ends ctx D).1 ((walker d).buildSides x ends ctx D).2 :=
  congrFun (Walker.buildStatement_of_joins h (walker d) ends ctx) D

lemma follows_sidesTo (d : Nat) (x : Node) (ends : List OpenEnd) (ctx : Context) :
    ((walker d).buildSides x ends ctx).Follows
      ((Skeleton.sides (skeleton d) x).build ctx.targets ends) :=
  Walker.follows_buildSides (w := walker d) (follows_statementTo d) (keepsGraph_expressionTo d) x
    ends ctx

/-- Nothing leads to a merge but the open ends that are brought together. -/
lemma Site.Settled.arc_join_iff {G : Graph} {a : Skeleton} {u : Nat} {r : List OpenEnd × Graph}
    (h : Site.Settled G ⟨.joined x a, fs, ends, g⟩) (hr : r = a.build (Frame.targets fs) ends g)
    (hsplit : OpenEnd.Split r.1) : G.Arc u r.2.points.size ↔ u ∈ OpenEnd.points r.1 := by
  subst hr
  obtain ⟨hbegun, hsealed⟩ := h
  have hne : (a.build (Frame.targets fs) ends g).1 ≠ [] := by
    obtain ⟨u, hu, -⟩ := hsplit
    exact List.ne_nil_of_mem (List.mem_map.1 hu).choose_spec.1
  simp only [Site.build, Skeleton.build, join_of_split hsplit] at hsealed
  exact (hbegun.next a hne).arc_pointAfter_iff
    (hsealed.right (a.threaded (Frame.targets fs) ends g).grown.size_le)

/-- A merge for a conditional or a try statement is one in which the open ends of its sides meet. -/
lemma Site.Adds.joins {root : Node} {k : PointKind} (hadds : s.Adds i k x) (hk : k = .merge)
    (hs : s.skeleton.Sourced root) (hx : x.construct = .conditional ∨ x.construct = .tryCatch) :
    Joins x ∧ ∃ d, s.skeleton = Flow.skeleton (d + 1) x ∧
      ∀ r, r = (Skeleton.sides (Flow.skeleton d) x).build (Frame.targets s.frames) s.ends s.graph →
        OpenEnd.Split r.1 ∧ i = r.2.points.size := by
  cases hadds with
  | joined hr hi =>
    obtain ⟨hjoins, d, rfl⟩ := hs
    refine ⟨hjoins, d, (hjoins.skeleton_eq d).symm, fun r' hr' => ?_⟩
    subst hr hr'
    exact isNew_join_iff.1 hi
  | exit hloop =>
    have hisLoop : x.construct.isLoop = true := by
      cases hloop with
      | bare | before => exact hs.1
      | after =>
        have hx : x.construct = .doWhile := hs
        rw [hx]
        rfl
    rcases hx with hx | hx
    all_goals
      rw [hx] at hisLoop
      cases hisLoop
  | merge =>
    have hswitch : x.construct = .switch := hs
    rw [hswitch] at hx
    rcases hx with hx | hx
    all_goals cases hx
  | leave j => cases j <;> cases hk
  | plain | dead | branch | head | switch => cases hk

/-! ### Merges -/

/-- How the open ends of the sides of `x` are brought together in the finished graph `G`. The
statement was built from the open ends `ends` in the context `ctx` and the draft `D`, with `d`
levels of depth left for its sides. -/
structure JoinWired (d : Nat) (x : Node) (ends : List OpenEnd) (ctx : Context) (D : Draft)
    (G : Graph) : Prop where
  /-- Open ends at two points meet in a merge, and nothing else leads there. -/
  merged : ∀ r, r = (walker d).buildSides x ends ctx D → OpenEnd.Split r.1 →
    ((walker (d + 1)).statement x ends ctx D).1 = [.plain r.2.graph.points.size] ∧
      G.StandsFor r.2.graph.points.size .merge x ∧
      ∀ u, u ∈ G.predecessors r.2.graph.points.size ↔ u ∈ OpenEnd.points r.1
  /-- From a single point control flows on, with no merge for the statement. -/
  direct : ∀ r p, r = (walker d).buildSides x ends ctx D → (∀ e ∈ r.1, e.point = p) →
    (walker (d + 1)).statement x ends ctx D = (r.1.take 1, r.2) ∧
      ∀ i, D.graph.IsNew r.2.graph i → ¬ G.StandsFor i .merge x

lemma JoinWired.marked {ctx : Context} {D : Draft} {G : Graph} (h : JoinWired d x ends ctx D G) :
    JoinWired d x ends ctx D G.marked := by
  obtain ⟨hmerged, hdirect⟩ := h
  refine ⟨?_, ?_⟩
  · simpa only [marked_standsFor_iff, marked_predecessors] using hmerged
  · simpa only [marked_standsFor_iff] using hdirect

/-- Wherever building comes to a statement with sides, their open ends are brought together. -/
theorem Site.Meets.joinWired {ctx : Context} {D : Draft}
    (hmeets : (Site.start sk sp).Meets ⟨Flow.skeleton (d + 1) x, fs, ends, g⟩) (hx : Joins x)
    (hctx : ctx.targets = Frame.targets fs) (hD : D.graph = g) :
    JoinWired d x ends ctx D (sk.graphFrom (.fresh sp)) := by
  have hG : (sk.graphFrom (.fresh sp)).WellFormed := .built (sk.built_graphFrom sp)
  subst hD
  rw [hx.skeleton_eq] at hmeets
  have hsettled := Site.Meets.settled hmeets (Site.start_settled sk sp)
  have hfollows := follows_sidesTo d x ends ctx
  rw [hctx] at hfollows
  refine ⟨?_, ?_⟩
  · rintro r rfl hsplit
    rw [hx.statement_eq, (Build.follows_join x _).fst, join_of_split hsplit, hfollows.graph]
    rw [hfollows.fst] at hsplit ⊢
    refine ⟨rfl, ?_, fun u => ?_⟩
    · exact (Site.Adds.joined rfl (isNew_join_iff.2 ⟨hsplit, rfl⟩)).graphFrom hmeets
    · rw [hG.predecessors, hsettled.arc_join_iff rfl hsplit]
  · rintro r p rfl hsame
    have hsplit : ¬ OpenEnd.Split ((walker d).buildSides x ends ctx D).1 := by
      rintro ⟨u, hu, v, hv, hne⟩
      obtain ⟨e, he, rfl⟩ := List.mem_map.1 hu
      obtain ⟨e', he', rfl⟩ := List.mem_map.1 hv
      exact hne ((hsame e he).trans (hsame e' he').symm)
    rw [hx.statement_eq, Build.join_of_not_split hsplit]
    refine ⟨rfl, fun i hi => ?_⟩
    rw [hfollows.graph] at hi
    exact Site.Meets.not_merge_of_sides (hmeets.tail (.joined _ _ _ _ _)) hi

/-! ### Analyses -/

/-- In the graph `G`, which is built from the site `start` on, a merge behind a conditional or a try
statement has two predecessors at least. It was added where building came to the statement and its
sides left open ends at two points. Where they left all open ends at one point, there is none. -/
structure MergesNeeded (start : Site) (G : Graph) : Prop where
  built : G = (start.skeleton.graphFrom start.graph).marked
  two : ∀ {i : Nat} {p : Point} {x : Node}, G.points[i]? = some p → p.kind = .merge →
    p.origin = some x → x.construct = .conditional ∨ x.construct = .tryCatch →
    ∃ u ∈ p.predecessors, ∃ v ∈ p.predecessors, u ≠ v
  sited : ∀ {i : Nat} {x : Node}, G.StandsFor i .merge x →
    x.construct = .conditional ∨ x.construct = .tryCatch →
    Joins x ∧ ∃ d fs ends g, start.Meets ⟨skeleton (d + 1) x, fs, ends, g⟩ ∧
      ∀ ctx D r, ctx.targets = Frame.targets fs → D.graph = g →
        r = (walker d).buildSides x ends ctx D → OpenEnd.Split r.1 ∧ i = r.2.graph.points.size
  wired : ∀ {d x fs ends g ctx D}, start.Meets ⟨skeleton (d + 1) x, fs, ends, g⟩ → Joins x →
    ctx.targets = Frame.targets fs → D.graph = g → JoinWired d x ends ctx D G

theorem Skeleton.mergesNeeded {root : Node} (sp : Span) (h : sk.Every (Sourced root)) :
    MergesNeeded (.start sk sp) (sk.graphFrom (.fresh sp)).marked := by
  have hG : (sk.graphFrom (.fresh sp)).WellFormed := .built (sk.built_graphFrom sp)
  refine ⟨rfl, fun {i p x} hp hk horigin hx => ?_, fun {i x} hi hx => ?_,
    fun hmeets hx hctx hD => (Site.Meets.joinWired hmeets hx hctx hD).marked⟩
  · obtain ⟨s, y, hmeets, hadds, hy⟩ := exists_adds_marked hp (by simp [hk]) (by simp [hk])
    obtain rfl := Option.some.inj (horigin.symm.trans hy)
    obtain ⟨hjoins, d, hs, hsplit⟩ := hadds.joins hk (Site.Meets.every hmeets h).self hx
    obtain ⟨⟨u, hu, v, hv, hne⟩, rfl⟩ := hsplit _ rfl
    have hsettled := Site.Meets.settled hmeets (Site.start_settled sk sp)
    obtain ⟨skeleton, fs, ends, g⟩ := s
    obtain rfl : skeleton = _ := hs.trans (hjoins.skeleton_eq d)
    have hmem (w : Nat) : w ∈ p.predecessors ↔ _ := (hG.mem_marked_predecessors hp).trans
      (hsettled.arc_join_iff rfl ⟨u, hu, v, hv, hne⟩)
    exact ⟨u, (hmem u).2 hu, v, (hmem v).2 hv, hne⟩
  · rw [marked_standsFor_iff] at hi
    obtain ⟨s, hmeets, hadds⟩ := exists_adds_of_standsFor hi
    obtain ⟨hjoins, d, hs, hsplit⟩ := hadds.joins rfl (Site.Meets.every hmeets h).self hx
    refine ⟨hjoins, d, s.frames, s.ends, s.graph, hs ▸ hmeets, ?_⟩
    rintro ctx D r hctx hD rfl
    have hfollows := follows_sidesTo d x s.ends ctx
    rw [hfollows.fst, hfollows.graph, hctx, hD]
    exact hsplit _ rfl

/-- Whatever is analyzed, no merge behind a conditional or a try statement is needless, in the
graphs of reports and in those of all functions inside. -/
theorem analyses_mergesNeeded (o : Options) (n : Node) :
    (∃ r, analyze o n = .ok r ∧
      MergesNeeded (.start (skeleton (o.maxDepth + 1) n) n.span) r.graph) ∧
    (∃ r, analyzeFunction o n = .ok r ∧
      MergesNeeded (.start (.ofBody (skeleton o.maxDepth) n) n.span) r.graph) ∧
    ∀ (f : Node) (g : Graph), .finished (some f) g ∈ (draftProgram o n).trace ∨
        .finished (some f) g ∈ (draftFunction o n).trace →
      ∃ d, MergesNeeded (.start (.ofBody (skeleton d) f) f.span) g.marked :=
  forall_graphs (P := fun _ start G => MergesNeeded start G)
    (fun n _ h => Skeleton.mergesNeeded n.span h) o n

/-- A call on one side of a conditional. The merge behind it is entered from the call and from the
branch. -/
theorem analyses_mergesNeeded_oneSided :
    let call : Tree := .leaf "expression_statement" "f();"
    let statement : Tree := ⟨"if_statement", "", .zero, [.leaf "identifier" "c", call],
      .ofList [("condition", 0), ("consequence", 1)]⟩
    let root := Node.root ⟨"program", "", .zero, [statement], ∅⟩
    ∃ r p, analyze {} root = .ok r ∧ r.graph.points[4]? = some p ∧ p.kind = .merge ∧
      p.origin = some ⟨1, statement⟩ ∧ ∃ u ∈ p.predecessors, ∃ v ∈ p.predecessors, u ≠ v := by
  intro call statement root
  let x : Node := ⟨1, statement⟩
  let D : Draft := ⟨.fresh root.span, 0, #[]⟩
  obtain ⟨⟨r, hr, hneeded⟩, -⟩ := analyses_mergesNeeded {} root
  have hmeets : (Site.start (skeleton 257 root) root.span).Meets
      ⟨skeleton 256 x, [], [.plain 0], .fresh root.span⟩ := by
    rw [show skeleton 257 root = .andThen (skeleton 256 x) [] .pass from rfl]
    exact .single (.first _ _ _ _ _ _)
  have hwired : JoinWired 255 x [.plain 0] (.root 0) D r.graph :=
    hneeded.wired hmeets (.inl rfl) rfl rfl
  have hends : ((walker 255).buildSides x [.plain 0] (.root 0) D).1 =
      [.plain 3, .labelled 2 .whenFalse] := by decide +kernel
  have hsplit : OpenEnd.Split ((walker 255).buildSides x [.plain 0] (.root 0) D).1 := by
    rw [hends]
    exact ⟨3, by decide, 2, by decide, by decide⟩
  have hsize : ((walker 255).buildSides x [.plain 0] (.root 0) D).2.graph.points.size = 4 := by
    decide +kernel
  obtain ⟨-, hmerge, -⟩ := hwired.merged _ rfl hsplit
  rw [hsize] at hmerge
  obtain ⟨p, hp, hkind, -, horigin⟩ := hmerge
  exact ⟨r, p, hr, hp, hkind, horigin, hneeded.two hp hkind horigin (.inl rfl)⟩

end Arbor.Flow
