import Arbor.Proofs.Flow.Completion

/-!
# Functions that fall off their end

The graph of a function tells whether control can fall off the end of the function, and so can end
it without a value. What it tells is what the outcomes of the body tell: control gets to the exit
other than by a return exactly if the normal outcome is among them. The report on a program names
those of its functions that promise a value and may end so.
-/

namespace Arbor.Flow

open Flow.Graph

/-! ### Graphs of functions -/

lemma PointKind.not_isExplicitExit {k : PointKind} (h : k.flowsOn = true) :
    k.isExplicitExit = false := by
  cases k <;> simp_all [flowsOn, isExplicitExit]

lemma Begun.fresh {G : Graph} (hG : G.WellFormed) (sp : Span) :
    Begun G ⟨none, none⟩ [.plain 0] (.fresh sp) := by
  refine ⟨.fresh sp, .fresh sp, ⟨?_, by simp, by simp⟩, ?_, by simp⟩
  · simp [Graph.fresh]
  · rw [hG.entry]
    simp [Graph.fresh]

/-- What is built for a skeleton from the entry of a fresh graph on. -/
abbrev Skeleton.fromEntry (s : Skeleton) (sp : Span) : List OpenEnd × Graph :=
  s.build ⟨none, none⟩ [.plain 0] (.fresh sp)

namespace Skeleton

variable (s : Skeleton) (sp : Span) {u v : Nat}

/-- What is open at the end flows on to the exit. -/
lemma graphFrom_arc :
    (s.graphFrom (.fresh sp)).Arc u v ↔
      (s.fromEntry sp).2.Arc u v ∨ u ∈ OpenEnd.points (s.fromEntry sp).1 ∧ v = 1 := by
  have hcont := s.continues (.fresh sp)
  have hwf : (s.fromEntry sp).2.WellFormed := .built hcont.built
  rw [s.graphFrom_fresh]
  exact Faithful.link_arc hwf.successors _ (fun _ => ⟨rfl, rfl⟩)
    (fun e he => (hcont.flows e he).lt_size) (lt_size_of_kind? ((hwf.kind_exit 1).2 rfl))

/-- Nothing leads to the exit but returns and what is open at the end. -/
lemma kind?_of_arc_exit (ha : (s.fromEntry sp).2.Arc u 1) :
    (s.fromEntry sp).2.kind? u = some .returnJump := by
  obtain ⟨e, he, rfl, htarget⟩ := ha
  rcases (s.threaded ⟨none, none⟩ [.plain 0] (.fresh sp)).grown.mem_edges he with he | hadd
  · simp [Graph.fresh] at he
  · obtain ⟨k, hk, hmem, -⟩ := hadd.leaves (by simp [htarget, Graph.fresh])
    cases k with
    | returns => exact hk
    | throws | breaks | continues => simp [Targets.of] at hmem

lemma sealed_graphFrom : Sealed (s.graphFrom (.fresh sp)) (.fresh sp) (s.fromEntry sp).2 := by
  refine ⟨fun u v ha => (s.graphFrom_arc sp).2 (.inl ha), fun u v hv ha => ?_⟩
  rcases (s.graphFrom_arc sp).1 ha with ha | ⟨-, rfl⟩
  · exact ha
  · simpa [Graph.fresh] using hv.1

/-- Control falls off the end of a skeleton if it can leave it normally. -/
theorem fallsOffEnd_graphFrom :
    (s.graphFrom (.fresh sp)).marked.fallsOffEnd = true ↔ .normal ∈ s.outcomes false := by
  have hG := WellFormed.built (s.built_graphFrom sp)
  have hentry : Live false (s.graphFrom (.fresh sp)) [.plain 0] :=
    ⟨.plain 0, by simp, .inr (hG.entry ▸ .refl)⟩
  have hout := (s.hasOutcomes false (.fresh hG sp) (s.sealed_graphFrom sp)).normal
  rw [and_iff_right hentry, live_iff_points] at hout
  have hkind (u : Nat) : (s.graphFrom (.fresh sp)).kind? u = (s.fromEntry sp).2.kind? u := by
    rw [s.graphFrom_fresh, addEdges_kind?]
  rw [hG.fallsOffEnd_marked_iff, ← hout]
  constructor
  · rintro ⟨u, k, ha, hu, hk, hexit⟩
    rcases (s.graphFrom_arc sp).1 ha with ha | ⟨hopen, -⟩
    · rw [hkind, s.kind?_of_arc_exit sp ha] at hk
      obtain rfl := Option.some.inj hk
      simp [PointKind.isExplicitExit] at hexit
    · exact ⟨u, hopen, .inr hu⟩
  · rintro ⟨u, hopen, hu⟩
    obtain ⟨e, he, rfl⟩ := List.mem_map.1 hopen
    obtain ⟨k, hk, hflows, -⟩ := (s.continues (.fresh sp)).flows e he
    exact ⟨e.point, k, (s.graphFrom_arc sp).2 (.inr ⟨hopen, rfl⟩), hu.resolve_left (by decide),
      (hkind _).trans hk, k.not_isExplicitExit hflows⟩

end Skeleton

/-- Control falls off the end of a function if it can leave the body of the function normally. -/
theorem fallsOffEnd_functionGraph (d : Nat) (n : Node) :
    (functionGraph d n).marked.fallsOffEnd = true ↔ .normal ∈ bodyOutcomesTo (d - 1) n := by
  rw [functionGraph, Skeleton.fallsOffEnd_graphFrom, outcomes_ofBody]

/-- What a graph tells about falling off the end, against what the rules tell: it never tells more,
and it tells all of it under a condition. -/
structure Graph.Tells (g : Graph) (ways : Outcomes) (condition : Prop) : Prop where
  sound : g.fallsOffEnd = true → .normal ∈ ways
  complete : condition → (g.fallsOffEnd = true ↔ .normal ∈ ways)

lemma tells_functionGraph (d : Nat) (n : Node) :
    (functionGraph (d + 1) n).marked.Tells (bodyWaysTo d n) (BodyLastPartsCount d n) := by
  have hfalls := fallsOffEnd_functionGraph (d + 1) n
  refine ⟨fun h => bodyOutcomesTo_subset_bodyWaysTo d n (hfalls.1 h), fun h => ?_⟩
  rw [hfalls, Nat.add_sub_cancel, bodyOutcomesTo_eq_bodyWaysTo h]

/-- A graph that is complete tells what all levels together tell. -/
lemma Complete.tells {enough : Prop} {f : Node} {g : Graph} (h : Complete enough (some f) g)
    (he : enough) : g.marked.Tells (bodyWays f) (BodyLastPartsCount f.height f) := by
  obtain ⟨n, d, hn, rfl, hheight⟩ := h
  obtain rfl := Option.some.inj hn
  have hpos := f.height_pos
  obtain ⟨d, rfl⟩ : ∃ k, d = k + 1 := ⟨d - 1, by have := hheight he; omega⟩
  have htells := tells_functionGraph d f
  rwa [bodyWaysTo_eq (hheight he),
    bodyLastPartsCount_iff (hheight he) (Nat.le_succ f.height)] at htells

/-! ### Reports -/

/-- The function whose end the event is, and its graph. -/
def Event.function? : Event → Option (Node × Graph)
  | .finished (some f) g => some (f, g)
  | _ => none

/-- The functions that were finished, in that order, with their graphs. -/
def Draft.functions (D : Draft) : List (Node × Graph) := D.trace.toList.filterMap Event.function?

lemma Draft.mem_functions {D : Draft} {f : Node} {g : Graph} :
    (f, g) ∈ D.functions ↔ .finished (some f) g ∈ D.trace := by
  rw [functions, List.mem_filterMap, ← Array.mem_toList_iff]
  constructor
  · rintro ⟨e, he, heq⟩
    cases e with
    | finished f g =>
      cases f with
      | none => cases heq
      | some f =>
        cases heq
        exact he
    | opened | declared | read | written | endless | nullish => cases heq
  · exact fun h => ⟨_, h, rfl⟩

/-- Whether the function promises a value and control falls off the end of its graph. -/
def lacksReturn (f : Node × Graph) : Bool := declaresValue f.1 && f.2.marked.fallsOffEnd

/-- The places of the functions that were finished and lack a return. -/
def Draft.lacking (D : Draft) : List Span := (D.functions.filter lacksReturn).map (·.1.span)

lemma Draft.mem_lacking {D : Draft} {f : Node} {g : Graph} (h : (f, g) ∈ D.functions)
    (hvalue : declaresValue f = true) (hfalls : g.marked.fallsOffEnd = true) :
    f.span ∈ D.lacking := by
  refine List.mem_map.2 ⟨(f, g), List.mem_filter.2 ⟨h, ?_⟩, rfl⟩
  rw [lacksReturn, hvalue, hfalls]
  rfl

namespace Findings

lemma missingReturns_add (e : Event) (found : Findings) :
    (found.add e).missingReturns.toList =
      found.missingReturns.toList ++ (e.function?.toList.filter lacksReturn).map (·.1.span) := by
  cases e with
  | finished f g =>
    cases f with
    | none => simp [add, finish, Event.function?]
    | some f =>
      have hlacks : (declaresValue f && g.marked.fallsOffEnd) = lacksReturn (f, g) := rfl
      simp only [add, finish, Event.function?, hlacks]
      cases hf : lacksReturn (f, g) <;> simp [hf]
  | opened | declared | read | written | endless | nullish => simp [add, Event.function?]

lemma missingReturns_foldl (events : List Event) (found : Findings) :
    (events.foldl add found).missingReturns.toList = found.missingReturns.toList ++
      ((events.filterMap Event.function?).filter lacksReturn).map (·.1.span) := by
  induction events generalizing found with
  | nil => simp
  | cons e events ih =>
    have hcons : (e :: events).filterMap Event.function? =
        e.function?.toList ++ events.filterMap Event.function? := by
      cases he : e.function? <;> simp [he]
    rw [List.foldl_cons, ih, missingReturns_add, hcons, List.filter_append, List.map_append,
      List.append_assoc]

end Findings

lemma Draft.WellFormed.report_missingReturns {D : Draft} (h : D.WellFormed) (o : Options) :
    ∃ r, report o D = .ok r ∧ r.graph = D.graph.marked ∧
      r.missingReturns.toList = if o.missingReturns then D.lacking else [] := by
  obtain ⟨r, hr, hgraph, hmissing⟩ := h.report_eq o
  refine ⟨r, hr, hgraph, ?_⟩
  rw [hmissing]
  split_ifs
  · rw [← Array.foldl_toList, Findings.missingReturns_foldl]
    rfl
  · rfl

lemma functions_draftFunction (o : Options) (n : Node) :
    (draftFunction o n).functions.getLast? = some (n, functionGraph (o.maxDepth + 1) n) := by
  have hback := draftFunction_trace_back? o n
  rw [draftFunction_graph, ← Array.getLast?_toList, List.getLast?_eq_some_iff] at hback
  obtain ⟨events, heq⟩ := hback
  rw [Draft.functions, heq, List.filterMap_append, List.getLast?_append]
  rfl

/-- The functions that were finished, each with a graph that tells what the rules tell. -/
def Draft.Tells (D : Draft) : Prop :=
  ∀ f g, (f, g) ∈ D.functions → g.marked.Tells (bodyWays f) (BodyLastPartsCount f.height f)

lemma tells_draftProgram {o : Options} {n : Node} (h : 2 * n.height ≤ o.maxDepth + 1) :
    (draftProgram o n).Tells := by
  intro f g hmem
  exact ((finished_draftProgram o n (Draft.mem_functions.1 hmem)).resolve_right
    (by simp)).complete.tells h

lemma tells_draftFunction {o : Options} {n : Node} (h : 2 * n.height ≤ o.maxDepth + 1) :
    (draftFunction o n).Tells := by
  intro f g hmem
  exact (complete_draftFunction o n (Draft.mem_functions.1 hmem)).tells (Nat.le_succ_of_le h)

/-- Control falls off the end of a function only if the rules let it leave the body normally, down
to the depth that is looked at. Those functions are reported that promise a value and whose graph
lets control fall off the end. If the depth is enough, this happens only to functions whose body can
be left normally by the rules; and it happens to all of these, as long as the last parts of the try
statements in them count. -/
theorem analyses_missingReturns (o : Options) (n : Node) :
    (∃ r, analyzeFunction o n = .ok r ∧
      r.graph.Tells (bodyWaysTo o.maxDepth n) (BodyLastPartsCount o.maxDepth n)) ∧
    (∃ r, analyze o n = .ok r ∧
      r.missingReturns.toList = if o.missingReturns then (draftProgram o n).lacking else []) ∧
    (∃ r, analyzeFunction o n = .ok r ∧
      (draftFunction o n).functions.getLast? = some (n, functionGraph (o.maxDepth + 1) n) ∧
      r.missingReturns.toList = if o.missingReturns then (draftFunction o n).lacking else []) ∧
    (2 * n.height ≤ o.maxDepth + 1 → (draftProgram o n).Tells ∧ (draftFunction o n).Tells) := by
  have hP := wellFormed_draftProgram o n
  have hF := wellFormed_draftFunction o n
  refine ⟨?_, ?_, ?_, fun h => ⟨tells_draftProgram h, tells_draftFunction h⟩⟩
  · obtain ⟨r, hr, hgraph, -⟩ := hF.report_eq o
    refine ⟨r, hr, ?_⟩
    rw [hgraph, draftFunction_graph]
    exact tells_functionGraph o.maxDepth n
  · obtain ⟨r, hr, -, hmissing⟩ := hP.report_missingReturns o
    exact ⟨r, hr, hmissing⟩
  · obtain ⟨r, hr, -, hmissing⟩ := hF.report_missingReturns o
    exact ⟨r, hr, functions_draftFunction o n, hmissing⟩

/-! ### A last part that breaks off a switch -/

/-- The block `{ statement }`. -/
def blockOf (statement : Tree) : Tree := ⟨"statement_block", "", .zero, [statement], ∅⟩

/-- The loop `do { statement } while (c);`. -/
def doWhileOf (statement : Tree) : Tree :=
  ⟨"do_statement", "", .zero, [blockOf statement, .leaf "identifier" "c"],
    .ofList [("body", 0), ("condition", 1)]⟩

/-- The clause `finally { last }`. -/
def finallyOf (last : Tree) : Tree :=
  ⟨"finally_clause", "", .zero, [blockOf last], .ofList [("body", 0)]⟩

/-- The statement `try { statement } finally { last }`. -/
def tryOf (statement last : Tree) : Tree :=
  ⟨"try_statement", "", .zero, [blockOf statement, finallyOf last],
    .ofList [("body", 0), ("finalizer", 1)]⟩

/-- A function that promises a number, around `switch (x) { default: try { statement } finally {
break; } }`. -/
def brokenOff (statement : Tree) : Node :=
  let case : Tree := ⟨"switch_default", "", .zero,
    [tryOf statement (.leaf "break_statement" "break;")], ∅⟩
  let switch : Tree := ⟨"switch_statement", "", .zero,
    [.leaf "identifier" "x", ⟨"switch_body", "", .zero, [case], ∅⟩],
    .ofList [("value", 0), ("body", 1)]⟩
  .root ⟨"function_declaration", "", .zero,
    [.leaf "type_annotation" ": number", blockOf switch], .ofList [("return_type", 0), ("body", 1)]⟩

/-- The statement `return 1;`. -/
def returnOne : Tree := .leaf "return_statement" "return 1;"

/-- Behind a return, a last part that breaks off a switch leads to the end of the function, which is
reported. -/
theorem analyses_missingReturns_return :
    2 * (brokenOff returnOne).height ≤ 257 ∧
    BodyLastPartsCount (brokenOff returnOne).height (brokenOff returnOne) ∧
    .normal ∈ bodyWays (brokenOff returnOne) ∧
    ∃ r, analyzeFunction {} (brokenOff returnOne) = .ok r ∧
      (brokenOff returnOne).span ∈ r.missingReturns := by
  have hheight : 2 * (brokenOff returnOne).height ≤ 257 := by decide +kernel
  have hcount : BodyLastPartsCount (brokenOff returnOne).height (brokenOff returnOne) := by
    decide +kernel
  have hnormal : .normal ∈ bodyWays (brokenOff returnOne) := by decide +kernel
  obtain ⟨-, -, ⟨r, hr, hlast, hmissing⟩, htells⟩ :=
    analyses_missingReturns {} (brokenOff returnOne)
  refine ⟨hheight, hcount, hnormal, r, hr, ?_⟩
  have hmem := List.mem_of_getLast? hlast
  have hfalls := ((htells hheight).2 _ _ hmem).complete hcount
  rw [← Array.mem_toList_iff, hmissing, if_pos rfl]
  exact Draft.mem_lacking hmem (by decide +kernel) (hfalls.2 hnormal)

/-- Control can leave a return and a loop that returns in its first round in the same ways. By the
rules the last part leads to the end of the function behind either of them. Behind the loop it is
entered from the open end that control does not get to, and nothing is reported. -/
theorem brokenOff_doWhile_unreported :
    ways (.root returnOne) = ways (.root (doWhileOf returnOne)) ∧
    declaresValue (brokenOff (doWhileOf returnOne)) = true ∧
    .normal ∈ bodyWays (brokenOff (doWhileOf returnOne)) ∧
    ∃ r, analyzeFunction {} (brokenOff (doWhileOf returnOne)) = .ok r ∧
      r.graph.fallsOffEnd = false ∧ r.missingReturns = #[] := by
  refine ⟨by decide +kernel, by decide +kernel, by decide +kernel, ?_⟩
  have hreport : (analyzeFunction {} (brokenOff (doWhileOf returnOne))).toOption.map
      (fun r => (r.graph.fallsOffEnd, r.missingReturns)) = some (false, #[]) := by
    decide +kernel
  obtain ⟨r, hr, -⟩ := (wellFormed_draftFunction {} (brokenOff (doWhileOf returnOne))).report_eq {}
  refine ⟨r, hr, ?_⟩
  rw [analyzeFunction, hr] at hreport
  exact ⟨congrArg (·.1) (Option.some.inj hreport), congrArg (·.2) (Option.some.inj hreport)⟩

end Arbor.Flow
