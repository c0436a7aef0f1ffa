import Arbor.Proofs.Flow.Reach

/-!
# What is found

A report lists the places at which something was found. Each list has the places that the single
events of the trace show. Code is listed as unreachable if it stands in a graph that was finished
and no way leads there from the entry of the graph.
-/

namespace Arbor.Flow

open Flow.Graph

/-! ### Lists without duplicates -/

lemma mem_pushNew {spans : Array Span} {s t : Span} : t ∈ pushNew spans s ↔ t ∈ spans ∨ t = s := by
  unfold pushNew
  split_ifs with h
  · rw [Array.contains_iff_mem] at h
    constructor
    · exact .inl
    · rintro (ht | rfl)
      · exact ht
      · exact h
  · exact Array.mem_push

lemma nodup_pushNew {spans : Array Span} (h : spans.toList.Nodup) (s : Span) :
    (pushNew spans s).toList.Nodup := by
  unfold pushNew
  split_ifs with hs
  · exact h
  · rw [Array.contains_iff_mem] at hs
    rw [Array.toList_push, List.nodup_append]
    refine ⟨h, List.nodup_singleton s, fun a ha b hb => ?_⟩
    rw [List.mem_singleton.1 hb]
    rintro rfl
    exact hs (Array.mem_toList_iff.1 ha)

lemma mem_foldl_pushNew {points : List Point} {spans : Array Span} {t : Span} :
    t ∈ points.foldl (fun spans p => pushNew spans p.span) spans ↔
      t ∈ spans ∨ ∃ p ∈ points, p.span = t := by
  induction points generalizing spans with
  | nil => simp
  | cons p points ih =>
    rw [List.foldl_cons, ih, mem_pushNew, eq_comm (a := t)]
    simp only [List.mem_cons, exists_eq_or_imp, or_assoc]

lemma nodup_foldl_pushNew {points : List Point} {spans : Array Span} (h : spans.toList.Nodup) :
    (points.foldl (fun spans p => pushNew spans p.span) spans).toList.Nodup := by
  induction points generalizing spans with
  | nil => exact h
  | cons p points ih => exact ih (nodup_pushNew h p.span)

/-! ### Single events -/

/-- The lists of places that a report has. -/
inductive Finding where
  | deadCode
  | endlessLoop
  | missingReturn
  | nullDereference

/-- The places in a list. -/
def Findings.places (found : Findings) : Finding → Array Span
  | .deadCode => found.unreachableCode
  | .endlessLoop => found.infiniteLoops
  | .missingReturn => found.missingReturns
  | .nullDereference => found.nullDereferences

/-- The places in a list of a report. -/
def Report.places (r : Report) : Finding → Array Span
  | .deadCode => r.unreachableCode
  | .endlessLoop => r.infiniteLoops
  | .missingReturn => r.missingReturns
  | .nullDereference => r.nullDereferences

/-- Whether a list is asked for. -/
def Options.asksFor (o : Options) : Finding → Bool
  | .deadCode => o.unreachable
  | .endlessLoop => o.infiniteLoops
  | .missingReturn => o.missingReturns
  | .nullDereference => o.nullDereferences

lemma Report.Shows.places {r : Report} {o : Options} {D : Draft} (h : r.Shows o D) (k : Finding) :
    r.places k = if o.asksFor k then D.found.places k else #[] := by
  cases k with
  | deadCode => exact h.unreachableCode
  | endlessLoop => exact h.infiniteLoops
  | missingReturn => exact h.missingReturns
  | nullDereference => exact h.nullDereferences

/-- The places that an event adds to a list. -/
def Event.places : Event → Finding → List Span
  | .endless n, .endlessLoop | .nullish n, .nullDereference => [n.span]
  | .finished _ g, .deadCode => g.marked.unreachable.toList.map (·.span)
  | .finished (some f) g, .missingReturn =>
    if declaresValue f && g.marked.fallsOffEnd then [f.span] else []
  | _, _ => []

namespace Findings

lemma mem_places_add {found : Findings} {e : Event} {k : Finding} {s : Span} :
    s ∈ (found.add e).places k ↔ s ∈ found.places k ∨ s ∈ e.places k := by
  cases e with
  | endless n => cases k <;> simp [add, places, Event.places]
  | nullish n => cases k <;> simp [add, places, Event.places, mem_pushNew]
  | finished f g =>
    cases k with
    | deadCode =>
      simp only [add, finish, places, Event.places, ← Array.foldl_toList, mem_foldl_pushNew,
        List.mem_map]
    | missingReturn =>
      cases f with
      | none => simp [add, finish, places, Event.places]
      | some f =>
        simp only [add, finish, places, Event.places]
        split_ifs <;> simp
    | endlessLoop | nullDereference => simp [add, finish, places, Event.places]
  | opened | declared | read | written => simp [add, Event.places]

/-- A list has the places that the events of the trace add to it. -/
lemma mem_places_foldl {events : List Event} {found : Findings} {k : Finding} {s : Span} :
    s ∈ (events.foldl add found).places k ↔
      s ∈ found.places k ∨ ∃ e ∈ events, s ∈ e.places k := by
  induction events generalizing found with
  | nil => simp
  | cons e events ih =>
    rw [List.foldl_cons, ih, mem_places_add]
    simp only [List.mem_cons, exists_eq_or_imp, or_assoc]

lemma nodup_unreachableCode_add {found : Findings} (h : found.unreachableCode.toList.Nodup)
    (e : Event) : (found.add e).unreachableCode.toList.Nodup := by
  cases e with
  | finished f g =>
    simp only [add, finish, ← Array.foldl_toList]
    exact nodup_foldl_pushNew h
  | opened | declared | read | written | endless | nullish => exact h

lemma nodup_unreachableCode_foldl {events : List Event} {found : Findings}
    (h : found.unreachableCode.toList.Nodup) :
    (events.foldl add found).unreachableCode.toList.Nodup := by
  induction events generalizing found with
  | nil => exact h
  | cons e events ih => exact ih (nodup_unreachableCode_add h e)

end Findings

/-- A list of the draft has the places that the events of its trace add to it. -/
lemma Draft.mem_places_found {D : Draft} {k : Finding} {s : Span} :
    s ∈ D.found.places k ↔ ∃ e ∈ D.trace, s ∈ e.places k := by
  have hnone : s ∉ Findings.none.places k := by
    cases k <;> simp [Findings.places, Findings.none]
  rw [Draft.found, ← Array.foldl_toList, Findings.mem_places_foldl]
  simp only [hnone, false_or, Array.mem_toList_iff]

/-! ### Code that is not reached -/

namespace Graph

variable {g : Graph}

/-- Code stands at the place to which no way leads from the entry. -/
def Unreached (g : Graph) (s : Span) : Prop :=
  ∃ i p, g.points[i]? = some p ∧ p.kind.isScaffolding = false ∧ p.span = s ∧ ¬ g.Reachable i

lemma marked_reachable {i : Nat} : g.marked.Reachable i ↔ g.Reachable i := Iff.rfl

/-- The marks say to which points ways lead. -/
lemma WellFormed.marked_reachable_iff (h : g.WellFormed) {i : Nat} {p : Point}
    (hp : g.marked.points[i]? = some p) : p.reachable = true ↔ g.marked.Reachable i := by
  rw [marked_point?] at hp
  obtain ⟨q, -, rfl⟩ := Option.map_eq_some_iff.1 hp
  rw [List.contains_iff_mem, marked_reachable]
  exact h.mem_reach_iff

lemma WellFormed.mem_unreachable_iff (h : g.WellFormed) {s : Span} :
    s ∈ g.marked.unreachable.toList.map (·.span) ↔ g.marked.Unreached s := by
  simp only [unreachable, List.mem_map, Array.mem_toList_iff, Array.mem_filter, Bool.and_eq_true,
    Bool.not_eq_true']
  constructor
  · rintro ⟨p, ⟨hmem, hreach, hkind⟩, hs⟩
    obtain ⟨i, hp⟩ := Array.mem_iff_getElem?.1 hmem
    refine ⟨i, p, hp, hkind, hs, fun hway => ?_⟩
    rw [(h.marked_reachable_iff hp).2 hway] at hreach
    cases hreach
  · rintro ⟨i, p, hp, hkind, hs, hway⟩
    refine ⟨p, ⟨Array.mem_of_getElem? hp, ?_, hkind⟩, hs⟩
    rw [← h.marked_reachable_iff hp] at hway
    simpa using hway

lemma marked_unreached_iff {s : Span} : g.marked.Unreached s ↔ g.Unreached s := by
  constructor
  · rintro ⟨i, p, hp, hkind, hs, hway⟩
    rw [marked_point?] at hp
    obtain ⟨q, hq, rfl⟩ := Option.map_eq_some_iff.1 hp
    exact ⟨i, q, hq, hkind, hs, hway⟩
  · rintro ⟨i, q, hq, hkind, hs, hway⟩
    refine ⟨i, { q with reachable := (g.reach g.entry).contains i }, ?_, hkind, hs, hway⟩
    rw [marked_point?, hq, Option.map_some]

end Graph

/-- The report tells exactly what is reached, in its graph and in the graphs of nested functions. -/
structure Report.ReachExact (r : Report) (o : Options) (nested : Node → Graph → Prop) : Prop where
  flags : ∀ (i : Nat) (p : Point), r.graph.points[i]? = some p →
    (p.reachable = true ↔ r.graph.Reachable i)
  nodup : r.unreachableCode.toList.Nodup
  off : o.unreachable = false → r.unreachableCode = #[]
  listed : o.unreachable = true → ∀ s, s ∈ r.unreachableCode ↔
    r.graph.Unreached s ∨ ∃ f g, nested f g ∧ g.Unreached s

/-- The code that a draft shows not to be reached stands in a graph that was finished. -/
lemma Draft.WellFormed.mem_unreachableCode_iff {D : Draft} (h : D.WellFormed) {s : Span} :
    s ∈ D.found.unreachableCode ↔ ∃ f g, .finished f g ∈ D.trace ∧ g.Unreached s := by
  refine (Draft.mem_places_found (k := .deadCode)).trans ⟨?_, ?_⟩
  · rintro ⟨e, hmem, hs⟩
    cases e with
    | finished f g =>
      refine ⟨f, g, hmem, ?_⟩
      rwa [← marked_unreached_iff, ← (h.trace f g hmem).mem_unreachable_iff]
    | opened | declared | read | written | endless | nullish => simp [Event.places] at hs
  · rintro ⟨f, g, hmem, hs⟩
    refine ⟨.finished f g, hmem, ?_⟩
    exact (h.trace f g hmem).mem_unreachable_iff.2 (marked_unreached_iff.2 hs)

/-- The graph of the draft is finished, and all others that are finished belong to functions with
some property. -/
lemma Draft.WellFormed.reachExact {D : Draft} (h : D.WellFormed) {last : Option Node}
    {P : Node → Prop} (hlast : .finished last D.graph ∈ D.trace)
    (hnested : ∀ f g, .finished f g ∈ D.trace → g = D.graph ∨ ∃ m, f = some m ∧ P m) (o : Options) :
    ∃ r, report o D = .ok r ∧ r.ReachExact o fun f g => P f ∧ .finished (some f) g ∈ D.trace := by
  obtain ⟨r, hr, hshows⟩ := h.report_shows o
  refine ⟨r, hr, fun i p hp => ?_, ?_, fun hoff => ?_, fun hon s => ?_⟩
  · rw [hshows.graph] at hp ⊢
    exact h.graph.marked_reachable_iff hp
  · rw [hshows.unreachableCode]
    split_ifs
    · rw [Draft.found, ← Array.foldl_toList]
      exact Findings.nodup_unreachableCode_foldl List.nodup_nil
    · exact List.nodup_nil
  · rw [hshows.unreachableCode, hoff]
    rfl
  · rw [hshows.unreachableCode, hon, if_pos rfl, h.mem_unreachableCode_iff, hshows.graph,
      marked_unreached_iff]
    constructor
    · rintro ⟨f, g, hmem, hs⟩
      rcases hnested f g hmem with rfl | ⟨m, rfl, hP⟩
      · exact .inl hs
      · exact .inr ⟨m, g, ⟨hP, hmem⟩, hs⟩
    · rintro (hs | ⟨f, g, ⟨-, hmem⟩, hs⟩)
      · exact ⟨last, D.graph, hlast, hs⟩
      · exact ⟨some f, g, hmem, hs⟩

/-- Every analysis tells exactly what is reached. -/
theorem analyses_reachExact (o : Options) (n : Node) :
    (∃ r, analyze o n = .ok r ∧ r.ReachExact o fun f g =>
      (f ∈ n.preorder ∧ f.construct = .function) ∧
        .finished (some f) g ∈ (draftProgram o n).trace) ∧
    (∃ r, analyzeFunction o n = .ok r ∧ r.ReachExact o fun f g =>
      (f.Inside n ∧ f.construct = .function) ∧
        .finished (some f) g ∈ (draftFunction o n).trace) := by
  constructor
  · refine (wellFormed_draftProgram o n).reachExact
      (Array.mem_of_back? (draftProgram_trace_back? o n)) (fun f g hmem => ?_) o
    rcases finished_draftProgram o n hmem with hfor | ⟨-, rfl⟩
    · obtain ⟨m, -, rfl, -⟩ := hfor.complete
      exact .inr ⟨m, rfl, hfor.holds m rfl⟩
    · exact .inl (draftProgram_graph o n).symm
  · refine (wellFormed_draftFunction o n).reachExact
      (Array.mem_of_back? (draftFunction_trace_back? o n)) (fun f g hmem => ?_) o
    rcases finished_draftFunction o n hmem with hfor | ⟨-, rfl⟩
    · obtain ⟨m, -, rfl, -⟩ := hfor.complete
      exact .inr ⟨m, rfl, hfor.holds m rfl⟩
    · exact .inl (draftFunction_graph o n).symm

end Arbor.Flow
