import Arbor.Proofs.Flow.Report

/-!
# Detectors do not interfere

A report is made by finding everything and leaving out what the options do not ask for. The other
way to heed the options is to test them whenever something happens, before it is noted. `observe`
does this, and it comes to the same report. In particular a detector that is switched off finds
nothing, and nothing else changes.
-/

namespace Arbor.Flow

variable (o : Options)

/-! ### Testing the options event by event -/

namespace Ledger

/-- Notes a read. That the variable has no value yet is noted only if this is asked for. -/
def readFor (l : Ledger) (scope : Nat) (name : Node) : Ledger :=
  match l.scopes.resolve? scope name.text with
  | none => l
  | some r =>
    match l.scopes.vars[r.var]? with
    | none => l
    | some v =>
      { l with
        scopes := l.scopes.markRead r name.span
        reads := l.reads.push (.of name)
        captures := if r.crossedFunction then l.captures.push (.of name) else l.captures
        uninitialized :=
          if o.uninitializedReads && !v.initialized then l.uninitialized.push (.of name)
          else l.uninitialized }

/-- Notes an event as far as it is asked for. -/
def recordFor (l : Ledger) : Event → Ledger
  | .read scope name => l.readFor o scope name
  | e => l.record e

/-- The ledger without what is not asked for. -/
def masked (l : Ledger) : Ledger :=
  { l with uninitialized := if o.uninitializedReads then l.uninitialized else #[] }

lemma readFor_masked (l : Ledger) (scope : Nat) (name : Node) :
    (l.masked o).readFor o scope name = (l.read scope name).masked o := by
  simp only [readFor, read, masked]
  cases l.scopes.resolve? scope name.text with
  | none => rfl
  | some r =>
    cases hv : l.scopes.vars[r.var]? with
    | none => simp [hv]
    | some v =>
      cases o.uninitializedReads <;> cases hi : v.initialized <;>
      simp [hv, hi]

lemma write_masked (l : Ledger) (scope : Nat) (name : Node) :
    (l.masked o).write scope name = (l.write scope name).masked o := by
  simp only [write, masked]
  cases l.scopes.resolve? scope name.text <;> rfl

/-- Leaving out and noting commute. -/
lemma recordFor_masked (l : Ledger) (e : Event) :
    (l.masked o).recordFor o e = (l.record e).masked o := by
  cases e with
  | read scope name => exact readFor_masked o l scope name
  | written scope name => exact write_masked o l scope name
  | opened | declared | endless | nullish | finished => rfl

end Ledger

namespace Findings

/-- Adds what a finished graph shows, as far as it is asked for. -/
def finishFor (f : Findings) (function : Option Node) (g : Graph) : Findings :=
  { f with
    unreachableCode :=
      if o.unreachable then
        g.unreachable.foldl (fun spans p => pushNew spans p.span) f.unreachableCode
      else f.unreachableCode
    missingReturns :=
      match function with
      | some n =>
        if o.missingReturns && declaresValue n && g.fallsOffEnd then f.missingReturns.push n.span
        else f.missingReturns
      | Option.none => f.missingReturns }

/-- Adds what an event shows, as far as it is asked for. -/
def recordFor (f : Findings) : Event → Except Error Findings
  | .endless n =>
    .ok (if o.infiniteLoops then { f with infiniteLoops := f.infiniteLoops.push n.span } else f)
  | .nullish n =>
    .ok (if o.nullDereferences then
      { f with nullDereferences := pushNew f.nullDereferences n.span } else f)
  | .finished function g => g.markReachable.map (f.finishFor o function)
  | .opened .. | .declared .. | .read .. | .written .. => .ok f

/-- The findings without what is not asked for. -/
def masked (f : Findings) : Findings where
  nullDereferences := if o.nullDereferences then f.nullDereferences else #[]
  infiniteLoops := if o.infiniteLoops then f.infiniteLoops else #[]
  unreachableCode := if o.unreachable then f.unreachableCode else #[]
  missingReturns := if o.missingReturns then f.missingReturns else #[]

lemma masked_none : (none.masked o) = none := by
  simp [masked, none]

lemma finishFor_masked (f : Findings) (function : Option Node) (g : Graph) :
    (f.masked o).finishFor o function g = (f.finish function g).masked o := by
  cases function with
  | none => cases hu : o.unreachable <;> simp [finishFor, finish, masked, hu]
  | some n =>
    cases hu : o.unreachable <;> cases hm : o.missingReturns <;>
      simp [finishFor, finish, masked, hu, hm]

/-- Leaving out and adding commute. -/
lemma recordFor_masked (f : Findings) (e : Event) :
    (f.masked o).recordFor o e = (f.record e).map (masked o) := by
  cases e with
  | endless n => cases h : o.infiniteLoops <;> simp [recordFor, record, masked, Except.map, h]
  | nullish n => cases h : o.nullDereferences <;> simp [recordFor, record, masked, Except.map, h]
  | finished function g =>
    simp only [recordFor, record]
    cases g.markReachable with
    | error => rfl
    | ok g => exact congrArg Except.ok (finishFor_masked o f function g)
  | opened | declared | read | written => rfl

end Findings

/-- What an analysis holds while it goes through a trace. -/
structure Watch where
  ledger : Ledger
  found : Findings

namespace Watch

/-- Notes an event as far as it is asked for. -/
def recordFor (w : Watch) (e : Event) : Except Error Watch :=
  (w.found.recordFor o e).map fun found => ⟨w.ledger.recordFor o e, found⟩

/-- The watch without what is not asked for. -/
def masked (w : Watch) : Watch := ⟨w.ledger.masked o, w.found.masked o⟩

lemma recordFor_masked (w : Watch) (e : Event) :
    (w.masked o).recordFor o e =
      (w.found.record e).map fun found => masked o ⟨w.ledger.record e, found⟩ := by
  rw [recordFor, masked, Ledger.recordFor_masked, Findings.recordFor_masked]
  cases w.found.record e <;> rfl

/-- Leaving out before a run and heeding the options during it comes to the same as leaving out
after the run. -/
lemma foldlM_recordFor_masked (events : List Event) (w : Watch) :
    events.foldlM (recordFor o) (w.masked o) =
      (events.foldlM Findings.record w.found).map fun found =>
        masked o ⟨events.foldl Ledger.record w.ledger, found⟩ := by
  induction events generalizing w with
  | nil => rfl
  | cons e events ih =>
    rw [List.foldlM_cons, List.foldlM_cons, recordFor_masked]
    cases w.found.record e with
    | error => rfl
    | ok found => exact ih ⟨w.ledger.record e, found⟩

end Watch

/-- The report on a draft by a watch that heeds the options all along. -/
def observe (d : Draft) : Except Error Report := do
  let graph ← d.graph.markReachable
  let w ← d.trace.foldlM (Watch.recordFor o) ⟨.empty, .none⟩
  return {
    graph
    reads := w.ledger.reads
    writes := w.ledger.writes
    captures := w.ledger.captures
    uninitializedReads := w.ledger.uninitialized
    nullDereferences := w.found.nullDereferences
    unusedVariables := if o.unusedVariables then w.ledger.scopes.unused else []
    unreachableCode := w.found.unreachableCode
    infiniteLoops := w.found.infiniteLoops
    missingReturns := w.found.missingReturns }

lemma observe_eq_report (d : Draft) : observe o d = report o d := by
  have hstart : (⟨.empty, .none⟩ : Watch) = Watch.masked o ⟨.empty, .none⟩ := by
    simp [Watch.masked, Ledger.masked, Ledger.empty, Findings.masked_none]
  obtain ⟨graph, scopes, ⟨events⟩⟩ := d
  simp only [observe, report, Findings.ofTrace, Ledger.ofTrace, List.foldlM_toArray,
    List.foldl_toArray]
  rw [hstart, Watch.foldlM_recordFor_masked]
  cases graph.markReachable with
  | error => rfl
  | ok graph => cases events.foldlM Findings.record .none <;> rfl

/-! ### Two analyses with the same depth -/

/-- The options with all detectors switched on. -/
def Options.everything : Options := { maxDepth := o.maxDepth }

/-- The reports have the same graph and the same uses of variables. -/
structure Report.SameFlow (r r' : Report) : Prop where
  graph : r.graph = r'.graph
  reads : r.reads = r'.reads
  writes : r.writes = r'.writes
  captures : r.captures = r'.captures

/-- Each list of the report is that of the full report if it is asked for, and empty otherwise. -/
structure Report.Selects (r : Report) (full : Report) : Prop where
  unreachableCode : r.unreachableCode = if o.unreachable then full.unreachableCode else #[]
  infiniteLoops : r.infiniteLoops = if o.infiniteLoops then full.infiniteLoops else #[]
  missingReturns : r.missingReturns = if o.missingReturns then full.missingReturns else #[]
  nullDereferences : r.nullDereferences = if o.nullDereferences then full.nullDereferences else #[]
  unusedVariables : r.unusedVariables = if o.unusedVariables then full.unusedVariables else []
  uninitializedReads :
    r.uninitializedReads = if o.uninitializedReads then full.uninitializedReads else #[]

lemma Report.SameFlow.symm {r r' : Report} (h : r.SameFlow r') : r'.SameFlow r :=
  ⟨h.graph.symm, h.reads.symm, h.writes.symm, h.captures.symm⟩

lemma Report.SameFlow.trans {r r' r'' : Report} (h : r.SameFlow r') (h' : r'.SameFlow r'') :
    r.SameFlow r'' :=
  ⟨h.graph.trans h'.graph, h.reads.trans h'.reads, h.writes.trans h'.writes,
    h.captures.trans h'.captures⟩

/-- All reports on one draft select from the full one. -/
lemma Draft.WellFormed.report_selects {D : Draft} (h : D.WellFormed) :
    ∃ full, report o.everything D = .ok full ∧
      ∀ o', ∃ r, report o' D = .ok r ∧ r.SameFlow full ∧ r.Selects o' full := by
  simp only [report, h.graph.markReachable_eq, Findings.ofTrace_eq h.trace]
  exact ⟨_, rfl, fun o' => ⟨_, rfl, ⟨rfl, rfl, rfl, rfl⟩, rfl, rfl, rfl, rfl, rfl, rfl⟩⟩

lemma Draft.WellFormed.reports_independent {D : Draft} (h : D.WellFormed) (o' : Options) :
    ∃ r r' full, report o D = .ok r ∧ report o' D = .ok r' ∧ report o.everything D = .ok full ∧
      r.SameFlow r' ∧ r.Selects o full ∧ r'.Selects o' full ∧ observe o D = .ok r := by
  obtain ⟨full, hfull, hall⟩ := h.report_selects o
  obtain ⟨r, hr, hsame, hselects⟩ := hall o
  obtain ⟨r', hr', hsame', hselects'⟩ := hall o'
  exact ⟨r, r', full, hr, hr', hfull, hsame.trans hsame'.symm, hselects, hselects',
    (observe_eq_report o D).trans hr⟩

/-- The walk goes by the depth alone. -/
lemma draftProgram_congr {o o' : Options} (h : o.maxDepth = o'.maxDepth) (n : Node) :
    draftProgram o n = draftProgram o' n := by
  rw [draftProgram, draftProgram, h]

lemma draftFunction_congr {o o' : Options} (h : o.maxDepth = o'.maxDepth) (n : Node) :
    draftFunction o n = draftFunction o' n := by
  rw [draftFunction, draftFunction, h]

lemma draftProgram_everything (n : Node) : draftProgram o.everything n = draftProgram o n := rfl

lemma draftFunction_everything (n : Node) : draftFunction o.everything n = draftFunction o n := rfl

/-- Analyses with the same depth, whatever their detectors, agree on the graph and on the uses of
variables. Each list of theirs is that of the analysis with all detectors if its own detector is on,
and empty otherwise. Testing the detectors during the analysis leads to the same report. -/
theorem analyses_detectors_independent (o o' : Options) (h : o'.maxDepth = o.maxDepth) (n : Node) :
    (∃ r r' full, analyze o n = .ok r ∧ analyze o' n = .ok r' ∧
      analyze o.everything n = .ok full ∧ r.SameFlow r' ∧ r.Selects o full ∧
      r'.Selects o' full ∧ observe o (draftProgram o n) = .ok r) ∧
    (∃ r r' full, analyzeFunction o n = .ok r ∧ analyzeFunction o' n = .ok r' ∧
      analyzeFunction o.everything n = .ok full ∧ r.SameFlow r' ∧ r.Selects o full ∧
      r'.Selects o' full ∧ observe o (draftFunction o n) = .ok r) := by
  constructor
  · rw [analyze, analyze, analyze, draftProgram_congr h, draftProgram_everything]
    exact (wellFormed_draftProgram o n).reports_independent o o'
  · rw [analyzeFunction, analyzeFunction, analyzeFunction, draftFunction_congr h,
      draftFunction_everything]
    exact (wellFormed_draftFunction o n).reports_independent o o'

/-- A program with something for each detector to find, of which the analysis without detectors
shows nothing. -/
theorem analyses_detectors_independent_off :
    let off : Options := ⟨false, false, false, false, false, false, 256⟩
    let use : Tree := ⟨"member_expression", "null.z", .zero, [.leaf "null" "null"],
      .ofList [("object", 0)]⟩
    let body : Tree := ⟨"statement_block", "", .zero, [.leaf "throw_statement" "throw x;", use], ∅⟩
    let loop : Tree := ⟨"while_statement", "", .zero, [.leaf "true" "true", body],
      .ofList [("condition", 0), ("body", 1)]⟩
    let function : Tree := ⟨"function_declaration", "", .zero,
      [.leaf "type_annotation" ": number", ⟨"statement_block", "", .zero, [loop], ∅⟩],
      .ofList [("body", 1), ("return_type", 0)]⟩
    let unused : Tree := ⟨"variable_declarator", "", .zero,
      [.leaf "identifier" "x", .leaf "number" "1"], .ofList [("name", 0), ("value", 1)]⟩
    let unset : Tree := ⟨"variable_declarator", "", .zero, [.leaf "identifier" "y"],
      .ofList [("name", 0)]⟩
    let root := Node.root ⟨"program", "", .zero,
      [unused, unset, .leaf "identifier" "y", function], ∅⟩
    off.maxDepth = Options.maxDepth {} ∧
    (analyze {} root).toOption.map (fun r => (r.unreachableCode.size, r.infiniteLoops.size,
      r.missingReturns.size, r.nullDereferences.size, r.unusedVariables.length,
      r.uninitializedReads.size)) = some (1, 1, 1, 1, 1, 1) ∧
    (∃ r r' full, analyze {} root = .ok r ∧ analyze off root = .ok r' ∧
      analyze (Options.everything {}) root = .ok full ∧ r.SameFlow r' ∧ r.Selects {} full ∧
      r'.Selects off full ∧ observe {} (draftProgram {} root) = .ok r) := by
  intro off use body loop function unused unset root
  refine ⟨rfl, by decide +kernel, ?_⟩
  exact (analyses_detectors_independent {} off rfl root).1

end Arbor.Flow
