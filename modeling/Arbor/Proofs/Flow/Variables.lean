import Arbor.Proofs.Flow.Report
import Arbor.Proofs.Flow.Scoping

/-!
# What is known of variables

A use of a variable is noted in several places: by marks and logs of the variable, and by the lists
of the ledger. After every event of a walk these agree with one another. The names of a scope stand
for variables that were declared under that name in that scope, and the scopes around a scope were
opened before it.
-/

namespace Arbor

/-- The frames of a chain are among all frames. -/
lemma exists_of_mem_chainUpTo {α : Type} {frames : Array α} {parent : α → Option Nat} {f : α}
    {k i : Nat} (h : f ∈ chainUpTo frames parent k i) : ∃ j : Nat, frames[j]? = some f := by
  induction k generalizing i with
  | zero => simp [chainUpTo] at h
  | succ k ih =>
    rw [chainUpTo] at h
    cases hi : frames[i]? with
    | none => simp [hi] at h
    | some g =>
      simp only [hi, List.mem_cons] at h
      rcases h with rfl | h
      · exact ⟨i, hi⟩
      · cases hp : parent g with
        | none => simp [hp] at h
        | some p =>
          rw [hp] at h
          exact ih h

namespace Flow

/-! ### Variables -/

namespace Variable

/-- The marks of the variable agree with its logs, and if it is written it has a value. -/
structure Consistent (v : Variable) : Prop where
  read : v.read = true ↔ v.reads ≠ #[]
  written : v.written = true ↔ v.writes ≠ #[]
  initialized : v.written = true → v.initialized = true

/-- The variable after a read. -/
def afterRead (crossed : Bool) (span : Span) (v : Variable) : Variable :=
  { v with read := true, reads := v.reads.push span, captured := v.captured || crossed }

/-- The variable after a write. -/
def afterWrite (crossed : Bool) (span : Span) (v : Variable) : Variable :=
  { v with
    written := true, initialized := true, writes := v.writes.push span
    captured := v.captured || crossed }

variable {v : Variable}

lemma consistent_newVariable (scope : Nat) (name : String) (span : Span) (binding : Binding) :
    (Scopes.newVariable scope name span binding).Consistent := by
  cases binding <;>
    exact ⟨by simp [Scopes.newVariable], by simp [Scopes.newVariable], by simp [Scopes.newVariable]⟩

lemma Consistent.afterRead (h : v.Consistent) (crossed : Bool) (span : Span) :
    (v.afterRead crossed span).Consistent :=
  ⟨by simp [Variable.afterRead], h.written, h.initialized⟩

lemma Consistent.afterWrite (h : v.Consistent) (crossed : Bool) (span : Span) :
    (v.afterWrite crossed span).Consistent :=
  ⟨h.read, by simp [Variable.afterWrite], fun _ => rfl⟩

end Variable

/-! ### Scopes -/

namespace Scopes

variable {s : Scopes}

/-- The scopes with one of the variables changed. -/
def change (s : Scopes) (var : Nat) (f : Variable → Variable) : Scopes :=
  { s with vars := s.vars.modify var f }

lemma markRead_eq (s : Scopes) (r : Resolved) (span : Span) :
    s.markRead r span = s.change r.var (.afterRead r.crossedFunction span) := rfl

lemma markWritten_eq (s : Scopes) (r : Resolved) (span : Span) :
    s.markWritten r span = s.change r.var (.afterWrite r.crossedFunction span) := rfl

lemma change_var? (s : Scopes) (var i : Nat) (f : Variable → Variable) :
    (s.change var f).vars[i]? = if var = i then s.vars[i]?.map f else s.vars[i]? :=
  Array.getElem?_modify

lemma declare_of_lt {scope : Nat} (h : scope < s.scopes.size) (name : String) (span : Span)
    (binding : Binding) :
    s.declare scope name span binding =
      { scopes := s.scopes.modify scope fun f =>
          { f with names := f.names.insert name s.vars.size }
        vars := s.vars.push (newVariable scope name span binding) } :=
  if_pos h

lemma declare_of_not_lt {scope : Nat} (h : ¬scope < s.scopes.size) (name : String) (span : Span)
    (binding : Binding) : s.declare scope name span binding = s :=
  if_neg h

/-- Every name of a scope stands for a variable that was declared under it in that scope. -/
def Named (s : Scopes) : Prop :=
  ∀ (i : Nat) (f : Scope), s.scopes[i]? = some f → ∀ name var, (name, var) ∈ f.names.entries →
    ∃ v, s.vars[var]? = some v ∧ v.name = name ∧ v.scope = i

namespace Named

lemma empty : Named .empty := fun i f hf => by simp [Scopes.empty] at hf

lemma push (h : s.Named) (kind : ScopeKind) (parent : Option Nat) : (s.push kind parent).Named := by
  intro i f hf name var hentry
  rw [Scopes.push, Array.getElem?_push] at hf
  split_ifs at hf with hi
  · cases hf
    simp [EmptyCollection.emptyCollection, Table.empty] at hentry
  · exact h i f hf name var hentry

lemma declare (h : s.Named) (scope : Nat) (name : String) (span : Span) (binding : Binding) :
    (s.declare scope name span binding).Named := by
  by_cases hscope : scope < s.scopes.size
  swap
  · rwa [declare_of_not_lt hscope]
  rw [declare_of_lt hscope]
  intro i f hf other var hentry
  -- The variables from before keep their numbers.
  have hold {g : Scope} (hg : s.scopes[i]? = some g) (hmem : (other, var) ∈ g.names.entries) :
      ∃ v, (s.vars.push (newVariable scope name span binding))[var]? = some v ∧
        v.name = other ∧ v.scope = i := by
    obtain ⟨v, hv, hname⟩ := h i g hg other var hmem
    obtain ⟨hlt, -⟩ := Array.getElem?_eq_some_iff.1 hv
    exact ⟨v, by rw [Array.getElem?_push, if_neg (by omega), hv], hname⟩
  simp only [Array.getElem?_modify] at hf
  split_ifs at hf with hi
  · obtain ⟨g, hg, rfl⟩ := Option.map_eq_some_iff.1 hf
    rcases Table.mem_place hentry with hnew | hmem
    · cases hnew
      exact ⟨_, by rw [Array.getElem?_push, if_pos rfl], rfl, hi⟩
    · exact hold hg hmem
  · exact hold hf hentry

lemma change (h : s.Named) {f : Variable → Variable} (hname : ∀ v, (f v).name = v.name)
    (hscope : ∀ v, (f v).scope = v.scope) (var : Nat) : (s.change var f).Named := by
  intro i g hg name id hentry
  obtain ⟨v, hv, rfl, rfl⟩ := h i g hg name id hentry
  rw [change_var?]
  split_ifs
  · exact ⟨f v, by rw [hv, Option.map_some], hname v, hscope v⟩
  · exact ⟨v, hv, rfl, rfl⟩

/-- A name is resolved to a variable. -/
lemma var_of_resolve? (h : s.Named) {scope : Nat} {name : String} {r : Resolved}
    (hr : s.resolve? scope name = some r) : ∃ v, s.vars[r.var]? = some v := by
  have hlookup (crossed : Bool) (fs : List Scope) (hr : lookup? name crossed fs = some r) :
      ∃ f ∈ fs, f.names.get? name = some r.var := by
    induction fs generalizing crossed with
    | nil => simp [lookup?] at hr
    | cons f fs ih =>
      rw [lookup?] at hr
      cases hget : f.names.get? name with
      | some v =>
        rw [hget] at hr
        cases hr
        exact ⟨f, by simp, hget⟩
      | none =>
        rw [hget] at hr
        obtain ⟨g, hg, hname⟩ := ih _ hr
        exact ⟨g, by simp [hg], hname⟩
  obtain ⟨f, hf, hget⟩ := hlookup _ _ hr
  obtain ⟨i, hi⟩ := exists_of_mem_chainUpTo hf
  obtain ⟨v, hv, -⟩ := h i f hi name r.var (Table.mem_entries_iff.2 hget)
  exact ⟨v, hv⟩

end Named

/-- What is known of the variables and scopes fits together. -/
structure Consistent (s : Scopes) : Prop where
  vars : ∀ (i : Nat) (v : Variable), s.vars[i]? = some v → v.Consistent
  names : s.Named
  parents : ∀ (i : Nat) (f : Scope), s.scopes[i]? = some f → ∀ p ∈ f.parent, p < i

namespace Consistent

lemma empty : Consistent .empty :=
  ⟨fun i v hv => by simp [Scopes.empty] at hv, .empty, fun i f hf => by simp [Scopes.empty] at hf⟩

lemma push (h : s.Consistent) (kind : ScopeKind) {parent : Option Nat}
    (hparent : ∀ p ∈ parent, p < s.scopes.size) : (s.push kind parent).Consistent where
  vars := h.vars
  names := h.names.push kind parent
  parents i f hf := by
    rw [Scopes.push, Array.getElem?_push] at hf
    split_ifs at hf with hi
    · cases hf
      exact hi ▸ hparent
    · exact h.parents i f hf

lemma declare (h : s.Consistent) (scope : Nat) (name : String) (span : Span)
    (binding : Binding) : (s.declare scope name span binding).Consistent := by
  have hnames := h.names.declare scope name span binding
  by_cases hscope : scope < s.scopes.size
  swap
  · rwa [declare_of_not_lt hscope]
  rw [declare_of_lt hscope] at hnames ⊢
  refine ⟨fun i v hv => ?_, hnames, fun i f hf => ?_⟩
  · rw [Array.getElem?_push] at hv
    split_ifs at hv
    · cases hv
      exact Variable.consistent_newVariable scope name span binding
    · exact h.vars i v hv
  · simp only [Array.getElem?_modify] at hf
    split_ifs at hf
    · obtain ⟨g, hg, rfl⟩ := Option.map_eq_some_iff.1 hf
      exact h.parents i g hg
    · exact h.parents i f hf

lemma change (h : s.Consistent) {f : Variable → Variable} (hname : ∀ v, (f v).name = v.name)
    (hscope : ∀ v, (f v).scope = v.scope) (hf : ∀ v, v.Consistent → (f v).Consistent)
    (var : Nat) : (s.change var f).Consistent where
  vars i v hv := by
    rw [change_var?] at hv
    split_ifs at hv
    · obtain ⟨u, hu, rfl⟩ := Option.map_eq_some_iff.1 hv
      exact hf u (h.vars i u hu)
    · exact h.vars i v hv
  names := h.names.change hname hscope var
  parents := h.parents

lemma afterRead (h : s.Consistent) (var : Nat) (crossed : Bool) (span : Span) :
    (s.change var (.afterRead crossed span)).Consistent :=
  h.change (f := .afterRead crossed span) (fun _ => rfl) (fun _ => rfl)
    (fun _ hv => hv.afterRead crossed span) var

lemma afterWrite (h : s.Consistent) (var : Nat) (crossed : Bool) (span : Span) :
    (s.change var (.afterWrite crossed span)).Consistent :=
  h.change (f := .afterWrite crossed span) (fun _ => rfl) (fun _ => rfl)
    (fun _ hv => hv.afterWrite crossed span) var

end Consistent

/-! ### Counting reads -/

/-- The number of reads in the logs of some variables. -/
def readCount : List Variable → Nat
  | [] => 0
  | v :: vs => v.reads.size + readCount vs

lemma readCount_append (vs ws : List Variable) :
    readCount (vs ++ ws) = readCount vs + readCount ws := by
  induction vs with
  | nil => simp [readCount]
  | cons v vs ih => simp only [List.cons_append, readCount, ih, Nat.add_assoc]

/-- A change to one variable changes the count by as much as it changes the log of the variable. -/
lemma readCount_modify {vs : List Variable} {i : Nat} {v : Variable} (h : vs[i]? = some v)
    (f : Variable → Variable) :
    readCount (vs.modify i f) + v.reads.size = readCount vs + (f v).reads.size := by
  induction vs generalizing i with
  | nil => simp at h
  | cons u vs ih =>
    cases i with
    | zero =>
      obtain rfl : u = v := by simpa using h
      simp only [List.modify_zero_cons, readCount]
      omega
    | succ i =>
      have := ih (i := i) (by simpa using h)
      simp only [List.modify_succ_cons, readCount]
      omega

lemma readCount_change {i : Nat} {v : Variable} (h : s.vars[i]? = some v)
    (f : Variable → Variable) :
    readCount (s.change i f).vars.toList + v.reads.size =
      readCount s.vars.toList + (f v).reads.size := by
  rw [change, Array.toList_modify]
  exact readCount_modify (by simpa using h) f

end Scopes

/-! ### Ledgers -/

namespace Ledger

open Scopes

variable {l : Ledger} {scope : Nat} {name : Node} {r : Resolved}

lemma read_of_none (hr : l.scopes.resolve? scope name.text = none) : l.read scope name = l := by
  simp only [read, hr]

lemma read_of_some {v : Variable} (hr : l.scopes.resolve? scope name.text = some r)
    (hv : l.scopes.vars[r.var]? = some v) :
    l.read scope name =
      { l with
        scopes := l.scopes.change r.var (.afterRead r.crossedFunction name.span)
        reads := l.reads.push (.of name)
        captures := if r.crossedFunction then l.captures.push (.of name) else l.captures
        uninitialized :=
          if v.initialized then l.uninitialized else l.uninitialized.push (.of name) } := by
  simp only [read, hr, hv, markRead_eq]

lemma write_of_none (hr : l.scopes.resolve? scope name.text = none) :
    l.write scope name = { l with writes := l.writes.push (.of name) } := by
  simp only [write, hr]

lemma write_of_some (hr : l.scopes.resolve? scope name.text = some r) :
    l.write scope name =
      { l with
        scopes := l.scopes.change r.var (.afterWrite r.crossedFunction name.span)
        writes := l.writes.push (.of name)
        captures := if r.crossedFunction then l.captures.push (.of name) else l.captures } := by
  simp only [write, hr, markWritten_eq]

/-- A list to which an access may be added holds nothing else that is new. -/
lemma mem_of_mem_ite_push {c : Prop} [Decidable c] {accesses : Array Access} {a b : Access}
    (h : a ∈ if c then accesses.push b else accesses) : a ∈ accesses ∨ a = b := by
  split_ifs at h
  · exact Array.mem_push.1 h
  · exact .inl h

/-- What is noted of the uses of variables fits together. -/
structure Consistent (l : Ledger) : Prop where
  scopes : l.scopes.Consistent
  reads : l.reads.size = readCount l.scopes.vars.toList
  uninitialized : ∀ a ∈ l.uninitialized, a ∈ l.reads
  captures : ∀ a ∈ l.captures, a ∈ l.reads ∨ a ∈ l.writes

namespace Consistent

lemma empty : Consistent .empty where
  scopes := .empty
  reads := rfl
  uninitialized a ha := by simp [Ledger.empty] at ha
  captures a ha := by simp [Ledger.empty] at ha

lemma declare (h : l.Consistent) (scope : Nat) (name : Node) (binding : Binding) :
    (l.declare scope name binding).Consistent where
  scopes := h.scopes.declare scope name.text name.span binding
  reads := by
    rw [Ledger.declare]
    by_cases hscope : scope < l.scopes.scopes.size
    · simp only [declare_of_lt hscope, Array.toList_push, readCount_append, h.reads]
      simp [readCount, newVariable]
    · simp only [declare_of_not_lt hscope, h.reads]
  uninitialized := h.uninitialized
  captures a ha := by
    refine (h.captures a ha).imp_right fun hmem => ?_
    simp only [Ledger.declare]
    split_ifs
    · exact Array.mem_push_of_mem _ hmem
    · exact hmem

lemma read (h : l.Consistent) (scope : Nat) (name : Node) : (l.read scope name).Consistent := by
  cases hr : l.scopes.resolve? scope name.text with
  | none => rwa [read_of_none hr]
  | some r =>
    obtain ⟨v, hv⟩ := h.scopes.names.var_of_resolve? hr
    rw [read_of_some hr hv]
    refine ⟨h.scopes.afterRead r.var _ _, ?_, fun a ha => ?_, fun a ha => ?_⟩
    · have hcount := readCount_change hv (.afterRead r.crossedFunction name.span)
      simp only [Variable.afterRead, Array.size_push] at hcount
      dsimp only
      rw [Array.size_push, h.reads]
      omega
    · rw [Array.mem_push]
      dsimp only at ha
      split_ifs at ha
      · exact .inl (h.uninitialized a ha)
      · exact (Array.mem_push.1 ha).imp_left (h.uninitialized a)
    · rw [Array.mem_push]
      rcases mem_of_mem_ite_push ha with ha | rfl
      · exact (h.captures a ha).imp_left .inl
      · exact .inl (.inr rfl)

lemma write (h : l.Consistent) (scope : Nat) (name : Node) : (l.write scope name).Consistent := by
  cases hr : l.scopes.resolve? scope name.text with
  | none =>
    rw [write_of_none hr]
    exact ⟨h.scopes, h.reads, h.uninitialized,
      fun a ha => (h.captures a ha).imp_right (Array.mem_push_of_mem _)⟩
  | some r =>
    obtain ⟨v, hv⟩ := h.scopes.names.var_of_resolve? hr
    rw [write_of_some hr]
    refine ⟨h.scopes.afterWrite r.var _ _, ?_, h.uninitialized, fun a ha => ?_⟩
    · have hcount := readCount_change hv (.afterWrite r.crossedFunction name.span)
      simp only [Variable.afterWrite] at hcount
      dsimp only
      rw [h.reads]
      omega
    · rw [Array.mem_push]
      rcases mem_of_mem_ite_push ha with ha | rfl
      · exact (h.captures a ha).imp_right .inl
      · exact .inr (.inr rfl)

/-- An event that names open scopes keeps the ledger consistent. -/
theorem record (h : l.Consistent) {e : Event} (he : e.Scoped l.scopes.scopes.size) :
    (l.record e).Consistent := by
  cases e with
  | opened kind parent =>
    exact ⟨h.scopes.push kind he, h.reads, h.uninitialized, h.captures⟩
  | declared scope name binding => exact h.declare scope name binding
  | read scope name => exact h.read scope name
  | written scope name => exact h.write scope name
  | endless | nullish | finished => exact h

end Consistent

/-- The ledger counts the scopes that are opened. -/
lemma record_scopes_size (l : Ledger) (e : Event) :
    (l.record e).scopes.scopes.size = l.scopes.scopes.size + e.opens := by
  cases e with
  | opened kind parent => exact Array.size_push _
  | declared scope name binding =>
    simp only [record, declare, Scopes.declare]
    split_ifs
    · exact Array.size_modify
    · rfl
  | read scope name =>
    simp only [record, read]
    split
    · rfl
    · split <;> rfl
  | written scope name =>
    simp only [record, write]
    split <;> rfl
  | endless | nullish | finished => rfl

/-- A scoped trace is played back to a consistent ledger that has all its scopes. -/
theorem consistent_of_scoped {events : List Event} {k : Nat} (h : Scoped events k) :
    (ofTrace events.toArray).Consistent ∧ (ofTrace events.toArray).scopes.scopes.size = k := by
  simp only [ofTrace, List.foldl_toArray]
  induction h with
  | nil => exact ⟨.empty, rfl⟩
  | snoc _ he ih =>
    obtain ⟨hconsistent, hsize⟩ := ih
    rw [List.foldl_append, List.foldl_cons, List.foldl_nil]
    exact ⟨hconsistent.record (hsize.symm ▸ he), by rw [record_scopes_size, hsize]⟩

end Ledger

/-- What happened before some point of a scoped trace is a scoped trace. -/
lemma Scoped.of_prefix {events before : List Event} {k : Nat} (h : Scoped events k)
    (hbefore : before <+: events) : ∃ j, Scoped before j := by
  induction h with
  | nil =>
    obtain rfl := List.prefix_nil.1 hbefore
    exact ⟨0, .nil⟩
  | snoc hevents he ih =>
    rcases List.prefix_concat_iff.1 hbefore with rfl | hbefore
    · exact ⟨_, .snoc hevents he⟩
    · exact ih hbefore

/-! ### Analyses -/

/-- The lists of the report fit together, and its reads are as many as the variables log. -/
structure Report.Tallies (r : Report) (vars : List Variable) : Prop where
  reads : r.reads.size = Scopes.readCount vars
  uninitializedReads : ∀ a ∈ r.uninitializedReads, a ∈ r.reads
  captures : ∀ a ∈ r.captures, a ∈ r.reads ∨ a ∈ r.writes

lemma Ledger.Consistent.tallies {l : Ledger} {o : Options} {r : Report} (h : l.Consistent)
    (hr : r.ShowsUses o l) : r.Tallies l.scopes.vars.toList where
  reads := by rw [hr.reads, h.reads]
  uninitializedReads a ha := by
    rw [hr.uninitializedReads] at ha
    rw [hr.reads]
    split_ifs at ha
    · exact h.uninitialized a ha
    · simp at ha
  captures a ha := by
    rw [hr.captures] at ha
    rw [hr.reads, hr.writes]
    exact h.captures a ha

lemma Draft.Scoped.report_tallies {D : Draft} (h : D.Scoped) (hD : D.WellFormed) (o : Options) :
    (∀ before, before <+: D.trace.toList → (Ledger.ofTrace before.toArray).Consistent) ∧
    ∃ r, report o D = .ok r ∧ r.Tallies (Ledger.ofTrace D.trace).scopes.vars.toList := by
  have hpoint : ∀ before, before <+: D.trace.toList →
      (Ledger.ofTrace before.toArray).Consistent := by
    intro before hbefore
    obtain ⟨j, hj⟩ := Flow.Scoped.of_prefix h hbefore
    exact (Ledger.consistent_of_scoped hj).1
  obtain ⟨r, hr, hshows⟩ := hD.report_showsUses o
  exact ⟨hpoint, r, hr, (hpoint D.trace.toList (List.prefix_refl _)).tallies hshows⟩

/-- Whatever is analyzed, all that is noted of variables fits together at every point of the
analysis, and so do the lists of the report. -/
theorem analyses_variables_consistent (o : Options) (n : Node) :
    ((∀ before, before <+: (draftProgram o n).trace.toList →
        (Ledger.ofTrace before.toArray).Consistent) ∧
      ∃ r, analyze o n = .ok r ∧
        r.Tallies (Ledger.ofTrace (draftProgram o n).trace).scopes.vars.toList) ∧
    ((∀ before, before <+: (draftFunction o n).trace.toList →
        (Ledger.ofTrace before.toArray).Consistent) ∧
      ∃ r, analyzeFunction o n = .ok r ∧
        r.Tallies (Ledger.ofTrace (draftFunction o n).trace).scopes.vars.toList) :=
  ⟨(scoped_draftProgram o n).report_tallies (wellFormed_draftProgram o n) o,
    (scoped_draftFunction o n).report_tallies (wellFormed_draftFunction o n) o⟩

end Flow

end Arbor
