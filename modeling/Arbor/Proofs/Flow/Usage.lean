import Arbor.Proofs.Flow.Variables
import Mathlib.Data.List.Basic

/-!
# Uses of variables

What a walk does with variables can be read off its trace: it declares them, and it reads and writes
the variable that a name stands for at that moment. Which variables are read before they have a
value, and which are given a value that is never read, is a matter of this list of acts alone. The
marks that a ledger keeps for its variables find out the same.
-/

namespace Arbor.Flow

/-! ### Acts -/

/-- A declaration, which makes a new variable. -/
structure Declaration where
  var : Nat
  name : String
  binding : Binding
  deriving DecidableEq

/-- What is done with a variable. -/
inductive Act where
  | declared (d : Declaration)
  | read (var : Nat) (access : Access)
  | written (var : Nat)
  deriving DecidableEq

namespace Act

/-- The variable in question. -/
def var : Act → Nat
  | .declared d => d.var
  | .read v _ => v
  | .written v => v

/-- The declaration that the act is. -/
def declaration? : Act → Option Declaration
  | .declared d => some d
  | .read _ _ | .written _ => none

/-- The read that the act is. -/
def read? : Act → Option Access
  | .read _ access => some access
  | .declared _ | .written _ => none

/-- Whether the act reads the variable. -/
def reads (v : Nat) : Act → Bool
  | .read u _ => u == v
  | .declared _ | .written _ => false

end Act

/-- What the event does with a variable, given the scopes and variables there are. Variables are
numbered in the order of their declarations. -/
def Event.act? (s : Scopes) : Event → Option Act
  | .declared _ name binding => some (.declared ⟨s.vars.size, name.text, binding⟩)
  | .read scope name => (s.resolve? scope name.text).map fun r => .read r.var (.of name)
  | .written scope name => (s.resolve? scope name.text).map fun r => .written r.var
  | .opened _ _ | .endless _ | .nullish _ | .finished _ _ => none

/-- What events do with variables, after those in the ledger. -/
def actsFrom (l : Ledger) : List Event → List Act
  | [] => []
  | e :: events => (e.act? l.scopes).toList ++ actsFrom (l.record e) events

/-- What a trace does with variables. -/
def acts (trace : Array Event) : List Act := actsFrom .empty trace.toList

lemma actsFrom_concat (l : Ledger) (events : List Event) (e : Event) :
    actsFrom l (events ++ [e]) =
      actsFrom l events ++ (e.act? (events.foldl Ledger.record l).scopes).toList := by
  induction events generalizing l with
  | nil => simp [actsFrom]
  | cons first events ih => rw [List.cons_append, actsFrom, actsFrom, ih]; simp

/-! ### What acts show -/

/-- The declarations among some acts. -/
def declarations (acts : List Act) : List Declaration := acts.filterMap Act.declaration?

/-- The variable was declared without a value and has not been written. -/
def Unset (past : List Act) (v : Nat) : Prop :=
  (∃ d ∈ declarations past, d.var = v ∧ d.binding = .uninitialized) ∧ .written v ∉ past

instance (past : List Act) (v : Nat) : Decidable (Unset past v) :=
  inferInstanceAs (Decidable (_ ∧ _))

/-- The read that the act is, if its variable has no value yet. -/
def Act.unsetRead? (past : List Act) : Act → Option Access
  | .read v access => if Unset past v then some access else none
  | .declared _ | .written _ => none

/-- The reads of variables that had no value yet. -/
def unsetReads (acts : List Act) : List Access :=
  acts.zipIdx.filterMap fun a => a.1.unsetRead? (acts.take a.2)

/-- The declared variable is given a value, and it is never read. -/
def Unused (acts : List Act) (d : Declaration) : Prop :=
  d.binding ≠ .implicit ∧ (d.binding = .initialized ∨ .written d.var ∈ acts) ∧
    ∀ a ∈ acts, a.reads d.var = false

instance (acts : List Act) (d : Declaration) : Decidable (Unused acts d) :=
  inferInstanceAs (Decidable (_ ∧ _))

/-- The names of variables that are given a value and never read. -/
def unusedNames (acts : List Act) : List String :=
  ((declarations acts).filter fun d => decide (Unused acts d)).map (·.name)

lemma declarations_concat (acts : List Act) (a : Act) :
    declarations (acts ++ [a]) = declarations acts ++ a.declaration?.toList := by
  rw [declarations, List.filterMap_append]
  cases h : a.declaration? <;> simp [declarations, h]

lemma filterMap_read?_concat (acts : List Act) (a : Act) :
    (acts ++ [a]).filterMap Act.read? = acts.filterMap Act.read? ++ a.read?.toList := by
  rw [List.filterMap_append]
  cases h : a.read? <;> simp [h]

/-- The reads so far do not depend on what is done later. -/
lemma unsetReads_concat (acts : List Act) (a : Act) :
    unsetReads (acts ++ [a]) = unsetReads acts ++ (a.unsetRead? acts).toList := by
  have hold : (acts.zipIdx.filterMap fun b => b.1.unsetRead? ((acts ++ [a]).take b.2)) =
      unsetReads acts := by
    refine List.filterMap_congr fun b hb => ?_
    obtain ⟨b, i⟩ := b
    have hi : i < acts.length := by
      rw [List.mk_mem_zipIdx_iff_getElem?] at hb
      exact (List.getElem?_eq_some_iff.1 hb).1
    rw [List.take_append_of_le_length (Nat.le_of_lt hi)]
  rw [unsetReads, List.zipIdx_append, List.filterMap_append, hold]
  cases h : a.unsetRead? acts <;> simp [h]

/-- An act that reads nothing adds to none of the reads. -/
lemma reads_concat_of_not_read (acts : List Act) {a : Act} (h : a.read? = none) :
    (acts ++ [a]).filterMap Act.read? = acts.filterMap Act.read? ∧
      unsetReads (acts ++ [a]) = unsetReads acts := by
  rw [filterMap_read?_concat, unsetReads_concat]
  cases a with
  | read v access => simp [Act.read?] at h
  | declared | written => exact ⟨List.append_nil _, List.append_nil _⟩

/-! ### Marks of variables -/

/-- The variable has the marks that fit its declaration and what is done with it. -/
structure Variable.Tells (v : Variable) (acts : List Act) (d : Declaration) : Prop where
  name : v.name = d.name
  reportable : v.reportable = true ↔ d.binding ≠ .implicit
  initialized : v.initialized = true ↔ d.binding ≠ .uninitialized ∨ .written d.var ∈ acts
  written : v.written = true ↔ d.binding = .initialized ∨ .written d.var ∈ acts
  read : v.read = true ↔ ∃ a ∈ acts, a.reads d.var = true

namespace Variable.Tells

variable {v : Variable} {acts : List Act} {d : Declaration}

/-- An act on another variable makes no difference. -/
lemma other (h : v.Tells acts d) {a : Act} (ha : a.var ≠ d.var) : v.Tells (acts ++ [a]) d := by
  have hwritten : Act.written d.var ∈ acts ++ [a] ↔ Act.written d.var ∈ acts := by
    rw [List.mem_append, List.mem_singleton, or_iff_left]
    rintro rfl
    exact ha rfl
  have hreads : (∃ b ∈ acts ++ [a], b.reads d.var = true) ↔ ∃ b ∈ acts, b.reads d.var = true := by
    have hnot : a.reads d.var = false := by
      cases a with
      | read u access => simpa [Act.reads, Act.var] using ha
      | declared | written => rfl
    simp [or_and_right, exists_or, hnot]
  exact ⟨h.name, h.reportable, by rw [hwritten, h.initialized], by rw [hwritten, h.written],
    by rw [hreads, h.read]⟩

lemma afterRead (h : v.Tells acts d) (access : Access) (crossed : Bool) (span : Span) :
    (v.afterRead crossed span).Tells (acts ++ [.read d.var access]) d where
  name := h.name
  reportable := h.reportable
  initialized := by simpa [Variable.afterRead] using h.initialized
  written := by simpa [Variable.afterRead] using h.written
  read := by simp [Variable.afterRead, Act.reads]

lemma afterWrite (h : v.Tells acts d) (crossed : Bool) (span : Span) :
    (v.afterWrite crossed span).Tells (acts ++ [.written d.var]) d where
  name := h.name
  reportable := h.reportable
  initialized := by simp [Variable.afterWrite]
  written := by simp [Variable.afterWrite]
  read := by
    simpa [Variable.afterWrite, or_and_right, exists_or, Act.reads] using h.read

/-- Nothing is done with a variable before its declaration. -/
lemma newVariable {var : Nat} (hacts : ∀ a ∈ acts, a.var < var) (scope : Nat) (name : String)
    (span : Span) (binding : Binding) :
    (Scopes.newVariable scope name span binding).Tells
      (acts ++ [.declared ⟨var, name, binding⟩]) ⟨var, name, binding⟩ := by
  have hwritten : Act.written var ∉ acts := fun hmem => Nat.lt_irrefl _ (hacts _ hmem)
  have hread : ∀ a ∈ acts, a.reads var = false := by
    intro a ha
    cases a with
    | read u access => simpa [Act.reads, Act.var] using Nat.ne_of_lt (hacts _ ha)
    | declared | written => rfl
  refine ⟨rfl, ?_, ?_, ?_, ?_⟩
  · simp [Scopes.newVariable]
  · simp [Scopes.newVariable, hwritten]
  · simp [Scopes.newVariable, hwritten]
  · simp only [Scopes.newVariable, List.mem_append, List.mem_singleton]
    simp only [Bool.false_eq_true, false_iff, not_exists, not_and, Bool.not_eq_true]
    rintro a (ha | rfl)
    · exact hread a ha
    · rfl

/-- The variable counts as unused just in case its declaration does. -/
lemma unused_iff (h : v.Tells acts d) :
    (v.reportable && v.written && !v.read) = true ↔ Unused acts d := by
  have hread : v.read = false ↔ ∀ a ∈ acts, a.reads d.var = false := by
    rw [← Bool.not_eq_true, h.read]
    simp
  rw [Bool.and_eq_true, Bool.and_eq_true, h.reportable, h.written, Bool.not_eq_true', hread,
    and_assoc]
  rfl

end Variable.Tells

/-! ### Marks in a ledger -/

/-- Each variable has been declared and has the marks that fit what is done with it. -/
structure Scopes.Tells (s : Scopes) (acts : List Act) : Prop where
  named : s.Named
  size : (declarations acts).length = s.vars.size
  vars : ∀ (i : Nat) (d : Declaration), (declarations acts)[i]? = some d →
    d.var = i ∧ ∃ v, s.vars[i]? = some v ∧ v.Tells acts d
  bounded : ∀ a ∈ acts, a.var < s.vars.size

namespace Scopes.Tells

variable {s : Scopes} {acts : List Act}

lemma empty : Tells .empty [] :=
  ⟨.empty, rfl, fun i d hd => by simp [declarations] at hd, fun a ha => by simp at ha⟩

lemma push (h : s.Tells acts) (kind : ScopeKind) (parent : Option Nat) :
    (s.push kind parent).Tells acts :=
  ⟨h.named.push kind parent, h.size, h.vars, h.bounded⟩

lemma declare (h : s.Tells acts) {scope : Nat} (hscope : scope < s.scopes.size) (name : String)
    (span : Span) (binding : Binding) :
    (s.declare scope name span binding).Tells
      (acts ++ [.declared ⟨s.vars.size, name, binding⟩]) := by
  have hnamed := h.named.declare scope name span binding
  rw [declare_of_lt hscope] at hnamed ⊢
  refine ⟨hnamed, ?_, fun i d hd => ?_, fun a ha => ?_⟩
  · simp [declarations_concat, Act.declaration?, h.size]
  · rw [Array.getElem?_push]
    rw [declarations_concat, List.getElem?_append, h.size] at hd
    split_ifs at hd with hi
    · obtain ⟨hvar, v, hv, htells⟩ := h.vars i d hd
      rw [if_neg (Nat.ne_of_lt hi)]
      refine ⟨hvar, v, hv, htells.other ?_⟩
      exact fun heq => Nat.ne_of_lt hi (hvar.symm.trans heq.symm)
    · obtain ⟨hj, hd⟩ := List.getElem?_eq_some_iff.1 hd
      obtain rfl : i = s.vars.size := by
        simp only [Act.declaration?, Option.toList_some, List.length_singleton] at hj
        omega
      simp only [Act.declaration?, Option.toList_some, Nat.sub_self, List.getElem_cons_zero] at hd
      subst hd
      rw [if_pos rfl]
      exact ⟨rfl, _, rfl, .newVariable h.bounded scope name span binding⟩
  · rw [Array.size_push]
    rcases List.mem_append.1 ha with ha | ha
    · exact Nat.lt_succ_of_lt (h.bounded a ha)
    · rw [List.mem_singleton.1 ha]
      exact Nat.lt_succ_self _

/-- An act on a variable is noted at this variable only. -/
lemma change (h : s.Tells acts) {a : Act} {f : Variable → Variable}
    (hname : ∀ v, (f v).name = v.name) (hscope : ∀ v, (f v).scope = v.scope)
    (hnew : a.declaration? = none) (hvar : a.var < s.vars.size)
    (hf : ∀ v d, d.var = a.var → v.Tells acts d → (f v).Tells (acts ++ [a]) d) :
    (s.change a.var f).Tells (acts ++ [a]) := by
  have hdecl : declarations (acts ++ [a]) = declarations acts := by
    simp [declarations_concat, hnew]
  have hsize : (s.change a.var f).vars.size = s.vars.size := Array.size_modify
  refine ⟨h.named.change hname hscope a.var, ?_, fun i d hd => ?_, fun b hb => ?_⟩
  · rw [hdecl, hsize, h.size]
  · rw [hdecl] at hd
    obtain ⟨hi, v, hv, htells⟩ := h.vars i d hd
    rw [change_var?]
    split_ifs with heq
    · exact ⟨hi, f v, by rw [hv, Option.map_some], hf v d (hi.trans heq.symm) htells⟩
    · exact ⟨hi, v, hv, htells.other fun hvar => heq (hvar.trans hi)⟩
  · rw [hsize]
    rcases List.mem_append.1 hb with hb | hb
    · exact h.bounded b hb
    · rwa [List.mem_singleton.1 hb]

/-- The mark of a variable says whether it has a value. -/
lemma initialized_iff (h : s.Tells acts) {i : Nat} {v : Variable} (hv : s.vars[i]? = some v) :
    v.initialized = true ↔ ¬Unset acts i := by
  obtain ⟨hi, -⟩ := Array.getElem?_eq_some_iff.1 hv
  rw [← h.size] at hi
  have hd : (declarations acts)[i]? = some (declarations acts)[i] := List.getElem?_eq_getElem hi
  generalize (declarations acts)[i] = d at hd
  obtain ⟨hvar, v', hv', htells⟩ := h.vars i d hd
  obtain rfl : v = v' := Option.some.inj (hv.symm.trans hv')
  -- No other declaration has this number.
  have hunset : (∃ d ∈ declarations acts, d.var = i ∧ d.binding = .uninitialized) ↔
      d.binding = .uninitialized := by
    constructor
    · rintro ⟨d', hmem, hvar', hbinding⟩
      obtain ⟨j, hj⟩ := List.mem_iff_getElem?.1 hmem
      obtain rfl : j = i := (h.vars j d' hj).1.symm.trans hvar'
      obtain rfl : d' = d := Option.some.inj (hj.symm.trans hd)
      exact hbinding
    · exact fun hbinding => ⟨d, List.mem_of_getElem? hd, hvar, hbinding⟩
  rw [htells.initialized, hvar, Unset, hunset, not_and_or, not_not]

/-- The variables that count as unused are those whose declarations do. -/
lemma unused_eq (h : s.Tells acts) : s.unused = unusedNames acts := by
  have hsame : s.vars.toList.map (fun v => (v.name, v.reportable && v.written && !v.read)) =
      (declarations acts).map fun d => (d.name, decide (Unused acts d)) := by
    apply List.ext_getElem?
    intro i
    simp only [List.getElem?_map, Array.getElem?_toList]
    cases hd : (declarations acts)[i]? with
    | none =>
      rw [List.getElem?_eq_none_iff, h.size] at hd
      rw [Array.getElem?_eq_none hd]
      rfl
    | some d =>
      obtain ⟨-, v, hv, htells⟩ := h.vars i d hd
      rw [hv, Option.map_some, Option.map_some, htells.name,
        Bool.eq_iff_iff.2 (htells.unused_iff.trans decide_eq_true_iff.symm)]
  have hselect {α : Type} (xs : List α) (name : α → String) (p : α → Bool) :
      (xs.filter p).map name =
        ((xs.map fun x => (name x, p x)).filter (·.2)).map (·.1) := by
    simp [List.filter_map, Function.comp_def]
  rw [unused, unusedNames, hselect, hsame, ← hselect]

end Scopes.Tells

namespace Ledger

variable {l : Ledger} {acts : List Act}

/-- The ledger shows what has been done with variables. -/
structure Tells (l : Ledger) (acts : List Act) : Prop where
  scopes : l.scopes.Tells acts
  reads : l.reads.toList = acts.filterMap Act.read?
  uninitialized : l.uninitialized.toList = unsetReads acts

namespace Tells

lemma empty : Tells .empty [] := ⟨.empty, rfl, rfl⟩

lemma declare (h : l.Tells acts) {scope : Nat} (hscope : scope < l.scopes.scopes.size)
    (name : Node) (binding : Binding) :
    (l.declare scope name binding).Tells
      (acts ++ [.declared ⟨l.scopes.vars.size, name.text, binding⟩]) where
  scopes := h.scopes.declare hscope name.text name.span binding
  reads := h.reads.trans (reads_concat_of_not_read acts rfl).1.symm
  uninitialized := h.uninitialized.trans (reads_concat_of_not_read acts rfl).2.symm

lemma read (h : l.Tells acts) (scope : Nat) (name : Node) :
    (l.read scope name).Tells
      (acts ++ ((l.scopes.resolve? scope name.text).map fun r =>
        .read r.var (.of name)).toList) := by
  cases hr : l.scopes.resolve? scope name.text with
  | none => simpa [read_of_none hr] using h
  | some r =>
    obtain ⟨v, hv⟩ := h.scopes.named.var_of_resolve? hr
    obtain ⟨hlt, -⟩ := Array.getElem?_eq_some_iff.1 hv
    rw [read_of_some hr hv, Option.map_some, Option.toList_some]
    refine ⟨?_, ?_, ?_⟩
    · refine h.scopes.change (a := .read r.var (.of name)) (f := .afterRead _ _) (fun _ => rfl)
        (fun _ => rfl) rfl hlt ?_
      rintro u ⟨var, declared, binding⟩ rfl htells
      exact htells.afterRead _ _ _
    · rw [filterMap_read?_concat, ← h.reads]
      simp [Act.read?]
    · rw [unsetReads_concat, ← h.uninitialized, Act.unsetRead?]
      by_cases hunset : Unset acts r.var
      · have hinit : v.initialized ≠ true := fun hv' => (h.scopes.initialized_iff hv).1 hv' hunset
        simp [hunset, hinit]
      · simp [hunset, (h.scopes.initialized_iff hv).2 hunset]

lemma write (h : l.Tells acts) (scope : Nat) (name : Node) :
    (l.write scope name).Tells
      (acts ++ ((l.scopes.resolve? scope name.text).map fun r => .written r.var).toList) := by
  cases hr : l.scopes.resolve? scope name.text with
  | none =>
    rw [write_of_none hr, Option.map_none, Option.toList_none, List.append_nil]
    exact ⟨h.scopes, h.reads, h.uninitialized⟩
  | some r =>
    obtain ⟨v, hv⟩ := h.scopes.named.var_of_resolve? hr
    obtain ⟨hlt, -⟩ := Array.getElem?_eq_some_iff.1 hv
    rw [write_of_some hr, Option.map_some, Option.toList_some]
    obtain ⟨hreads, hunset⟩ := reads_concat_of_not_read acts (a := .written r.var) rfl
    refine ⟨?_, h.reads.trans hreads.symm, h.uninitialized.trans hunset.symm⟩
    refine h.scopes.change (a := .written r.var) (f := .afterWrite _ _) (fun _ => rfl)
      (fun _ => rfl) rfl hlt ?_
    rintro u ⟨var, declared, binding⟩ rfl htells
    exact htells.afterWrite _ _

/-- An event that names open scopes is noted as what it does with a variable. -/
theorem record (h : l.Tells acts) {e : Event} (he : e.Scoped l.scopes.scopes.size) :
    (l.record e).Tells (acts ++ (e.act? l.scopes).toList) := by
  cases e with
  | opened kind parent =>
    rw [Event.act?, Option.toList_none, List.append_nil]
    exact ⟨h.scopes.push kind parent, h.reads, h.uninitialized⟩
  | declared scope name binding => exact h.declare he name binding
  | read scope name => exact h.read scope name
  | written scope name => exact h.write scope name
  | endless | nullish | finished =>
    rw [Event.act?, Option.toList_none, List.append_nil]
    exact h

end Tells

/-- Playing a scoped trace back notes what the trace does with variables. -/
theorem tells_of_scoped {events : List Event} {k : Nat} (h : Scoped events k) :
    (ofTrace events.toArray).Tells (Flow.acts events.toArray) := by
  induction h with
  | nil => exact .empty
  | snoc hevents he ih =>
    have hsize := (consistent_of_scoped hevents).2
    simp only [Flow.acts, ofTrace, List.foldl_toArray] at ih hsize ⊢
    rw [actsFrom_concat, List.foldl_append]
    exact ih.record (hsize.symm ▸ he)

end Ledger

/-! ### Analyses -/

/-- The report shows the reads among the acts, of these the reads of variables without a value, and
the unused variables, the latter two if they are asked for. -/
structure Report.Tells (r : Report) (o : Options) (acts : List Act) : Prop where
  reads : r.reads.toList = acts.filterMap Act.read?
  uninitializedReads :
    r.uninitializedReads.toList = if o.uninitializedReads then unsetReads acts else []
  unusedVariables : r.unusedVariables = if o.unusedVariables then unusedNames acts else []

lemma Draft.Scoped.report_tells {D : Draft} (h : D.Scoped) (hD : D.WellFormed) (o : Options) :
    ∃ r, report o D = .ok r ∧ r.Tells o (acts D.trace) := by
  obtain ⟨r, hr, hshows⟩ := hD.report_showsUses o
  have htells := Ledger.tells_of_scoped h
  refine ⟨r, hr, by rw [hshows.reads, htells.reads], ?_, ?_⟩
  · rw [hshows.uninitializedReads]
    split_ifs
    · exact htells.uninitialized
    · rfl
  · rw [hshows.unusedVariables, htells.scopes.unused_eq]

/-- Whatever is analyzed, the variables that are reported as read without a value or as unused are
those that the acts of the walk show. -/
theorem analyses_usage_exact (o : Options) (n : Node) :
    (∃ r, analyze o n = .ok r ∧ r.Tells o (acts (draftProgram o n).trace)) ∧
    (∃ r, analyzeFunction o n = .ok r ∧ r.Tells o (acts (draftFunction o n).trace)) :=
  ⟨(scoped_draftProgram o n).report_tells (wellFormed_draftProgram o n) o,
    (scoped_draftFunction o n).report_tells (wellFormed_draftFunction o n) o⟩

end Arbor.Flow
