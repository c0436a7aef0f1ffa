import Arbor.Proofs.Flow.Variables
import Mathlib.Data.List.Induction
import Mathlib.Data.List.Nodup

/-!
# Captures

A name stands for the variable that was declared last under it, in the first scope from the place of
the name outward that declares it. Whether the way outward leaves a function is found out on the
way. So the uses of variables that are noted as captures are those of variables that belong to a
scope outside the innermost function around the use.
-/

namespace Arbor.Flow

/-! ### Logs of declarations -/

/-- The entry stands at the index, and nowhere behind it. -/
def LastAt {α : Type} (log : List α) (x : α) (v : Nat) : Prop :=
  log[v]? = some x ∧ ∀ u, v < u → log[u]? ≠ some x

namespace LastAt

variable {α : Type} {log : List α} {x y : α} {v : Nat}

lemma mem (h : LastAt log x v) : x ∈ log := List.mem_of_getElem? h.1

lemma lt (h : LastAt log x v) : v < log.length := (List.getElem?_eq_some_iff.1 h.1).1

lemma concat_self (log : List α) (x : α) : LastAt (log ++ [x]) x v ↔ v = log.length := by
  constructor
  · intro h
    by_contra hne
    have hlt := h.lt
    rw [List.length_append, List.length_singleton] at hlt
    exact h.2 log.length (by omega) List.getElem?_concat_length
  · rintro rfl
    refine ⟨List.getElem?_concat_length, fun u hu hx => ?_⟩
    have hlt := (List.getElem?_eq_some_iff.1 hx).1
    rw [List.length_append, List.length_singleton] at hlt
    omega

lemma concat_of_ne (hne : y ≠ x) : LastAt (log ++ [x]) y v ↔ LastAt log y v := by
  have hsame (u : Nat) : (log ++ [x])[u]? = some y ↔ log[u]? = some y := by
    rw [List.getElem?_append]
    split_ifs with hu
    · exact Iff.rfl
    · rw [List.getElem?_eq_none (Nat.not_lt.1 hu)]
      simp [List.getElem?_singleton, hne.symm]
  simp only [LastAt, ne_eq, hsame]

/-- Of the places of an entry one is the last. -/
lemma exists_of_mem (h : x ∈ log) : ∃ v, LastAt log x v := by
  induction log using List.reverseRecOn with
  | nil => cases h
  | append_singleton log y ih =>
    by_cases hxy : x = y
    · subst hxy
      exact ⟨log.length, (concat_self log x).2 rfl⟩
    · have hold : x ∈ log := by simpa [hxy] using h
      obtain ⟨v, hv⟩ := ih hold
      exact ⟨v, (concat_of_ne hxy).2 hv⟩

end LastAt

namespace Scopes

/-- The scopes come about by opening scopes inside others, by declaring variables and by noting uses
of variables. The log lists the declarations in their order, each by its scope and its name. A
declaration in a scope that is not there is lost. -/
inductive Made : Scopes → List (Nat × String) → Prop where
  | empty : Made .empty []
  | push {s : Scopes} {log : List (Nat × String)} {parent : Option Nat} (kind : ScopeKind) :
    Made s log → (∀ p ∈ parent, p < s.scopes.size) → Made (s.push kind parent) log
  | declare {s : Scopes} {log : List (Nat × String)} {scope : Nat} (name : String) (span : Span)
    (binding : Binding) : Made s log → scope < s.scopes.size →
    Made (s.declare scope name span binding) (log ++ [(scope, name)])
  | lost {s : Scopes} {log : List (Nat × String)} {scope : Nat} (name : String) (span : Span)
    (binding : Binding) : Made s log → s.scopes.size ≤ scope →
    Made (s.declare scope name span binding) log
  | read {s : Scopes} {log : List (Nat × String)} (r : Resolved) (span : Span) :
    Made s log → Made (s.markRead r span) log
  | written {s : Scopes} {log : List (Nat × String)} (r : Resolved) (span : Span) :
    Made s log → Made (s.markWritten r span) log

/-- The kind of a scope. -/
def kind? (s : Scopes) (i : Nat) : Option ScopeKind := s.scopes[i]?.map (·.kind)

/-- The numbers are those of the scope and of all scopes around it, from the inside outward. -/
inductive Chain (s : Scopes) : Nat → List Nat → Prop where
  | missing {i : Nat} : s.scopes[i]? = none → Chain s i []
  | outermost {i : Nat} {f : Scope} : s.scopes[i]? = some f → f.parent = none → Chain s i [i]
  | inside {i p : Nat} {f : Scope} {ids : List Nat} : s.scopes[i]? = some f → f.parent = some p →
    Chain s p ids → Chain s i (i :: ids)

/-- What a name stands for in the innermost of some scopes that declares it: the variable that was
declared last under this name in this scope. It is noted whether one of the scopes in front of this
scope is that of a function. -/
inductive Finds (s : Scopes) (log : List (Nat × String)) (name : String) (ids : List Nat) :
    Option Resolved → Prop where
  | nothing : (∀ j ∈ ids, (j, name) ∉ log) → Finds s log name ids none
  | found (inner : List Nat) (owner : Nat) (outer : List Nat) {r : Resolved} :
    ids = inner ++ owner :: outer → (∀ j ∈ inner, (j, name) ∉ log) →
    LastAt log (owner, name) r.var →
    (r.crossedFunction = true ↔ ∃ j ∈ inner, s.kind? j = some .function) →
    Finds s log name ids (some r)

/-- From every scope the way outward comes to an end, and every name stands for what is found on
this way. -/
def Resolves (s : Scopes) (log : List (Nat × String)) : Prop :=
  ∀ (i : Nat) (name : String), ∃ ids, s.Chain i ids ∧ s.Finds log name ids (s.resolve? i name)

/-! ### Scopes and their log -/

/-- The tables of the scopes list the last declarations of the log, and the variables are numbered
as the log is. -/
structure Logged (s : Scopes) (log : List (Nat × String)) : Prop where
  size : s.vars.size = log.length
  vars : ∀ (i : Nat) (v : Variable), s.vars[i]? = some v → log[i]? = some (v.scope, v.name)
  names : ∀ (i : Nat) (f : Scope), s.scopes[i]? = some f → ∀ name v,
    f.names.get? name = some v ↔ LastAt log (i, name) v
  opened : ∀ e ∈ log, e.1 < s.scopes.size
  parents : ∀ (i : Nat) (f : Scope), s.scopes[i]? = some f → ∀ p ∈ f.parent, p < i

namespace Logged

variable {s : Scopes} {log : List (Nat × String)}

lemma empty : Logged .empty [] where
  size := rfl
  vars i v hv := by simp [Scopes.empty] at hv
  names i f hf := by simp [Scopes.empty] at hf
  opened e he := by simp at he
  parents i f hf := by simp [Scopes.empty] at hf

lemma push (h : s.Logged log) (kind : ScopeKind) {parent : Option Nat}
    (hparent : ∀ p ∈ parent, p < s.scopes.size) : (s.push kind parent).Logged log where
  size := h.size
  vars := h.vars
  names i f hf name v := by
    rw [Scopes.push, Array.getElem?_push] at hf
    split_ifs at hf with hi
    · -- The new scope declares nothing.
      cases hf
      constructor
      · intro hv
        cases hv
      · intro hlast
        exact absurd (h.opened _ hlast.mem) (by simp [hi])
    · exact h.names i f hf name v
  opened e he := by
    rw [Scopes.push, Array.size_push]
    exact Nat.lt_succ_of_lt (h.opened e he)
  parents i f hf := by
    rw [Scopes.push, Array.getElem?_push] at hf
    split_ifs at hf with hi
    · cases hf
      exact hi ▸ hparent
    · exact h.parents i f hf

lemma declare (h : s.Logged log) {scope : Nat} (hscope : scope < s.scopes.size) (name : String)
    (span : Span) (binding : Binding) :
    (s.declare scope name span binding).Logged (log ++ [(scope, name)]) := by
  rw [declare_of_lt hscope]
  refine ⟨?_, fun i v hv => ?_, fun i f hf other v => ?_, fun e he => ?_, fun i f hf => ?_⟩
  · simp [h.size]
  · rw [Array.getElem?_push] at hv
    -- The new variable comes last, as it does in the log.
    split_ifs at hv with hi
    · cases hv
      rw [hi, h.size, List.getElem?_concat_length]
      rfl
    · have hold := h.vars i v hv
      rw [List.getElem?_append_left (List.getElem?_eq_some_iff.1 hold).1, hold]
  · simp only [Array.getElem?_modify] at hf
    split_ifs at hf with hi
    · obtain ⟨g, hg, rfl⟩ := Option.map_eq_some_iff.1 hf
      subst hi
      rw [Table.get?_insert]
      -- In its scope the new name hides an older one; all others are found as before.
      split_ifs with hname
      · rw [hname, LastAt.concat_self, h.size, Option.some.injEq, eq_comm]
      · rw [h.names scope g hg, LastAt.concat_of_ne (by simp [hname])]
    · rw [h.names i f hf, LastAt.concat_of_ne]
      intro heq
      exact hi (congrArg Prod.fst heq).symm
  · rw [Array.size_modify]
    rcases List.mem_append.1 he with he | he
    · exact h.opened e he
    · rw [List.mem_singleton.1 he]
      exact hscope
  · simp only [Array.getElem?_modify] at hf
    split_ifs at hf
    · obtain ⟨g, hg, rfl⟩ := Option.map_eq_some_iff.1 hf
      exact h.parents i g hg
    · exact h.parents i f hf

lemma change (h : s.Logged log) {f : Variable → Variable} (hname : ∀ v, (f v).name = v.name)
    (hscope : ∀ v, (f v).scope = v.scope) (var : Nat) : (s.change var f).Logged log where
  size := Array.size_modify.trans h.size
  vars i v hv := by
    rw [change_var?] at hv
    split_ifs at hv
    · obtain ⟨u, hu, rfl⟩ := Option.map_eq_some_iff.1 hv
      rw [hscope, hname]
      exact h.vars i u hu
    · exact h.vars i v hv
  names := h.names
  opened := h.opened
  parents := h.parents

end Logged

variable {s : Scopes} {log : List (Nat × String)} {i : Nat} {ids : List Nat} {name : String}

/-- Each step in the making of scopes keeps them as the log says. -/
theorem Made.logged (h : s.Made log) : s.Logged log := by
  induction h with
  | empty => exact .empty
  | push kind _ hparent ih => exact ih.push kind hparent
  | declare name span binding _ hscope ih => exact ih.declare hscope name span binding
  | lost name span binding _ hscope ih =>
    rw [declare_of_not_lt (Nat.not_lt.2 hscope)]
    exact ih
  | read r span _ ih =>
    rw [markRead_eq]
    exact ih.change (f := .afterRead _ _) (fun _ => rfl) (fun _ => rfl) r.var
  | written r span _ ih =>
    rw [markWritten_eq]
    exact ih.change (f := .afterWrite _ _) (fun _ => rfl) (fun _ => rfl) r.var

/-! ### Chains -/

/-- The way outward comes to an end, since the scopes around a scope were opened before it. -/
lemma Logged.exists_chain (h : s.Logged log) (i : Nat) : ∃ ids, s.Chain i ids := by
  induction i using Nat.strongRecOn with
  | ind i ih =>
    cases hf : s.scopes[i]? with
    | none => exact ⟨[], .missing hf⟩
    | some f =>
      cases hp : f.parent with
      | none => exact ⟨[i], .outermost hf hp⟩
      | some p =>
        obtain ⟨ids, hids⟩ := ih p (h.parents i f hf p hp)
        exact ⟨i :: ids, .inside hf hp hids⟩

lemma Chain.eq {ids' : List Nat} (h : s.Chain i ids) (h' : s.Chain i ids') : ids = ids' := by
  induction h generalizing ids' with
  | missing hf =>
    cases h' with
    | missing => rfl
    | outermost hf' | inside hf' => exact absurd (hf.symm.trans hf') (by simp)
  | outermost hf hp =>
    cases h' with
    | missing hf' => exact absurd (hf.symm.trans hf') (by simp)
    | outermost => rfl
    | inside hf' hp' =>
      obtain rfl := Option.some.inj (hf.symm.trans hf')
      exact absurd (hp.symm.trans hp') (by simp)
  | inside hf hp _ ih =>
    cases h' with
    | missing hf' => exact absurd (hf.symm.trans hf') (by simp)
    | outermost hf' hp' =>
      obtain rfl := Option.some.inj (hf.symm.trans hf')
      exact absurd (hp.symm.trans hp') (by simp)
    | inside hf' hp' hids' =>
      obtain rfl := Option.some.inj (hf.symm.trans hf')
      obtain rfl := Option.some.inj (hp.symm.trans hp')
      rw [ih hids']

/-- No scope of a chain lies inside a later one. -/
lemma Logged.le_of_mem_chain (h : s.Logged log) (hids : s.Chain i ids) : ∀ j ∈ ids, j ≤ i := by
  induction hids with
  | missing => simp
  | outermost => simp
  | inside hf hp _ ih =>
    intro j hj
    rcases List.mem_cons.1 hj with rfl | hj
    · exact Nat.le_refl _
    · exact Nat.le_trans (ih j hj) (Nat.le_of_lt (h.parents _ _ hf _ hp))

lemma Logged.nodup_chain (h : s.Logged log) (hids : s.Chain i ids) : ids.Nodup := by
  induction hids with
  | missing => exact List.nodup_nil
  | outermost => exact List.nodup_singleton _
  | inside hf hp hids ih =>
    refine List.nodup_cons.2 ⟨fun hmem => ?_, ih⟩
    have hle := h.le_of_mem_chain hids _ hmem
    exact Nat.not_lt.2 hle (h.parents _ _ hf _ hp)

/-! ### Resolution -/

/-- The variable as it is seen from inside a scope. -/
def leaving (kind : ScopeKind) (r : Resolved) : Resolved :=
  { r with crossedFunction := kind == .function || r.crossedFunction }

lemma lookup?_crossed (name : String) (crossed : Bool) (fs : List Scope) :
    lookup? name crossed fs =
      (lookup? name false fs).map fun r =>
        { r with crossedFunction := crossed || r.crossedFunction } := by
  induction fs generalizing crossed with
  | nil => rfl
  | cons f fs ih =>
    rw [lookup?, lookup?]
    cases f.names.get? name with
    | some v => simp
    | none =>
      dsimp only
      rw [ih, ih (false || f.kind == .function), Option.map_map]
      simp [Function.comp_def, Bool.or_assoc]

/-- A name stands for the variable in the scope itself, or else for what it stands for in the scope
around it. -/
lemma Logged.resolve?_eq (h : s.Logged log) {f : Scope} (hf : s.scopes[i]? = some f)
    (name : String) :
    s.resolve? i name =
      ((f.names.get? name).map fun v => (⟨v, false⟩ : Resolved)).or
        ((f.parent.bind (s.resolve? · name)).map (leaving f.kind)) := by
  have hdown : ∀ {i p : Nat} {f : Scope}, s.scopes[i]? = some f → f.parent = some p → p < i :=
    fun hf hp => h.parents _ _ hf _ hp
  rw [resolve?, chain_of_some hdown hf, lookup?]
  cases f.names.get? name with
  | some v => simp
  | none =>
    dsimp only
    rw [lookup?_crossed, Bool.false_or]
    cases f.parent with
    | none => rfl
    | some p => rfl

lemma Logged.not_mem_of_get? (h : s.Logged log) {f : Scope} (hf : s.scopes[i]? = some f)
    (hnone : f.names.get? name = none) : (i, name) ∉ log := by
  intro hmem
  obtain ⟨v, hv⟩ := LastAt.exists_of_mem hmem
  rw [(h.names i f hf name v).2 hv] at hnone
  cases hnone

lemma kind?_of_some {f : Scope} (hf : s.scopes[i]? = some f) : s.kind? i = some f.kind := by
  rw [kind?, hf, Option.map_some]

/-- What is found from the scope around is found from the scope itself, if this does not declare the
name. -/
lemma Finds.inward {f : Scope} {found : Option Resolved} (h : s.Finds log name ids found)
    (hf : s.scopes[i]? = some f) (hnot : (i, name) ∉ log) :
    s.Finds log name (i :: ids) (found.map (leaving f.kind)) := by
  have hinner {inner : List Nat} (hinner : ∀ j ∈ inner, (j, name) ∉ log) :
      ∀ j ∈ i :: inner, (j, name) ∉ log := by
    intro j hj
    rcases List.mem_cons.1 hj with rfl | hj
    · exact hnot
    · exact hinner j hj
  cases h with
  | nothing hnone => exact .nothing (hinner hnone)
  | found inner owner outer hids hnone hlast hcrossed =>
    refine .found (i :: inner) owner outer ?_ (hinner hnone) hlast ?_
    · rw [hids, List.cons_append]
    · simp only [leaving, Bool.or_eq_true, beq_iff_eq, hcrossed, List.mem_cons, exists_eq_or_imp,
        kind?_of_some hf, Option.some.injEq]

lemma Logged.finds (h : s.Logged log) (hids : s.Chain i ids) (name : String) :
    s.Finds log name ids (s.resolve? i name) := by
  have hown {i : Nat} {f : Scope} {v : Nat} (hf : s.scopes[i]? = some f)
      (hv : f.names.get? name = some v) (ids : List Nat) :
      s.Finds log name (i :: ids) (s.resolve? i name) := by
    rw [h.resolve?_eq hf, hv, Option.map_some, Option.some_or]
    exact .found [] i ids rfl (by simp) ((h.names i f hf name v).1 hv) (by simp)
  induction hids with
  | missing hf =>
    rw [resolve?, chain_of_none hf]
    exact .nothing (by simp)
  | @outermost i f hf hp =>
    cases hv : f.names.get? name with
    | some v => exact hown hf hv []
    | none =>
      have hnot := h.not_mem_of_get? hf hv
      rw [h.resolve?_eq hf, hv, hp]
      exact .nothing (by simpa using hnot)
  | @inside i p f ids hf hp _ ih =>
    cases hv : f.names.get? name with
    | some v => exact hown hf hv ids
    | none =>
      rw [h.resolve?_eq hf, hv, hp]
      exact ih.inward hf (h.not_mem_of_get? hf hv)

theorem Logged.resolves (h : s.Logged log) : s.Resolves log := by
  intro i name
  obtain ⟨ids, hids⟩ := h.exists_chain i
  exact ⟨ids, hids, h.finds hids name⟩

/-! ### Captured variables -/

/-- The scope lies strictly outside the innermost function around another scope. -/
def OutsideFunction (s : Scopes) (i owner : Nat) : Prop :=
  ∃ inner f outer, s.Chain i (inner ++ f :: outer) ∧ s.kind? f = some .function ∧
    (∀ j ∈ inner, s.kind? j ≠ some .function) ∧ owner ∈ outer

/-- In the scope the name stands for a variable that belongs to a scope strictly outside the
innermost function around. -/
def Captured (s : Scopes) (i : Nat) (name : String) : Prop :=
  ∃ r v, s.resolve? i name = some r ∧ s.vars[r.var]? = some v ∧ s.OutsideFunction i v.scope

/-- Where a scope stands in a list without duplicates, it stands only there. -/
lemma mem_left_of_nodup {inner outer inner' outer' : List Nat} {f owner : Nat}
    (hids : inner ++ f :: outer = inner' ++ owner :: outer')
    (hnodup : (inner ++ f :: outer).Nodup) (howner : owner ∈ outer) : f ∈ inner' := by
  have hne : f ≠ owner := by
    rintro rfl
    exact (List.nodup_cons.1 (List.nodup_append.1 hnodup).2.1).1 howner
  rcases List.append_eq_append_iff.1 hids with ⟨as, rfl, has⟩ | ⟨bs, rfl, hbs⟩
  · cases as with
    | nil => exact absurd (List.cons.inj has).1 hne
    | cons a as =>
      obtain ⟨rfl, -⟩ := List.cons.inj has
      simp
  · cases bs with
    | nil => exact absurd (List.cons.inj hbs).1.symm hne
    | cons b bs =>
      -- The owner would stand both in front of the function and behind it.
      obtain ⟨rfl, -⟩ := List.cons.inj hbs
      exact absurd rfl ((List.nodup_append.1 hnodup).2.2 owner (by simp) owner
        (List.mem_cons_of_mem _ howner))

theorem Logged.captured_iff (h : s.Logged log) :
    s.Captured i name ↔ ∃ r, s.resolve? i name = some r ∧ r.crossedFunction = true := by
  obtain ⟨ids, hids⟩ := h.exists_chain i
  have hfinds := h.finds hids name
  constructor
  · rintro ⟨r, v, hr, hv, inner, f, outer, hchain, hkind, -, howner⟩
    refine ⟨r, hr, ?_⟩
    rw [hr] at hfinds
    obtain rfl := hids.eq hchain
    cases hfinds with
    | found inner' owner outer' hsplit _ hlast hcrossed =>
      obtain ⟨rfl, -⟩ := Prod.mk.inj (Option.some.inj ((h.vars _ _ hv).symm.trans hlast.1))
      exact hcrossed.2 ⟨f, mem_left_of_nodup hsplit (h.nodup_chain hids) howner, hkind⟩
  · rintro ⟨r, hr, hcross⟩
    rw [hr] at hfinds
    cases hfinds with
    | found inner owner outer hsplit _ hlast hcrossed =>
      have hlt : r.var < s.vars.size := by
        rw [h.size]
        exact hlast.lt
      have hv : s.vars[r.var]? = some s.vars[r.var] := Array.getElem?_eq_getElem hlt
      obtain ⟨howner, -⟩ := Prod.mk.inj (Option.some.inj ((h.vars _ _ hv).symm.trans hlast.1))
      refine ⟨r, _, hr, hv, ?_⟩
      rw [howner]
      -- The innermost function stands at the first number of its kind.
      obtain ⟨j, hj, hkind⟩ := hcrossed.1 hcross
      have hfind : (inner.find? fun j => s.kind? j == some .function).isSome := by
        rw [List.find?_isSome]
        exact ⟨j, hj, by rw [hkind]; rfl⟩
      obtain ⟨f, hf⟩ := Option.isSome_iff_exists.1 hfind
      obtain ⟨hfun, as, bs, hinner, has⟩ := List.find?_eq_some_iff_append.1 hf
      refine ⟨as, f, bs ++ owner :: outer, ?_, by simpa using hfun, fun j hj => ?_, by simp⟩
      · rw [hsplit, hinner, List.append_assoc, List.cons_append] at hids
        exact hids
      · simpa using has j hj

end Scopes

/-! ### Analyses -/

/-- The name that the event looks up, and the scope in which it does. -/
def Event.lookup? : Event → Option (Nat × Node)
  | .read scope name | .written scope name => some (scope, name)
  | .opened .. | .declared .. | .endless _ | .nullish _ | .finished .. => none

/-- The scope and the name of the variable that the event declares. -/
def Event.declares? : Event → Option (Nat × String)
  | .declared scope name _ => some (scope, name.text)
  | .opened .. | .read .. | .written .. | .endless _ | .nullish _ | .finished .. => none

/-- The event adds its use to the captures if the variable that it uses belongs to a scope strictly
outside the innermost function around the use, and otherwise adds nothing to them. -/
structure Ledger.CapturesAt (l : Ledger) (e : Event) : Prop where
  captured : ∀ scope name, e.lookup? = some (scope, name) → l.scopes.Captured scope name.text →
    (l.record e).captures = l.captures.push (.of name)
  other : (∀ scope name, e.lookup? = some (scope, name) → ¬l.scopes.Captured scope name.text) →
    (l.record e).captures = l.captures

/-- The report has the captures of the ledger of the trace. At each event of the trace the scopes
have come about from the declarations before, and the event adds to the captures what it should. -/
structure Report.CapturesFrom (r : Report) (trace : Array Event) : Prop where
  captures : r.captures = (Ledger.ofTrace trace).captures
  events : ∀ before e after, trace.toList = before ++ e :: after →
    (Ledger.ofTrace before.toArray).scopes.Made (before.filterMap Event.declares?) ∧
    (Ledger.ofTrace before.toArray).CapturesAt e

namespace Ledger

variable {l : Ledger} {log : List (Nat × String)}

/-- An event that names open scopes is one more step in the making of the scopes. -/
lemma made_record (h : l.scopes.Made log) {e : Event} (he : e.Scoped l.scopes.scopes.size) :
    (l.record e).scopes.Made (log ++ e.declares?.toList) := by
  cases e with
  | opened kind parent =>
    rw [Event.declares?, Option.toList_none, List.append_nil]
    exact .push kind h he
  | declared scope name binding => exact .declare name.text name.span binding h he
  | read scope name =>
    rw [Event.declares?, Option.toList_none, List.append_nil]
    simp only [record, read]
    split
    · exact h
    · split
      · exact h
      · exact .read _ _ h
  | written scope name =>
    rw [Event.declares?, Option.toList_none, List.append_nil]
    simp only [record, write]
    split
    · exact h
    · exact .written _ _ h
  | endless | nullish | finished =>
    rw [Event.declares?, Option.toList_none, List.append_nil]
    exact h

theorem made_of_scoped {events : List Event} {k : Nat} (h : Scoped events k) :
    (ofTrace events.toArray).scopes.Made (events.filterMap Event.declares?) := by
  induction h with
  | nil => exact .empty
  | @snoc events k e hevents he ih =>
    have hsize := (consistent_of_scoped hevents).2
    simp only [ofTrace, List.foldl_toArray] at ih hsize ⊢
    rw [List.foldl_append, List.filterMap_append]
    have hlast : [e].filterMap Event.declares? = e.declares?.toList := by
      cases hd : e.declares? <;> simp [hd]
    rw [hlast]
    exact made_record ih (hsize.symm ▸ he)

/-- A name that is looked up is captured just in case the way to its variable leaves a function. -/
lemma captures_record (h : l.scopes.Named) {e : Event} {scope : Nat} {name : Node}
    (he : e.lookup? = some (scope, name)) :
    (l.record e).captures =
      if (l.scopes.resolve? scope name.text).any (·.crossedFunction) then l.captures.push (.of name)
      else l.captures := by
  cases e with
  | read =>
    cases he
    rw [record]
    cases hr : l.scopes.resolve? scope name.text with
    | none =>
      rw [read_of_none hr]
      rfl
    | some r =>
      obtain ⟨v, hv⟩ := h.var_of_resolve? hr
      rw [read_of_some hr hv]
      rfl
  | written =>
    cases he
    rw [record]
    cases hr : l.scopes.resolve? scope name.text with
    | none =>
      rw [write_of_none hr]
      rfl
    | some r =>
      rw [write_of_some hr]
      rfl
  | opened | declared | endless | nullish | finished => cases he

/-- An event that looks up no name adds nothing to the captures. -/
lemma captures_record_of_none {e : Event} (he : e.lookup? = none) (l : Ledger) :
    (l.record e).captures = l.captures := by
  cases e with
  | read | written => cases he
  | opened | declared | endless | nullish | finished => rfl

theorem capturesAt (h : l.scopes.Named) (hlog : l.scopes.Logged log) (e : Event) :
    l.CapturesAt e := by
  have hcrossed (scope : Nat) (name : Node) : l.scopes.Captured scope name.text ↔
      (l.scopes.resolve? scope name.text).any (·.crossedFunction) = true := by
    rw [hlog.captured_iff, Option.any_eq_true]
  constructor
  · intro scope name he hcaptured
    rw [captures_record h he, if_pos ((hcrossed scope name).1 hcaptured)]
  · intro hnot
    cases he : e.lookup? with
    | none => exact captures_record_of_none he l
    | some use =>
      obtain ⟨scope, name⟩ := use
      rw [captures_record h he, if_neg (mt (hcrossed scope name).2 (hnot scope name he))]

end Ledger

lemma Draft.Scoped.report_captures {D : Draft} (h : D.Scoped) (hD : D.WellFormed) (o : Options) :
    ∃ r, report o D = .ok r ∧ r.CapturesFrom D.trace := by
  obtain ⟨r, hr, hshows⟩ := hD.report_showsUses o
  refine ⟨r, hr, hshows.captures, fun before e after hsplit => ?_⟩
  obtain ⟨k, hk⟩ := Flow.Scoped.of_prefix h (hsplit ▸ List.prefix_append before (e :: after))
  have hmade := Ledger.made_of_scoped hk
  exact ⟨hmade, Ledger.capturesAt (Ledger.consistent_of_scoped hk).1.scopes.names hmade.logged e⟩

/-- However scopes come about, the way outward from each of them comes to an end, and a name stands
for the last variable under it in the first scope on this way that declares it, with a note of
whether a function is left in between. So, whatever is analyzed, the captures are the uses of
variables that belong to a scope strictly outside the innermost function around the use. -/
theorem captures_outside_function (s : Scopes) (log : List (Nat × String)) (o : Options)
    (n : Node) :
    (s.Made log → s.Resolves log) ∧
    (∃ r, analyze o n = .ok r ∧ r.CapturesFrom (draftProgram o n).trace) ∧
    (∃ r, analyzeFunction o n = .ok r ∧ r.CapturesFrom (draftFunction o n).trace) :=
  ⟨fun h => h.logged.resolves,
    (scoped_draftProgram o n).report_captures (wellFormed_draftProgram o n) o,
    (scoped_draftFunction o n).report_captures (wellFormed_draftFunction o n) o⟩

/-- A loop in a function in a program. Seen from the loop, the variable of the program that was
declared last lies outside the function, and that of the function does not. -/
theorem captures_outside_function_loop_in_function :
    let opened := ((Scopes.empty.push .program none).push .function (some 0)).push .loop (some 1)
    let s := ((opened.declare 0 "x" .zero .initialized).declare 1 "y" .zero .implicit).declare
      0 "x" .zero .uninitialized
    let log := [(0, "x"), (1, "y"), (0, "x")]
    s.Made log ∧ s.Resolves log ∧
      s.resolve? 2 "x" = some ⟨2, true⟩ ∧ s.resolve? 2 "y" = some ⟨1, false⟩ := by
  intro opened s log
  have hopened : opened.Made [] :=
    .push _ (.push _ (.push _ .empty (by simp)) (by simp [Scopes.push])) (by simp [Scopes.push])
  have hmade : s.Made log := by
    refine .declare _ _ _ (.declare _ _ _ (.declare _ _ _ hopened ?_) ?_) ?_
    all_goals decide
  exact ⟨hmade, (captures_outside_function s log {} (.root (.leaf "program" ""))).1 hmade,
    by decide, by decide⟩

end Arbor.Flow
