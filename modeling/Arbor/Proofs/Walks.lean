import Arbor.Proofs.Ancestors
import Arbor.Proofs.Height
import Arbor.Proofs.Shares

/-!
# Walks

A walk shows the nodes of a tree to a visitor, with their depths. What the visitor answers may
depend on all that it has seen before, and it decides what it is shown next. Whatever the visitor,
it sees the pre-order of the tree without what stands below the nodes where it answers that the
children are to be left out, and without what follows the node where it ends the walk. This and the
visitor's answers leave only one course for a walk to take.

A visitor that never leaves anything out sees the whole pre-order, so a walk with it is a fold over
the pre-order. From this the numbers that describe the shape of a tree are read off.
-/

namespace Arbor

universe u

variable {σ : Type u}

namespace Node

/-! ### Depths -/

mutual

/-- The nodes of a tree numbered from `k` on, in pre-order and with their depths, where that of the
root is `depth`. -/
def levelsFrom (k depth : Nat) : Tree → List (Node × Nat)
  | t@⟨_, _, _, children, _⟩ => (⟨k, t⟩, depth) :: levelsAll (k + 1) (depth + 1) children

/-- The nodes of several trees numbered from `k` on, in pre-order and with their depths. -/
def levelsAll (k depth : Nat) : List Tree → List (Node × Nat)
  | [] => []
  | t :: ts => levelsFrom k depth t ++ levelsAll (k + t.size) depth ts

end

/-- The node and the nodes below it in pre-order, with their depths below the node. -/
def levels (n : Node) : List (Node × Nat) :=
  levelsFrom n.number 0 n.tree

mutual

lemma map_fst_levelsFrom (k depth : Nat) (t : Tree) :
    (levelsFrom k depth t).map Prod.fst = preorderFrom k t := by
  match t with
  | ⟨kind, text, span, children, fields⟩ =>
    rw [levelsFrom, preorderFrom, List.map_cons, map_fst_levelsAll]

lemma map_fst_levelsAll (k depth : Nat) (ts : List Tree) :
    (levelsAll k depth ts).map Prod.fst = preorderAll k ts := by
  match ts with
  | [] => rfl
  | t :: ts =>
    rw [levelsAll, preorderAll, List.map_append, map_fst_levelsFrom, map_fst_levelsAll]

end

lemma map_fst_levels (n : Node) : n.levels.map Prod.fst = n.preorder :=
  map_fst_levelsFrom _ _ _

lemma levelsAll_eq (k depth : Nat) (ts : List Tree) :
    levelsAll k depth ts = (numbered k ts).flatMap fun c => levelsFrom c.number depth c.tree := by
  induction ts generalizing k with
  | nil => rfl
  | cons t ts ih => rw [levelsAll, numbered, List.flatMap_cons, ih]

lemma levelsFrom_eq (n : Node) (depth : Nat) : levelsFrom n.number depth n.tree =
    (n, depth) :: n.children.flatMap fun c => levelsFrom c.number (depth + 1) c.tree := by
  obtain ⟨k, kind, text, span, children, fields⟩ := n
  rw [levelsFrom, levelsAll_eq]
  rfl

/-- The node `m` stands `depth` steps below `n`. -/
def AtDepth (n m : Node) (depth : Nat) : Prop :=
  m = n ∧ depth = 0 ∨ ∃ as, Lineage n m as ∧ depth = as.length

lemma atDepth_of_mem_levelsFrom {n : Node} {depth : Nat} {e : Node × Nat}
    (h : e ∈ levelsFrom n.number depth n.tree) :
    ∃ steps, n.AtDepth e.1 steps ∧ e.2 = depth + steps := by
  rw [levelsFrom_eq] at h
  rcases List.mem_cons.1 h with rfl | h
  · exact ⟨0, .inl ⟨rfl, rfl⟩, rfl⟩
  · obtain ⟨c, hc, h⟩ := List.mem_flatMap.1 h
    obtain ⟨steps, hsteps, hdepth⟩ := atDepth_of_mem_levelsFrom h
    refine ⟨steps + 1, .inr ?_, by omega⟩
    rcases hsteps with ⟨heq, rfl⟩ | ⟨as, has, rfl⟩
    · exact ⟨[n], heq ▸ .parent hc, rfl⟩
    · exact ⟨as ++ [n], has.concat hc, by simp⟩
termination_by n.size
decreasing_by exact size_lt_of_mem_children hc

lemma atDepth_of_mem_levels {n : Node} {e : Node × Nat} (h : e ∈ n.levels) : n.AtDepth e.1 e.2 := by
  obtain ⟨steps, hsteps, hdepth⟩ := atDepth_of_mem_levelsFrom h
  rwa [hdepth, Nat.zero_add]

lemma pairwise_number_levels (n : Node) :
    n.levels.Pairwise fun e e' => e.1.number < e'.1.number := by
  have hpairs := n.pairwise_number_preorder
  rwa [← map_fst_levels, List.pairwise_map] at hpairs

lemma Inside.number_lt {m n : Node} (h : m.Inside n) : n.number < m.number := by
  obtain ⟨c, hc, hm⟩ := h
  have hchild := bounds_of_mem_numbered hc
  have hbelow := bounds_of_mem_preorder hm
  omega

end Node

open Node

/-! ### What a visitor sees -/

/-- A visit: what the visitor is shown and what it answers. -/
structure Sighting where
  node : Node
  depth : Nat
  answer : Visit

namespace Sighting

/-- What the visitor is shown. -/
def place (v : Sighting) : Node × Nat := (v.node, v.depth)

/-- The visit keeps a walk from the node: the children are left out above it, or the walk has ended
before it. -/
def LeavesOut (v : Sighting) (m : Node) : Prop :=
  v.answer = .skip ∧ m.Inside v.node ∨ v.answer = .stop ∧ v.node.number < m.number

variable {n m : Node} {depth : Nat}

@[simp] lemma leavesOut_descend : ¬ LeavesOut ⟨n, depth, .descend⟩ m := by simp [LeavesOut]

@[simp] lemma leavesOut_skip : LeavesOut ⟨n, depth, .skip⟩ m ↔ m.Inside n := by simp [LeavesOut]

@[simp] lemma leavesOut_stop : LeavesOut ⟨n, depth, .stop⟩ m ↔ n.number < m.number := by
  simp [LeavesOut]

lemma LeavesOut.number_lt {v : Sighting} {m : Node} (h : v.LeavesOut m) :
    v.node.number < m.number := by
  rcases h with ⟨-, hin⟩ | ⟨-, hlt⟩
  · exact hin.number_lt
  · exact hlt

end Sighting

/-- From the state `s` the visitor gives the answers of all visits, one after another, and its state
is `s'` in the end. -/
def Answers (visit : Node → Nat → σ → Visit × σ) : σ → List Sighting → σ → Prop
  | s, [], s' => s = s'
  | s, v :: log, s' =>
    (visit v.node v.depth s).1 = v.answer ∧ Answers visit (visit v.node v.depth s).2 log s'

open Classical in
/-- The visits `log` are those of a walk over some places, which takes the visitor from the state
`s` to the state `s'`: the answers are the visitor's, and it is shown the places that no visit
leaves out. -/
structure Logs (visit : Node → Nat → σ → Visit × σ) (places : List (Node × Nat)) (s : σ)
    (log : List Sighting) (s' : σ) : Prop where
  answers : Answers visit s log s'
  shown : log.map Sighting.place = places.filter fun e => ∀ v ∈ log, ¬ v.LeavesOut e.1

section Logs

variable {visit : Node → Nat → σ → Visit × σ} {places rest : List (Node × Nat)} {s s' s'' : σ}
  {log log' : List Sighting} {m : Node} {depth : Nat}

lemma logs_nil_iff : Logs visit [] s log s' ↔ log = [] ∧ s = s' := by
  constructor
  · rintro ⟨hanswers, hshown⟩
    obtain rfl := List.map_eq_nil_iff.1 hshown
    exact ⟨rfl, hanswers⟩
  · rintro ⟨rfl, rfl⟩
    exact ⟨rfl, rfl⟩

lemma Logs.place_mem (h : Logs visit places s log s') {v : Sighting} (hv : v ∈ log) :
    v.place ∈ places := by
  have hmem := List.mem_map_of_mem (f := Sighting.place) hv
  rw [h.shown] at hmem
  exact List.mem_of_mem_filter hmem

open Classical in
/-- The first place is always shown. What follows is a walk over the places that the first visit
does not leave out. -/
lemma logs_cons_iff (hafter : ∀ e ∈ places, m.number < e.1.number) :
    Logs visit ((m, depth) :: places) s log s' ↔
      ∃ log', log = ⟨m, depth, (visit m depth s).1⟩ :: log' ∧
        Logs visit (places.filter fun e => ¬ Sighting.LeavesOut ⟨m, depth, (visit m depth s).1⟩ e.1)
          (visit m depth s).2 log' s' := by
  -- No visit of a place at or after the first one leaves the first one out.
  have hfirst {log : List Sighting} (hlog : ∀ v ∈ log, v.place ∈ (m, depth) :: places) :
      ∀ v ∈ log, ¬ v.LeavesOut m := by
    intro v hv hout
    have hlt := hout.number_lt
    rcases List.mem_cons.1 (hlog v hv) with heq | hmem
    · obtain rfl : v.node = m := congrArg Prod.fst heq
      omega
    · have hle : m.number < v.node.number := hafter _ hmem
      omega
  have hsplit (v : Sighting) (log : List Sighting) :
      (places.filter fun e => ∀ w ∈ v :: log, ¬ w.LeavesOut e.1) =
        (places.filter fun e => ¬ v.LeavesOut e.1).filter
          fun e => ∀ w ∈ log, ¬ w.LeavesOut e.1 := by
    rw [List.filter_filter]
    refine List.filter_congr fun e _ => ?_
    simp [Bool.and_comm]
  constructor
  · intro h
    have hshown := h.shown
    rw [List.filter_cons, if_pos (decide_eq_true (hfirst fun v => h.place_mem))] at hshown
    obtain ⟨⟨m', depth', answer⟩, log', rfl, hplace, hrest⟩ := List.map_eq_cons_iff.1 hshown
    obtain ⟨hanswer, hanswers⟩ := h.answers
    simp only [Sighting.place, Prod.mk.injEq] at hplace
    obtain ⟨rfl, rfl⟩ := hplace
    dsimp only at hanswer
    subst hanswer
    rw [hsplit] at hrest
    exact ⟨log', rfl, hanswers, hrest⟩
  · rintro ⟨log', rfl, h⟩
    refine ⟨⟨rfl, h.answers⟩, ?_⟩
    rw [List.filter_cons, if_pos, hsplit, List.map_cons, h.shown]
    · rfl
    · refine decide_eq_true (hfirst fun v hv => ?_)
      rcases List.mem_cons.1 hv with rfl | hv
      · exact List.mem_cons_self
      · exact List.mem_cons_of_mem _ (List.mem_of_mem_filter (h.place_mem hv))

/-! A node is followed by what stands below it and then by places with larger numbers. -/

section Place

variable {below : List (Node × Nat)} (hbelow : ∀ e ∈ below, e.1.Inside m)
  (hrest : ∀ e ∈ rest, m.number + m.size ≤ e.1.number)

include hbelow hrest

lemma number_lt_of_mem_append : ∀ e ∈ below ++ rest, m.number < e.1.number := by
  intro e he
  rcases List.mem_append.1 he with he | he
  · exact (hbelow e he).number_lt
  · have hpos : 0 < m.size := m.tree.size_pos
    have hle := hrest e he
    omega

/-- The visitor ends the walk. -/
lemma logs_of_stop (hvisit : visit m depth s = (.stop, s')) :
    Logs visit ((m, depth) :: (below ++ rest)) s [⟨m, depth, .stop⟩] s' := by
  have hafter := number_lt_of_mem_append hbelow hrest
  rw [logs_cons_iff hafter, hvisit]
  refine ⟨[], rfl, ?_⟩
  rw [List.filter_eq_nil_iff.2, logs_nil_iff]
  · exact ⟨rfl, rfl⟩
  · intro e he
    simpa using hafter e he

/-- The visitor leaves the children out. -/
lemma logs_of_skip (hvisit : visit m depth s = (.skip, s')) (h : Logs visit rest s' log s'') :
    Logs visit ((m, depth) :: (below ++ rest)) s (⟨m, depth, .skip⟩ :: log) s'' := by
  rw [logs_cons_iff (number_lt_of_mem_append hbelow hrest), hvisit]
  refine ⟨log, rfl, ?_⟩
  rw [List.filter_append, List.filter_eq_nil_iff.2, List.filter_eq_self.2]
  · exact h
  · intro e he
    have hout : ¬ e.1.Inside m := by
      intro hin
      have hbounds := bounds_of_mem_preorder hin.mem_preorder
      have hpos : 0 < e.1.size := e.1.tree.size_pos
      have hle := hrest e he
      omega
    simpa using hout
  · intro e he
    simpa using hbelow e he

/-- The visitor goes on with the children. -/
lemma logs_of_descend (hvisit : visit m depth s = (.descend, s'))
    (h : Logs visit (below ++ rest) s' log s'') :
    Logs visit ((m, depth) :: (below ++ rest)) s (⟨m, depth, .descend⟩ :: log) s'' := by
  rw [logs_cons_iff (number_lt_of_mem_append hbelow hrest), hvisit]
  refine ⟨log, rfl, ?_⟩
  rw [List.filter_eq_self.2]
  · exact h
  · simp

end Place

/-- What a visitor sees of places in order is determined by its first state. -/
lemma Logs.unique {places : List (Node × Nat)} {s s' s'' : σ} {log log' : List Sighting}
    (hplaces : places.Pairwise fun e e' => e.1.number < e'.1.number)
    (h : Logs visit places s log s') (h' : Logs visit places s log' s'') :
    log = log' ∧ s' = s'' := by
  match places with
  | [] =>
    obtain ⟨rfl, rfl⟩ := logs_nil_iff.1 h
    obtain ⟨rfl, rfl⟩ := logs_nil_iff.1 h'
    exact ⟨rfl, rfl⟩
  | (m, depth) :: places =>
    obtain ⟨hafter, hplaces⟩ := List.pairwise_cons.1 hplaces
    obtain ⟨log, rfl, hrest⟩ := (logs_cons_iff hafter).1 h
    obtain ⟨log', rfl, hrest'⟩ := (logs_cons_iff hafter).1 h'
    obtain ⟨rfl, rfl⟩ := Logs.unique (hplaces.filter _) hrest hrest'
    exact ⟨rfl, rfl⟩
termination_by places.length
decreasing_by
  exact Nat.lt_succ_of_le (List.length_filter_le ..)

end Logs

/-! ### The walk -/

/-- The visitor that also writes down what it is shown and what it answers. -/
def recording (visit : Node → Nat → σ → Visit × σ) (m : Node) (depth : Nat)
    (r : σ × List Sighting) : Visit × σ × List Sighting :=
  ((visit m depth r.1).1, (visit m depth r.1).2, r.2 ++ [⟨m, depth, (visit m depth r.1).1⟩])

/-- A walk over the first of some places has led from the state `s` to the outcome `r`, and has made
the visits `log`. Behind the places, whose numbers are less than `next`, it goes on or it has ended.
-/
structure Begins (visit : Node → Nat → σ → Visit × σ) (places : List (Node × Nat)) (next : Nat)
    (s : σ) (r : Bool × σ) (log : List Sighting) : Prop where
  goesOn : r.1 = true → ∀ rest, (∀ e ∈ rest, next ≤ e.1.number) →
    ∀ log' s', Logs visit rest r.2 log' s' → Logs visit (places ++ rest) s (log ++ log') s'
  ends : r.1 = false → ∀ rest, (∀ e ∈ rest, next ≤ e.1.number) →
    Logs visit (places ++ rest) s log r.2

section Begins

variable {visit : Node → Nat → σ → Visit × σ} {places more : List (Node × Nat)} {next next' : Nat}
  {s : σ} {r r' : Bool × σ} {log log' : List Sighting}

lemma Begins.nil (next : Nat) (s : σ) : Begins visit [] next s (true, s) [] :=
  ⟨fun _ _ _ _ _ h => h, nofun⟩

/-- The walk goes on with further places. -/
lemma Begins.append (h : Begins visit places next s r log) (hgo : r.1 = true)
    (h' : Begins visit more next' r.2 r' log') (hmore : ∀ e ∈ more, next ≤ e.1.number)
    (hnext : next ≤ next') : Begins visit (places ++ more) next' s r' (log ++ log') := by
  have hafter {rest : List (Node × Nat)} (hrest : ∀ e ∈ rest, next' ≤ e.1.number) :
      ∀ e ∈ more ++ rest, next ≤ e.1.number := by
    intro e he
    rcases List.mem_append.1 he with he | he
    · exact hmore e he
    · exact Nat.le_trans hnext (hrest e he)
  refine ⟨fun hgo' rest hrest log'' s'' hlogs => ?_, fun hend rest hrest => ?_⟩
  · rw [List.append_assoc, List.append_assoc]
    exact h.goesOn hgo _ (hafter hrest) _ _ (h'.goesOn hgo' rest hrest log'' s'' hlogs)
  · rw [List.append_assoc]
    exact h.goesOn hgo _ (hafter hrest) _ _ (h'.ends hend rest hrest)

/-- The walk has ended, whatever places follow. -/
lemma Begins.stop (h : Begins visit places next s r log) (hend : r.1 = false)
    (hmore : ∀ e ∈ more, next ≤ e.1.number) (hnext : next ≤ next') :
    Begins visit (places ++ more) next' s r log := by
  refine ⟨fun hgo => by simp [hgo] at hend, fun _ rest hrest => ?_⟩
  rw [List.append_assoc]
  refine h.ends hend _ fun e he => ?_
  rcases List.mem_append.1 he with he | he
  · exact hmore e he
  · exact Nat.le_trans hnext (hrest e he)

end Begins

section Walk

variable (visit : Node → Nat → σ → Visit × σ)

lemma le_number_of_mem_levelsAll {k depth : Nat} {ts : List Tree} {e : Node × Nat}
    (h : e ∈ levelsAll k depth ts) : k ≤ e.1.number := by
  have hmem := List.mem_map_of_mem (f := Prod.fst) h
  rw [map_fst_levelsAll, preorderAll_eq] at hmem
  obtain ⟨c, hc, hmem⟩ := List.mem_flatMap.1 hmem
  exact Nat.le_trans (bounds_of_mem_numbered hc).1 (bounds_of_mem_preorder hmem).1

lemma inside_of_mem_levelsAll {k depth : Nat} {t : Tree} {e : Node × Nat}
    (h : e ∈ levelsAll (k + 1) depth t.children) : e.1.Inside ⟨k, t⟩ := by
  have hmem := List.mem_map_of_mem (f := Prod.fst) h
  rw [map_fst_levelsAll, preorderAll_eq] at hmem
  exact List.mem_flatMap.1 hmem

mutual

/-- A walk over a tree makes the visits that a walk over its places begins with. -/
lemma walkFrom_recording (k depth : Nat) (t : Tree) (s : σ) (past : List Sighting) :
    ∃ log, walkFrom (recording visit) k depth t (s, past) =
        ((walkFrom visit k depth t s).1, (walkFrom visit k depth t s).2, past ++ log) ∧
      Begins visit (levelsFrom k depth t) (k + t.size) s (walkFrom visit k depth t s) log := by
  match t with
  | ⟨kind, text, span, children, fields⟩ =>
    set n : Node := ⟨k, kind, text, span, children, fields⟩ with hn
    have hbelow : ∀ e ∈ levelsAll (k + 1) (depth + 1) children, e.1.Inside n :=
      fun e he => inside_of_mem_levelsAll he
    rw [walkFrom, walkFrom, levelsFrom, ← hn, recording]
    cases hvisit : visit n depth s with
    | mk answer s' =>
      cases answer with
      | stop =>
        refine ⟨[⟨n, depth, .stop⟩], rfl, nofun, fun _ rest hrest => ?_⟩
        exact logs_of_stop hbelow hrest hvisit
      | skip =>
        refine ⟨[⟨n, depth, .skip⟩], rfl, fun _ rest hrest log s'' hlogs => ?_, nofun⟩
        exact logs_of_skip hbelow hrest hvisit hlogs
      | descend =>
        obtain ⟨log, hwalk, hbegins⟩ := walkAll_recording (k + 1) (depth + 1) children s'
          (past ++ [⟨n, depth, .descend⟩])
        have hnext :
            k + 1 + Tree.sizeAll children = k + (Tree.mk kind text span children fields).size := by
          rw [Tree.size]
          omega
        rw [hnext] at hbegins
        refine ⟨⟨n, depth, .descend⟩ :: log, ?_, fun hgo rest hrest log' s'' hlogs => ?_,
          fun hend rest hrest => ?_⟩
        · rw [List.append_assoc] at hwalk
          exact hwalk
        · exact logs_of_descend hbelow hrest hvisit (hbegins.goesOn hgo rest hrest log' s'' hlogs)
        · exact logs_of_descend hbelow hrest hvisit (hbegins.ends hend rest hrest)

lemma walkAll_recording (k depth : Nat) (ts : List Tree) (s : σ) (past : List Sighting) :
    ∃ log, walkAll (recording visit) k depth ts (s, past) =
        ((walkAll visit k depth ts s).1, (walkAll visit k depth ts s).2, past ++ log) ∧
      Begins visit (levelsAll k depth ts) (k + Tree.sizeAll ts) s (walkAll visit k depth ts s)
        log := by
  match ts with
  | [] => exact ⟨[], by simp [walkAll], .nil _ _⟩
  | t :: ts =>
    obtain ⟨log, hwalk, hbegins⟩ := walkFrom_recording k depth t s past
    have hmore : ∀ e ∈ levelsAll (k + t.size) depth ts, k + t.size ≤ e.1.number :=
      fun e => le_number_of_mem_levelsAll
    rw [walkAll, walkAll, levelsAll, Tree.sizeAll, hwalk]
    generalize walkFrom visit k depth t s = r at hbegins ⊢
    obtain ⟨_ | _, s'⟩ := r
    · exact ⟨log, rfl, hbegins.stop rfl hmore (by omega)⟩
    · obtain ⟨log', hwalk', hbegins'⟩ := walkAll_recording (k + t.size) depth ts s' (past ++ log)
      refine ⟨log ++ log', ?_, ?_⟩
      · rw [← List.append_assoc]
        exact hwalk'
      · rw [← Nat.add_assoc]
        exact hbegins.append rfl hbegins' hmore (by omega)

end

end Walk

namespace Node

variable {visit : Node → Nat → σ → Visit × σ} {s s' : σ} {log : List Sighting}

/-- What a walk leaves of the visitor's state, and the visits that it makes. -/
def record (n : Node) (visit : Node → Nat → σ → Visit × σ) (s : σ) : σ × List Sighting :=
  n.traverse (recording visit) (s, [])

lemma record_spec (n : Node) (visit : Node → Nat → σ → Visit × σ) (s : σ) :
    (n.record visit s).1 = n.traverse visit s ∧
      Logs visit n.levels s (n.record visit s).2 (n.traverse visit s) := by
  obtain ⟨log, hwalk, hbegins⟩ := walkFrom_recording visit n.number 0 n.tree s []
  rw [record, traverse, traverse, hwalk]
  refine ⟨rfl, ?_⟩
  cases hgo : (walkFrom visit n.number 0 n.tree s).1 with
  | false => simpa [levels] using hbegins.ends hgo [] nofun
  | true => simpa [levels] using hbegins.goesOn hgo [] nofun [] _ (logs_nil_iff.2 ⟨rfl, rfl⟩)

/-- A walk makes the visits that there can be over the pre-order. -/
lemma record_eq_iff {n : Node} : n.record visit s = (s', log) ↔ Logs visit n.levels s log s' := by
  obtain ⟨hstate, hlogs⟩ := n.record_spec visit s
  constructor
  · intro h
    rw [h] at hstate hlogs
    obtain rfl : s' = n.traverse visit s := hstate
    exact hlogs
  · intro h
    obtain ⟨hlog, hstate'⟩ := hlogs.unique n.pairwise_number_levels h
    exact Prod.ext (hstate.trans hstate') hlog

/-- A visitor that goes on with all children sees every place. -/
lemma foldl_of_logs {f : Node → Nat → σ → σ} {places : List (Node × Nat)}
    (hplaces : places.Pairwise fun e e' => e.1.number < e'.1.number)
    (h : Logs (fun m depth s => (.descend, f m depth s)) places s log s') :
    s' = places.foldl (fun s e => f e.1 e.2 s) s := by
  induction places generalizing s log with
  | nil => exact (logs_nil_iff.1 h).2.symm
  | cons e places ih =>
    obtain ⟨hafter, hplaces⟩ := List.pairwise_cons.1 hplaces
    obtain ⟨log', -, hrest⟩ := (logs_cons_iff hafter).1 h
    rw [List.filter_eq_self.2 (by simp)] at hrest
    exact ih hplaces hrest

lemma traverse_descend (n : Node) (f : Node → Nat → σ → σ) (s : σ) :
    n.traverse (fun m depth s => (.descend, f m depth s)) s =
      n.levels.foldl (fun s e => f e.1 e.2 s) s :=
  foldl_of_logs n.pairwise_number_levels (n.record_spec _ s).2

/-! ### The nodes of a kind and the nodes below -/

lemma ofKind_eq_filter (n : Node) (kind : String) :
    n.ofKind kind = n.preorder.filter (·.kind = kind) := by
  have hwalk := n.traverse_descend
    (fun m _ (found : Array Node) => if m.kind = kind then found.push m else found) #[]
  have hfilter : n.levels.foldl (fun found e => if e.1.kind = kind then found.push e.1 else found)
      #[] = (n.levels.filter (·.1.kind = kind)).foldl (fun found e => found.push e.1) #[] := by
    simp only [List.foldl_filter, decide_eq_true_eq]
  rw [ofKind, hwalk, hfilter, List.foldl_push_eq_append, ← map_fst_levels, List.filter_map]
  simp [Function.comp_def]

lemma descendants_eq_tail (n : Node) : n.descendants = n.preorder.tail := by
  rw [preorder_eq, List.tail_cons, descendants]
  refine List.flatMap_congr fun c _ => ?_
  rw [c.traverse_descend (fun m _ (found : Array Node) => found.push m), ← map_fst_levels]
  simp

lemma mem_descendants {m n : Node} : m ∈ n.descendants ↔ m.Inside n := by
  rw [descendants_eq_tail, preorder_eq, List.tail_cons, List.mem_flatMap]
  rfl

end Node

/-! ### The shape of a tree -/

namespace Table

/-- The sum of the values. -/
def total (t : Table Nat) : Nat := t.entries.foldr (fun e rest => e.2 + rest) 0

/-- A new value takes the place of the one that was bound before, if there was one. -/
lemma total_insert (t : Table Nat) (name : String) (value : Nat) :
    (t.insert name value).total + (t.get? name).getD 0 = t.total + value := by
  obtain ⟨entries, sorted⟩ := t
  simp only [total, insert, get?]
  induction entries with
  | nil => simp [place]
  | cons e es ih =>
    obtain ⟨hfirst, hes⟩ := List.pairwise_cons.1 sorted
    obtain ⟨key, old⟩ := e
    simp only [place]
    split_ifs with hlt hgt
    · -- The name comes before all others, so it was not bound.
      have hnone : ((key, old) :: es).lookup name = none := by
        rw [List.lookup_eq_none_iff]
        intro d hd
        rw [bne_iff_ne]
        rintro rfl
        rcases List.mem_cons.1 hd with rfl | hd
        · exact String.lt_irrefl _ hlt
        · exact String.lt_irrefl _ (String.lt_trans hlt (hfirst d hd))
      simp only [List.foldr_cons, hnone, Option.getD_none]
      omega
    · have hne : (name == key) = false := by
        rw [beq_eq_false_iff_ne]
        rintro rfl
        exact String.lt_irrefl _ hgt
      have hrest := ih hes
      simp only [List.foldr_cons, List.lookup_cons, hne] at hrest ⊢
      omega
    · obtain rfl : name = key := String.le_antisymm (String.not_lt.1 hgt) (String.not_lt.1 hlt)
      simp only [List.foldr_cons, List.lookup_cons, beq_self_eq_true, Option.getD_some]
      omega

end Table

namespace Shape

/-- The numbers are those of the tree at and below a node. -/
structure Describes (s : Shape) (n : Node) : Prop where
  nodes : s.nodes = n.preorder.length
  depth : s.depth + 1 = n.height
  byKind : ∀ kind c, s.byKind.get? kind = some c ↔ 0 < c ∧ n.preorder.countP (·.kind = kind) = c
  total : s.byKind.total = s.nodes
  children : s.children + 1 = s.nodes

variable (es : List (Node × Nat)) (s : Shape)

/-- The shape with some more nodes, which are given with their depths. -/
def countAll : Shape := es.foldl (fun s e => s.count e.1 e.2) s

lemma countAll_cons (e : Node × Nat) :
    s.countAll (e :: es) = (s.count e.1 e.2).countAll es := rfl

lemma nodes_countAll : (s.countAll es).nodes = s.nodes + es.length := by
  induction es generalizing s with
  | nil => rfl
  | cons e es ih =>
    rw [countAll_cons, ih, List.length_cons]
    simp only [count]
    omega

lemma children_countAll : (s.countAll es).children =
    s.children + total (fun m => m.tree.children.length) (es.map Prod.fst) := by
  induction es generalizing s with
  | nil => rfl
  | cons e es ih =>
    rw [countAll_cons, ih, List.map_cons, total_cons]
    simp only [count]
    omega

lemma depth_countAll : (s.countAll es).depth = es.foldl (fun depth e => max depth e.2) s.depth := by
  induction es generalizing s with
  | nil => rfl
  | cons e es ih =>
    rw [countAll_cons, ih]
    rfl

lemma total_countAll : (s.countAll es).byKind.total = s.byKind.total + es.length := by
  induction es generalizing s with
  | nil => rfl
  | cons e es ih =>
    have hinsert := s.byKind.total_insert e.1.kind ((s.byKind.get? e.1.kind).getD 0 + 1)
    rw [countAll_cons, ih, List.length_cons]
    simp only [count]
    omega

/-- Every node adds one to what is counted for its kind. -/
lemma get?_countAll (kind : String) : (s.countAll es).byKind.get? kind =
    if (es.map Prod.fst).countP (·.kind = kind) = 0 then s.byKind.get? kind
    else some ((s.byKind.get? kind).getD 0 + (es.map Prod.fst).countP (·.kind = kind)) := by
  induction es generalizing s with
  | nil => rfl
  | cons e es ih =>
    rw [countAll_cons, ih, List.map_cons, List.countP_cons]
    simp only [count, Table.get?_insert]
    by_cases hkind : e.1.kind = kind
    · simp only [hkind, decide_true, if_true, Option.getD_some, Nat.add_eq_zero_iff,
        Nat.one_ne_zero, and_false, if_false]
      split_ifs with hnone
      · rw [hnone]
      · congr 1
        omega
    · simp only [hkind, Ne.symm hkind, decide_false, if_false, Bool.false_eq_true, Nat.add_zero]

end Shape

namespace Node

mutual

/-- The largest depth that is come across in a tree is that of its last level. -/
lemma foldl_max_levelsFrom (k depth : Nat) (t : Tree) (a : Nat) :
    (levelsFrom k depth t).foldl (fun a e => max a e.2) a + 1 = max (a + 1) (depth + t.height) := by
  match t with
  | ⟨kind, text, span, children, fields⟩ =>
    rw [levelsFrom, List.foldl_cons, Tree.height, foldl_max_levelsAll _ _ _ _ (by omega)]
    omega

lemma foldl_max_levelsAll (k depth : Nat) (ts : List Tree) (a : Nat) (ha : depth ≤ a + 1) :
    (levelsAll k depth ts).foldl (fun a e => max a e.2) a + 1 =
      max (a + 1) (depth + Tree.heightAll ts) := by
  match ts with
  | [] =>
    rw [levelsAll, List.foldl_nil, Tree.heightAll]
    omega
  | t :: ts =>
    have hfirst := foldl_max_levelsFrom k depth t a
    rw [levelsAll, List.foldl_append, Tree.heightAll, foldl_max_levelsAll _ _ _ _ (by omega)]
    omega

end

/-- Every node but the first is the child of one node. -/
lemma total_children_preorder (n : Node) :
    total (fun m => m.tree.children.length) n.preorder + 1 = n.preorder.length := by
  have hsum (cs : List Node) (hcs : ∀ c ∈ cs,
      total (fun m => m.tree.children.length) c.preorder + 1 = c.preorder.length) :
      total (fun m => m.tree.children.length) (cs.flatMap preorder) + cs.length =
        (cs.flatMap preorder).length := by
    induction cs with
    | nil => rfl
    | cons c cs ih =>
      have hc := hcs c List.mem_cons_self
      have hrest := ih fun d hd => hcs d (List.mem_cons_of_mem c hd)
      rw [List.flatMap_cons, total_append, List.length_append, List.length_cons]
      omega
  have hchildren := hsum n.children fun c hc => total_children_preorder c
  rw [children, length_numbered, ← children] at hchildren
  rw [preorder_eq, total_cons, List.length_cons]
  omega
termination_by n.size
decreasing_by exact size_lt_of_mem_children hc

lemma shape_eq (n : Node) : n.shape = (Shape.mk 0 ∅ 0 0).countAll n.levels :=
  n.traverse_descend (fun m depth (s : Shape) => s.count m depth) ⟨0, ∅, 0, 0⟩

lemma shape_describes (n : Node) : n.shape.Describes n := by
  have hlength : n.levels.length = n.preorder.length := by
    rw [← n.map_fst_levels, List.length_map]
  have hnodes : n.shape.nodes = n.preorder.length := by
    rw [shape_eq, Shape.nodes_countAll, hlength, Nat.zero_add]
  refine ⟨hnodes, ?_, fun kind c => ?_, ?_, ?_⟩
  · rw [shape_eq, Shape.depth_countAll, levels, foldl_max_levelsFrom, height]
    have hpos := n.tree.height_pos
    simp only
    omega
  · rw [shape_eq, Shape.get?_countAll, map_fst_levels]
    split_ifs with hnone
    · rw [hnone]
      exact ⟨nofun, fun h => absurd h.2 (Nat.ne_of_lt h.1)⟩
    · rw [Option.some.injEq, show (Table.get? ∅ kind : Option Nat) = none from rfl,
        Option.getD_none, Nat.zero_add]
      omega
  · rw [hnodes, shape_eq, Shape.total_countAll, hlength]
    exact Nat.zero_add _
  · rw [hnodes, shape_eq, Shape.children_countAll, map_fst_levels, Nat.zero_add,
      total_children_preorder]

/-- Whatever state a visitor keeps, a walk shows it the nodes at and below `n` in pre-order, each
with the number of steps down to it, without those that a visit leaves out. With the visitor's
answers no other visits are possible, and the walk leaves the state that they lead to. Hence the
nodes of a kind are those of the pre-order, the nodes below `n` are the pre-order without `n`, and
the shape is that of the tree. -/
theorem traverse_preorder (n : Node) :
    (n.levels.map Prod.fst = n.preorder ∧ ∀ e ∈ n.levels, n.AtDepth e.1 e.2) ∧
    (∀ (σ : Type u) (visit : Node → Nat → σ → Visit × σ) (s : σ),
      (n.record visit s).1 = n.traverse visit s ∧
      ∀ log s', n.record visit s = (s', log) ↔ Logs visit n.levels s log s') ∧
    (∀ kind, n.ofKind kind = n.preorder.filter (·.kind = kind)) ∧
    n.descendants = n.preorder.tail ∧
    n.shape.Describes n := by
  refine ⟨⟨n.map_fst_levels, fun e he => atDepth_of_mem_levels he⟩, fun σ visit s => ?_,
    n.ofKind_eq_filter, n.descendants_eq_tail, n.shape_describes⟩
  exact ⟨(n.record_spec visit s).1, fun log s' => record_eq_iff⟩

-- A visitor that leaves out the children of statements and ends the walk at the third node.
example :
    let statement : Tree := ⟨"statement", "", .zero, [.leaf "identifier" "x"], ∅⟩
    let visit (m : Node) (_ seen : Nat) : Visit × Nat :=
      (if seen = 2 then .stop else if m.kind = "statement" then .skip else .descend, seen + 1)
    let n := root ⟨"program", "", .zero, [statement, statement, statement], ∅⟩
    (n.record visit 0).2.map (fun v => (v.node.number, v.depth)) = [(0, 0), (1, 1), (3, 1)] := by
  decide +kernel

end Node

end Arbor
