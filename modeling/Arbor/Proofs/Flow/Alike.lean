import Arbor.Proofs.Flow.Counterparts
import Arbor.Proofs.Flow.Skeleton
import Arbor.Proofs.Flow.Trace

/-!
# Steps that agree

Two steps of building agree if they do the same to drafts that are alike. Drafts are alike if their
graphs differ at most in the nodes that the points were built for, of which each is paired with the
other, and if the events of the first were seen last in the second. The second draft may have a
longer trace, of which neither step takes notice. It may also have other scopes, since what is found
does not depend on them; then only the events that show something are compared.
-/

namespace Arbor

namespace Flow

variable {E : Node → Node → Prop}

/-! ### Graphs -/

/-- The points are the same but for the nodes that they were built for, which are paired. -/
structure Point.Alike (E : Node → Node → Prop) (p p' : Point) : Prop where
  id : p'.id = p.id
  kind : p'.kind = p.kind
  span : p'.span = p.span
  origin : Option.Rel E p.origin p'.origin
  successors : p'.successors = p.successors
  predecessors : p'.predecessors = p.predecessors
  reachable : p'.reachable = p.reachable

/-- The graphs are the same but for the nodes that their points were built for. -/
structure Graph.Alike (E : Node → Node → Prop) (g g' : Graph) : Prop where
  entry : g'.entry = g.entry
  exits : g'.exits = g.exits
  points : List.Forall₂ (Point.Alike E) g.points.toList g'.points.toList
  edges : g'.edges = g.edges

namespace Graph.Alike

variable {g g' : Graph}

lemma fresh (sp : Span) : (Graph.fresh sp).Alike E (.fresh sp) :=
  have hpoint (p : Point) (hp : p.origin = none) : p.Alike E p :=
    ⟨rfl, rfl, rfl, hp ▸ .none, rfl, rfl, rfl⟩
  ⟨rfl, rfl, .cons (hpoint _ rfl) (.cons (hpoint _ rfl) .nil), rfl⟩

variable (h : g.Alike E g')
include h

lemma size : g'.points.size = g.points.size := by
  simpa using h.points.length_eq.symm

lemma getElem? (i : Nat) : Option.Rel (Point.Alike E) g.points[i]? g'.points[i]? := by
  simpa using forall₂_iff_getElem?.1 h.points i

lemma predecessors (i : Nat) : g'.predecessors i = g.predecessors i := by
  have hpoint := h.getElem? i
  rw [Graph.predecessors, Graph.predecessors, point?, point?]
  generalize g.points[i]? = p, g'.points[i]? = p' at hpoint ⊢
  cases hpoint with
  | none => rfl
  | some hp => exact hp.predecessors

lemma addPoint (kind : PointKind) {n n' : Node} (hn : E n n') (hspan : n'.span = n.span) :
    (g.addPoint kind n.span (some n)).Alike E (g'.addPoint kind n'.span (some n')) where
  entry := h.entry
  exits := h.exits
  points := by
    simp only [Graph.addPoint, Array.toList_push]
    exact List.rel_append h.points
      (.cons ⟨h.size, rfl, hspan, .some hn, rfl, rfl, rfl⟩ .nil)
  edges := h.edges

lemma addEdge (e : Edge) : (g.addEdge e).Alike E (g'.addEdge e) := by
  rw [Graph.addEdge, Graph.addEdge, h.size]
  match g.points[e.source]?, g'.points[e.source]?, h.getElem? e.source with
  | none, none, .none => exact h
  | some p, some p', .some hp =>
    dsimp only
    rw [hp.successors]
    split_ifs
    · exact h
    · refine ⟨h.entry, h.exits, ?_, congrArg (·.push e) h.edges⟩
      simp only [Array.toList_modify]
      refine forall₂_modify (forall₂_modify h.points (fun _ _ hp => ?_) _) (fun _ _ hp => ?_) _
      · exact { hp with successors := congrArg (PointSet.insert e.target) hp.successors }
      · exact { hp with predecessors := congrArg (PointSet.insert e.source) hp.predecessors }

end Graph.Alike

/-! ### Drafts -/

/-- The events are the same but for nodes that are paired. -/
inductive Event.Alike (E : Node → Node → Prop) : Event → Event → Prop where
  | opened (kind : ScopeKind) (parent : Option Nat) :
    Alike E (.opened kind parent) (.opened kind parent)
  | declared {n n' : Node} (scope : Nat) (binding : Binding) :
    E n n' → Alike E (.declared scope n binding) (.declared scope n' binding)
  | read {n n' : Node} (scope : Nat) : E n n' → Alike E (.read scope n) (.read scope n')
  | written {n n' : Node} (scope : Nat) : E n n' → Alike E (.written scope n) (.written scope n')
  | endless {n n' : Node} : E n n' → Alike E (.endless n) (.endless n')
  | nullish {n n' : Node} : E n n' → Alike E (.nullish n) (.nullish n')
  | finished {f f' : Option Node} {g g' : Graph} :
    Option.Rel E f f' → g.Alike E g' → Alike E (.finished f g) (.finished f' g')

/-- The event shows something besides the use of a variable. -/
def Event.isFinding : Event → Bool
  | .endless _ | .nullish _ | .finished _ _ => true
  | .opened .. | .declared .. | .read .. | .written .. => false

/-- The events that are compared: all of them, or those that show something. -/
def Draft.seen (whole : Bool) (D : Draft) : List Event :=
  D.trace.toList.filter fun e => whole || e.isFinding

/-- The drafts are the same for a walk, but the second has seen some events before. -/
structure Draft.Alike (E : Node → Node → Prop) (whole : Bool) (before : List Event)
    (D D' : Draft) : Prop where
  graph : D.graph.Alike E D'.graph
  scopes : whole = true → D'.scopes = D.scopes
  seen : ∃ later, D'.seen whole = before ++ later ∧
    List.Forall₂ (Event.Alike E) (D.seen whole) later

@[simp] lemma Draft.seen_true (D : Draft) : D.seen true = D.trace.toList := by
  simp [Draft.seen]

lemma Draft.seen_emit (whole : Bool) (D : Draft) (e : Event) :
    (D.emit e).seen whole = D.seen whole ++ if whole || e.isFinding then [e] else [] := by
  simp only [Draft.seen, Draft.emit, Array.toList_push, List.filter_append, List.filter_cons,
    List.filter_nil]

lemma Draft.Alike.emit {whole : Bool} {before : List Event} {D D' : Draft} {e e' : Event}
    (hD : D.Alike E whole before D') (h : (whole || e.isFinding) = (whole || e'.isFinding))
    (he : (whole || e.isFinding) = true → e.Alike E e') :
    (D.emit e).Alike E whole before (D'.emit e') := by
  obtain ⟨later, hseen, hlater⟩ := hD.seen
  refine ⟨hD.graph, hD.scopes, later ++ if whole || e'.isFinding then [e'] else [], ?_, ?_⟩
  · rw [Draft.seen_emit, hseen, List.append_assoc]
  · rw [Draft.seen_emit, ← h]
    refine List.rel_append hlater ?_
    split_ifs with hcompared
    · exact .cons (he hcompared) .nil
    · exact .nil

/-- The places are the same for a walk. -/
structure Context.Alike (whole : Bool) (c c' : Context) : Prop where
  targets : c'.targets = c.targets
  scope : whole = true → c'.scope = c.scope

namespace Context.Alike

variable {whole : Bool} {c c' : Context} {s s' : Nat}

lemma refl (c : Context) : c.Alike whole c := ⟨rfl, fun _ => rfl⟩

lemma root (h : whole = true → s' = s) : (Context.root s).Alike whole (.root s') := ⟨rfl, h⟩

lemma withScope (hc : c.Alike whole c') (h : whole = true → s' = s) :
    (c.withScope s).Alike whole (c'.withScope s') := ⟨hc.targets, h⟩

lemma inLoop (h : whole = true → s' = s) (head exit : Nat) :
    (c.inLoop s head exit).Alike whole (c'.inLoop s' head exit) := ⟨rfl, h⟩

lemma loopEntry (hc : c.Alike whole c') : c'.loopEntry = c.loopEntry :=
  congrArg Targets.continueTo hc.targets

lemma breakTarget? (hc : c.Alike whole c') : c'.breakTarget? = c.breakTarget? :=
  congrArg Targets.breakTo hc.targets

lemma inSwitch (hc : c.Alike whole c') (h : whole = true → s' = s) (exit : Nat) :
    (c.inSwitch s exit).Alike whole (c'.inSwitch s' exit) := by
  refine ⟨?_, h⟩
  simp only [Context.targets, Context.inSwitch, Context.breakTarget?, Option.some_or]
  exact congrArg (Targets.mk (some exit)) hc.loopEntry

end Context.Alike

/-! ### Steps -/

namespace Build

variable {α β γ δ : Type} {whole : Bool} {R : α → α → Prop} {S : β → β → Prop}

/-- The steps take drafts that are alike to drafts that are alike, and give related results. -/
def Agrees (E : Node → Node → Prop) (whole : Bool) (R : α → α → Prop) (act act' : Build α) :
    Prop :=
  ∀ (before : List Event) (D D' : Draft), D.Alike E whole before D' →
    R (act D).1 (act' D').1 ∧ (act D).2.Alike E whole before (act' D').2

namespace Agrees

lemma pure {a a' : α} (h : R a a') :
    Agrees E whole R (Pure.pure a : Build α) (Pure.pure a' : Build α) :=
  fun _ _ _ hD => ⟨h, hD⟩

lemma bind {act act' : Build α} {next next' : α → Build β} (h : Agrees E whole R act act')
    (hn : ∀ a a', R a a' → Agrees E whole S (next a) (next' a')) :
    Agrees E whole S (act >>= next) (act' >>= next') := by
  intro before D D' hD
  obtain ⟨hR, hD₁⟩ := h before D D' hD
  exact hn _ _ hR before _ _ hD₁

/-- Steps that agree on their results are followed by steps from one result. -/
lemma seq {act act' : Build α} {next next' : α → Build β} (h : Agrees E whole Eq act act')
    (hn : ∀ a, Agrees E whole S (next a) (next' a)) :
    Agrees E whole S (act >>= next) (act' >>= next') := by
  refine h.bind fun a a' heq => ?_
  rw [← heq]
  exact hn a

/-- What is new in the second list is passed over. -/
lemma forM_spread {New : δ → Prop} {T : γ → δ → Prop} {act : γ → Build Unit}
    {act' : δ → Build Unit} {xs : List γ} {ys : List δ} (h : Arbor.Spread New T xs ys)
    (hold : ∀ x ∈ xs, ∀ y, T x y → Agrees E whole Eq (act x) (act' y))
    (hnew : ∀ y, New y → act' y = Pure.pure ()) :
    Agrees E whole Eq (xs.forM act) (ys.forM act') := by
  obtain ⟨marks, h⟩ := h
  induction h with
  | nil => exact .pure rfl
  | @old x y _ xs ys hxy _ ih =>
    refine .seq (hold x (by simp) y hxy) fun _ => ih fun x' hx' => hold x' ?_
    exact List.mem_cons_of_mem x hx'
  | @new y _ xs ys hy _ ih =>
    change Agrees E whole Eq (xs.forM act) (act' y >>= fun _ => ys.forM act')
    rw [hnew y hy, pure_bind]
    exact ih hold

lemma forM {T : γ → δ → Prop} {act : γ → Build Unit} {act' : δ → Build Unit} {xs : List γ}
    {ys : List δ} (h : List.Forall₂ T xs ys)
    (hact : ∀ x ∈ xs, ∀ y, T x y → Agrees E whole Eq (act x) (act' y)) :
    Agrees E whole Eq (xs.forM act) (ys.forM act') :=
  have hspread : Arbor.Spread (fun _ => False) T xs ys := .of_forall₂ h
  .forM_spread hspread hact fun _ => False.elim

/-- The same list on both sides. -/
lemma forM_same {act act' : γ → Build Unit} (xs : List γ)
    (h : ∀ x, Agrees E whole Eq (act x) (act' x)) :
    Agrees E whole Eq (xs.forM act) (xs.forM act') := by
  refine .forM (List.forall₂_same.2 fun _ _ => rfl) fun x _ y hxy => ?_
  rw [← hxy]
  exact h x

lemma get : Agrees E whole (fun D D' => D.graph.Alike E D'.graph) (MonadState.get : Build Draft)
    MonadState.get :=
  fun _ _ _ hD => ⟨hD.graph, hD⟩

/-- Events that are alike, or of which neither is compared. -/
lemma emit {e e' : Event} (h : (whole || e.isFinding) = (whole || e'.isFinding))
    (he : (whole || e.isFinding) = true → e.Alike E e') :
    Agrees E whole Eq (Build.emit e) (Build.emit e') :=
  fun _ _ _ hD => ⟨rfl, hD.emit h he⟩

/-- An event that is told apart only by its scope. -/
lemma emit_scoped {e e' : Event} (h : whole = true → e.Alike E e') (he : e.isFinding = false)
    (he' : e'.isFinding = false) : Agrees E whole Eq (Build.emit e) (Build.emit e') := by
  refine .emit (by rw [he, he']) fun hseen => h ?_
  simpa [he] using hseen

lemma openScope (kind : ScopeKind) {parent parent' : Option Nat}
    (h : whole = true → parent' = parent) :
    Agrees E whole (fun s s' => whole = true → s' = s) (Build.openScope kind parent)
      (Build.openScope kind parent') := by
  intro before D D' hD
  have hemit : Agrees E whole Eq (Build.emit (.opened kind parent))
      (Build.emit (.opened kind parent')) :=
    .emit_scoped (fun hw => by rw [h hw]; exact .opened kind parent) rfl rfl
  obtain ⟨-, hD₁⟩ := hemit before D D' hD
  refine ⟨hD.scopes, hD₁.graph, fun hw => ?_, hD₁.seen⟩
  exact congrArg (· + 1) (hD.scopes hw)

lemma declare {scope scope' : Nat} (h : whole = true → scope' = scope) (binding : Binding)
    {names names' : List Node} (hnames : List.Forall₂ E names names') :
    Agrees E whole Eq (Build.declare scope binding names) (Build.declare scope' binding names') :=
  .forM hnames fun _ _ _ hname =>
    .emit_scoped (fun hw => h hw ▸ .declared scope binding hname) rfl rfl

lemma addEdge (e : Edge) :
    Agrees E whole Eq (modify (·.addEdge e) : Build Unit) (modify (·.addEdge e)) :=
  fun _ _ _ hD => ⟨rfl, hD.graph.addEdge e, hD.scopes, hD.seen⟩

lemma edge (s t : Nat) (l : Option Label) (b : Bool) :
    Agrees E whole Eq (Build.edge s t l b) (Build.edge s t l b) :=
  .addEdge _

lemma link (ends : List OpenEnd) (target : Nat) :
    Agrees E whole Eq (Build.link ends target) (Build.link ends target) :=
  .forM_same ends fun _ => .addEdge _

lemma linkBack (ends : List OpenEnd) (head : Nat) :
    Agrees E whole Eq (Build.linkBack ends head) (Build.linkBack ends head) :=
  .forM_same ends fun _ => .edge _ _ _ _

lemma linkToExits (ends : List OpenEnd) :
    Agrees E whole Eq (Build.linkToExits ends) (Build.linkToExits ends) := by
  have hexits (exits : List Nat) : Agrees E whole Eq
      (do for exit in exits do Build.link ends exit)
      (do for exit in exits do Build.link ends exit) := by
    induction exits with
    | nil => exact .pure rfl
    | cons exit exits ih =>
      have h := Agrees.seq (.link ends exit) fun _ => ih
      simpa using h
  refine .bind .get fun D D' h => ?_
  rw [h.exits]
  exact hexits D.graph.exits

lemma onFreshGraph {sp sp' : Span} (hsp : sp' = sp) {act act' : Build Unit}
    (h : Agrees E whole Eq act act') :
    Agrees E whole Eq (Build.onFreshGraph sp act) (Build.onFreshGraph sp' act') := by
  intro before D D' hD
  have hfresh : Draft.Alike E whole before { D with graph := .fresh sp }
      { D' with graph := .fresh sp' } := ⟨by rw [hsp]; exact .fresh sp, hD.scopes, hD.seen⟩
  obtain ⟨-, hD₁⟩ := h before _ _ hfresh
  exact ⟨rfl, hD.graph, hD₁.scopes, hD₁.seen⟩

section Point

variable {n n' : Node} (hn : E n n') (hspan : n'.span = n.span)
include hn hspan

lemma point (kind : PointKind) :
    Agrees E whole Eq (Build.point kind n) (Build.point kind n') :=
  fun _ _ _ hD => ⟨hD.graph.size.symm, hD.graph.addPoint kind hn hspan, hD.scopes, hD.seen⟩

lemma pointAfter (kind : PointKind) (ends : List OpenEnd) :
    Agrees E whole Eq (Build.pointAfter kind n ends) (Build.pointAfter kind n' ends) :=
  .seq (.point hn hspan kind) fun p => .seq (.link ends p) fun _ => .pure rfl

lemma join (ends : List OpenEnd) :
    Agrees E whole Eq (Build.join n ends) (Build.join n' ends) := by
  cases ends with
  | nil => exact .pure rfl
  | cons first rest =>
    unfold Build.join
    dsimp only
    split_ifs
    · exact .pure rfl
    · exact .seq (.pointAfter hn hspan .merge _) fun _ => .pure rfl

end Point

end Agrees

end Build

/-! ### The same nodes on both sides -/

lemma Point.Alike.eq {p p' : Point} (h : p.Alike Eq p') : p' = p := by
  obtain ⟨id, kind, span, origin, successors, predecessors, reachable⟩ := p
  obtain ⟨rfl, rfl, rfl, horigin, rfl, rfl, rfl⟩ := h
  obtain rfl : p'.origin = origin := eq_of_rel horigin
  rfl

lemma Graph.Alike.eq {g g' : Graph} (h : g.Alike Eq g') : g' = g := by
  obtain ⟨entry, exits, points, edges⟩ := g
  obtain ⟨rfl, rfl, hpoints, rfl⟩ := h
  have heq : List.Forall₂ Eq points.toList g'.points.toList := hpoints.imp fun _ _ hp => hp.eq.symm
  rw [List.forall₂_eq_eq_eq] at heq
  obtain rfl : points = g'.points := Array.toList_inj.1 heq
  rfl

lemma Event.Alike.eq {e e' : Event} (h : e.Alike Eq e') : e' = e := by
  cases h with
  | opened => rfl
  | declared _ _ h | read _ h | written _ h | endless h | nullish h => rw [h]
  | finished hf hg => rw [eq_of_rel hf, hg.eq]

lemma Graph.Alike.refl (g : Graph) : g.Alike Eq g := by
  refine ⟨rfl, rfl, List.forall₂_same.2 fun p _ => ?_, rfl⟩
  refine ⟨rfl, rfl, rfl, ?_, rfl, rfl, rfl⟩
  cases p.origin with
  | none => exact .none
  | some n => exact .some rfl

lemma Event.Alike.refl (e : Event) : e.Alike Eq e := by
  cases e with
  | opened kind parent => exact .opened kind parent
  | declared scope n binding => exact .declared scope binding rfl
  | read scope n => exact .read scope rfl
  | written scope n => exact .written scope rfl
  | endless n => exact .endless rfl
  | nullish n => exact .nullish rfl
  | finished f g =>
    cases f with
    | none => exact .finished .none (.refl g)
    | some n => exact .finished (.some rfl) (.refl g)

lemma Draft.alike_eq_iff {whole : Bool} {before : List Event} {D D' : Draft} :
    D.Alike Eq whole before D' ↔ D'.graph = D.graph ∧ (whole = true → D'.scopes = D.scopes) ∧
      D'.seen whole = before ++ D.seen whole := by
  constructor
  · rintro ⟨hgraph, hscopes, later, hseen, hlater⟩
    have heq : List.Forall₂ Eq (D.seen whole) later := hlater.imp fun _ _ he => he.eq.symm
    rw [List.forall₂_eq_eq_eq] at heq
    exact ⟨hgraph.eq, hscopes, heq ▸ hseen⟩
  · rintro ⟨hgraph, hscopes, hseen⟩
    exact ⟨hgraph ▸ .refl _, hscopes, _, hseen, List.forall₂_same.2 fun e _ => .refl e⟩

/-- Drafts that have seen the same events are the same. -/
lemma Draft.Alike.eq {D D' : Draft} (h : D.Alike Eq true [] D') : D' = D := by
  obtain ⟨hgraph, hscopes, hseen⟩ := Draft.alike_eq_iff.1 h
  rw [seen_true, seen_true, List.nil_append] at hseen
  obtain ⟨graph, scopes, trace⟩ := D
  obtain ⟨graph', scopes', trace'⟩ := D'
  obtain rfl : graph' = graph := hgraph
  obtain rfl : scopes' = scopes := hscopes rfl
  obtain rfl : trace' = trace := Array.toList_inj.1 hseen
  rfl

/-- What a walk adds to the trace does not depend on the events that are there. -/
lemma Build.Agrees.trace_eq {α : Type} {R : α → α → Prop} {act : Build α}
    (h : Agrees Eq true R act act) (D : Draft) :
    (act D).2.trace = D.trace ++ (act { D with trace := #[] }).2.trace := by
  have hD : Draft.Alike Eq true D.trace.toList { D with trace := #[] } D :=
    Draft.alike_eq_iff.2 ⟨rfl, fun _ => rfl, by simp⟩
  obtain ⟨-, hafter⟩ := h _ _ _ hD
  apply Array.toList_inj.1
  rw [Array.toList_append, ← Draft.seen_true, (Draft.alike_eq_iff.1 hafter).2.2, Draft.seen_true]

end Flow

end Arbor
