import Arbor.Proofs.Symbols.Layout
import Arbor.Proofs.Symbols.Lookup

/-!
# Declarations under two limits

An analysis that looks deeper opens more scopes, and so numbers them otherwise. Here the runs over
one outline under two limits are related: the scopes of the run with the lower limit stand,
renumbered, among those of the other run, with the same depths and one inside the other in the same
way, and they declare the same names. There is one exception. A class declares its name in the scope
around it, but only after its own scope has been opened; if that scope lies too deep, the name is
dropped.
-/

namespace Arbor.Symbols

open Outline

/-! ### Renumbered scopes -/

/-- The depth of a scope. -/
def depth? (scopes : Array Scope) (i : Nat) : Option Nat := scopes[i]?.map (·.depth)

/-- The scopes stand, renumbered, among others, at the same depths and one inside the other in the
same way. -/
structure Renumbered (f : Nat → Nat) (scopes scopes' : Array Scope) : Prop where
  global : f Model.globalScope = Model.globalScope
  lt : ∀ i < scopes.size, f i < scopes'.size
  inj : ∀ i < scopes.size, ∀ j < scopes.size, f i = f j → i = j
  depth : ∀ i < scopes.size, depth? scopes' (f i) = depth? scopes i
  around : ∀ i < scopes.size, around? scopes' (f i) = (around? scopes i).map f

lemma Nested.depth_le {limit i n : Nat} {scopes : Array Scope} (h : Nested limit scopes)
    (hdepth : depth? scopes i = some n) : n ≤ limit := by
  obtain ⟨s, hs, rfl⟩ := Option.map_eq_some_iff.1 hdepth
  by_cases hzero : i = 0
  · rw [((h.place hs).outermost hzero).2.2]
    exact Nat.zero_le limit
  · exact ((h.place hs).inner hzero).2.1

lemma exists_depth? {scopes : Array Scope} {i : Nat} (hi : i < scopes.size) :
    ∃ n, depth? scopes i = some n :=
  ⟨scopes[i].depth, by rw [depth?, Array.getElem?_eq_getElem hi, Option.map_some]⟩

lemma renumbered_refl (scopes : Array Scope) : Renumbered id scopes scopes :=
  ⟨rfl, fun _ hi => hi, fun _ _ _ _ h => h, fun _ _ => rfl,
    fun _ _ => (Option.map_id_apply ..).symm⟩

lemma depth?_eq_of_frames {scopes scopes' : Array Scope}
    (h : scopes'.map Scope.frame = scopes.map Scope.frame) (i : Nat) :
    depth? scopes' i = depth? scopes i := by
  have hframe {scopes : Array Scope} :
      depth? scopes i = (scopes.map Scope.frame)[i]?.map (·.depth) := by
    rw [Array.getElem?_map, depth?]
    cases scopes[i]? <;> rfl
  rw [hframe, h, ← hframe]

lemma around?_eq_of_frames {scopes scopes' : Array Scope}
    (h : scopes'.map Scope.frame = scopes.map Scope.frame) (i : Nat) :
    around? scopes' i = around? scopes i := by
  rw [Model.around?_eq, ← Array.getElem?_map, h, Array.getElem?_map, ← Model.around?_eq]

/-- What scopes declare is of no account. -/
lemma Renumbered.of_frames {f : Nat → Nat} {a a' b b' : Array Scope} (h : Renumbered f a b)
    (ha : a'.map Scope.frame = a.map Scope.frame) (hb : b'.map Scope.frame = b.map Scope.frame) :
    Renumbered f a' b' := by
  have hsize : a'.size = a.size := by simpa using congrArg Array.size ha
  have hsize' : b'.size = b.size := by simpa using congrArg Array.size hb
  constructor
  case global => exact h.global
  case lt => simpa only [hsize, hsize'] using h.lt
  case inj => simpa only [hsize] using h.inj
  case depth => simpa only [hsize, depth?_eq_of_frames ha, depth?_eq_of_frames hb] using h.depth
  case around => simpa only [hsize, around?_eq_of_frames ha, around?_eq_of_frames hb] using h.around

namespace Model

variable {m m' : Model} {kind : ScopeKind} {parent depth : Nat} {span : Span}

lemma depth?_openScope (hparent : parent < m.scopes.size) (i : Nat) :
    depth? (m.openScope kind parent depth span).scopes i
      = if i = m.scopes.size then some depth else depth? m.scopes i := by
  rw [depth?, openScope_getElem? hparent, depth?]
  by_cases hi : i = m.scopes.size
  · simp [hi]
  · cases m.scopes[i]? with
    | none => simp [hi]
    | some s => by_cases hp : parent = i <;> simp [hi, hp]

variable {f : Nat → Nat}

lemma renumbered_openScope_right (h : Renumbered f m.scopes m'.scopes)
    (hparent : parent < m'.scopes.size) :
    Renumbered f m.scopes (m'.openScope kind parent depth span).scopes := by
  have hne (i : Nat) (hi : i < m.scopes.size) : f i ≠ m'.scopes.size := Nat.ne_of_lt (h.lt i hi)
  -- In each case the scope is an old one, whose number stays, or the new one on both sides.
  constructor
  case global => exact h.global
  case lt =>
    intro i hi
    rw [openScope_scopes_size]
    exact Nat.lt_succ_of_lt (h.lt i hi)
  case inj => exact h.inj
  case depth =>
    intro i hi
    rw [depth?_openScope hparent, if_neg (hne i hi), h.depth i hi]
  case around =>
    intro i hi
    rw [around?_openScope hparent, if_neg (hne i hi), h.around i hi]

/-- A scope more on both sides. -/
lemma renumbered_openScope {limit : Nat} (h : Renumbered f m.scopes m'.scopes)
    (hnested : Nested limit m.scopes) (hparent : parent < m.scopes.size) :
    Renumbered (Function.update f m.scopes.size m'.scopes.size)
      (m.openScope kind parent depth span).scopes
      (m'.openScope kind (f parent) depth span).scopes := by
  have hparent' := h.lt parent hparent
  have hold (i : Nat) (hi : i < m.scopes.size) :
      Function.update f m.scopes.size m'.scopes.size i = f i :=
    Function.update_of_ne (Nat.ne_of_lt hi) ..
  have hnew : Function.update f m.scopes.size m'.scopes.size m.scopes.size = m'.scopes.size :=
    Function.update_self ..
  have hne (i : Nat) (hi : i < m.scopes.size) : f i ≠ m'.scopes.size := Nat.ne_of_lt (h.lt i hi)
  constructor
  case global => exact (hold 0 hnested.nonempty).trans h.global
  case lt =>
    intro i hi
    rw [openScope_scopes_size] at hi ⊢
    rcases Nat.lt_succ_iff_lt_or_eq.1 hi with hi | rfl
    · rw [hold i hi]
      exact Nat.lt_succ_of_lt (h.lt i hi)
    · rw [hnew]
      exact Nat.lt_succ_self _
  case inj =>
    intro i hi j hj
    rw [openScope_scopes_size] at hi hj
    rcases Nat.lt_succ_iff_lt_or_eq.1 hi with hi | rfl
    · rcases Nat.lt_succ_iff_lt_or_eq.1 hj with hj | rfl
      · rw [hold i hi, hold j hj]
        exact h.inj i hi j hj
      · rw [hold i hi, hnew]
        exact fun hsame => absurd hsame (hne i hi)
    · rcases Nat.lt_succ_iff_lt_or_eq.1 hj with hj | rfl
      · rw [hold j hj, hnew]
        exact fun hsame => absurd hsame.symm (hne j hj)
      · exact fun _ => rfl
  case depth =>
    intro i hi
    rw [openScope_scopes_size] at hi
    rw [depth?_openScope hparent, depth?_openScope hparent']
    rcases Nat.lt_succ_iff_lt_or_eq.1 hi with hi | rfl
    · rw [hold i hi, if_neg (hne i hi), if_neg (Nat.ne_of_lt hi), h.depth i hi]
    · rw [hnew, if_pos rfl, if_pos rfl]
  case around =>
    intro i hi
    rw [openScope_scopes_size] at hi
    rw [around?_openScope hparent, around?_openScope hparent']
    rcases Nat.lt_succ_iff_lt_or_eq.1 hi with hi | rfl
    · rw [hold i hi, if_neg (hne i hi), if_neg (Nat.ne_of_lt hi), h.around i hi]
      -- The scope around an old one is older still.
      cases hp : around? m.scopes i with
      | none => rfl
      | some p =>
        rw [Option.map_some, Option.map_some, hold p (Nat.lt_trans (around?_lt hnested hp) hi)]
    · rw [hnew, if_pos rfl, if_pos rfl, Option.map_some, hold parent hparent]

/-! ### Embedded models -/

/-- The model `m'` holds `m`, with its scopes renumbered. Where `m'` declares a name and `m` does
not, the symbol was dropped in a scope as deep as the limit allows. -/
structure Embeds (f : Nat → Nat) (limit : Nat) (dropped : Symbol → Prop) (m m' : Model) : Prop where
  scopes : Renumbered f m.scopes m'.scopes
  kept : ∀ i < m.scopes.size, ∀ name, m'.symbolAt? (f i) name = none → m.symbolAt? i name = none
  lost : ∀ i < m.scopes.size, ∀ name x, m'.symbolAt? (f i) name = some x →
    m.symbolAt? i name = none → depth? m.scopes i = some limit ∧ dropped x

variable {limit : Nat} {dropped : Symbol → Prop}

lemma embeds_refl (m : Model) : Embeds id limit dropped m m := by
  refine ⟨renumbered_refl m.scopes, fun _ _ _ h => h, ?_⟩
  intro i _ name x hx hnone
  exact absurd (hx.symm.trans hnone) (Option.some_ne_none x)

/-- What a name stands for in `m'` only was dropped. -/
lemma Embeds.lost_of_resolve? {l l' : Nat} (h : Embeds f limit dropped m m') (hm : m.WellFormed l)
    (hm' : m'.WellFormed l') {i : Nat} {name : String} {x : Symbol} (hi : i < m.scopes.size)
    (hnone : m.resolve? name i = none) (hx : m'.resolve? name (f i) = some x) :
    ∃ j < m.scopes.size, x.scope = f j ∧ depth? m.scopes j = some limit ∧ dropped x := by
  -- both go outward from the same scopes, so they leave the scopes of `m` together
  induction i using outward_induction hm.nested with
  | step i ih =>
    rw [resolve?_eq hm, Option.or_eq_none_iff] at hnone
    rw [resolve?_eq hm', h.scopes.around i hi, Option.or_eq_some_iff] at hx
    rcases hx with hat | ⟨-, hout⟩
    · exact ⟨i, hi, (hm'.indexed.of_symbolAt? hat).1, h.lost i hi name x hat hnone.1⟩
    · cases haround : around? m.scopes i with
      | none => simp [haround] at hout
      | some j =>
        have hlt : j < i := around?_lt hm.nested haround
        rw [haround] at hnone hout
        exact ih j haround (Nat.lt_trans hlt hi) hnone.2 hout

/-- Both declare a name in the same scope. -/
lemma Embeds.insert (h : Embeds f limit dropped m m') (hm : m.Indexed) (hm' : m'.Indexed)
    (o o' : Options) {x x' : Symbol} (hx : x.scope < m.scopes.size) (hscope : x'.scope = f x.scope)
    (hname : x'.name = x.name) : Embeds f limit dropped (m.insert o x) (m'.insert o' x') := by
  constructor
  case scopes => exact h.scopes.of_frames (insert_frames ..) (insert_frames ..)
  case kept =>
    intro i hi name hnone
    rw [insert_scopes_size] at hi
    rw [symbolAt?_insert hm'] at hnone
    rw [symbolAt?_insert hm]
    split_ifs at hnone with hplace
    rw [if_neg, h.kept i hi name hnone]
    rintro ⟨-, rfl, rfl⟩
    exact hplace ⟨h.scopes.lt _ hi, hscope, hname⟩
  case lost =>
    intro i hi name y hy hnone
    rw [insert_scopes_size] at hi
    rw [symbolAt?_insert hm] at hnone
    rw [symbolAt?_insert hm'] at hy
    rw [depth?_eq_of_frames (insert_frames ..)]
    split_ifs at hnone with hplace
    rw [if_neg] at hy
    · exact h.lost i hi name y hy hnone
    · rintro ⟨-, hi', hname'⟩
      exact hplace ⟨hi, h.scopes.inj _ hx i hi (hscope.symm.trans hi'), hname.symm.trans hname'⟩

/-- Only `m'` declares a name, in a scope of its own or as a symbol that is dropped. -/
lemma Embeds.insert_right (h : Embeds f limit dropped m m') (hm' : m'.Indexed) (o : Options)
    {x : Symbol} (hx : ∀ i < m.scopes.size, f i = x.scope →
      depth? m.scopes i = some limit ∧ dropped x) :
    Embeds f limit dropped m (m'.insert o x) := by
  constructor
  case scopes => exact h.scopes.of_frames rfl (insert_frames ..)
  case kept =>
    intro i hi name hnone
    rw [symbolAt?_insert hm'] at hnone
    split_ifs at hnone
    exact h.kept i hi name hnone
  case lost =>
    intro i hi name y hy hnone
    rw [symbolAt?_insert hm'] at hy
    split_ifs at hy with hplace
    · cases hy
      exact hx i hi hplace.2.1.symm
    · exact h.lost i hi name y hy hnone

/-- Exporting a name declares nothing. -/
lemma symbolAt?_exportName_eq_none_iff (hm : m.Indexed) {scope i : Nat} {name other : String} :
    (m.exportName scope name).symbolAt? i other = none ↔ m.symbolAt? i other = none := by
  rw [symbolAt?_exportName hm]
  split_ifs <;> simp

lemma Embeds.exportName_left (h : Embeds f limit dropped m m') (hm : m.Indexed) (scope : Nat)
    (name : String) : Embeds f limit dropped (m.exportName scope name) m' := by
  constructor
  case scopes =>
    rw [exportName_scopes]
    exact h.scopes
  case kept =>
    intro i hi other hnone
    rw [exportName_scopes] at hi
    exact (symbolAt?_exportName_eq_none_iff hm).2 (h.kept i hi other hnone)
  case lost =>
    intro i hi other x hx hnone
    rw [exportName_scopes] at hi ⊢
    exact h.lost i hi other x hx ((symbolAt?_exportName_eq_none_iff hm).1 hnone)

lemma Embeds.exportName_right (h : Embeds f limit dropped m m') (hm' : m'.Indexed)
    (hdropped : ∀ x, dropped x → dropped { x with exported := true }) (scope : Nat)
    (name : String) : Embeds f limit dropped m (m'.exportName scope name) := by
  constructor
  case scopes =>
    rw [exportName_scopes]
    exact h.scopes
  case kept =>
    intro i hi other hnone
    exact h.kept i hi other ((symbolAt?_exportName_eq_none_iff hm').1 hnone)
  case lost =>
    intro i hi other x hx hnone
    rw [symbolAt?_exportName hm'] at hx
    split_ifs at hx
    · obtain ⟨y, hy, rfl⟩ := Option.map_eq_some_iff.1 hx
      exact (h.lost i hi other y hy hnone).imp_right (hdropped y)
    · exact h.lost i hi other x hx hnone

/-- Both open a scope in the same scope. -/
lemma Embeds.openScope {l : Nat} (h : Embeds f limit dropped m m') (hnested : Nested l m.scopes)
    (hparent : parent < m.scopes.size) :
    Embeds (Function.update f m.scopes.size m'.scopes.size) limit dropped
      (m.openScope kind parent depth span) (m'.openScope kind (f parent) depth span) := by
  have hparent' := h.scopes.lt parent hparent
  have hold (i : Nat) (hi : i < m.scopes.size) :
      Function.update f m.scopes.size m'.scopes.size i = f i :=
    Function.update_of_ne (Nat.ne_of_lt hi) ..
  have hnone (m : Model) (name : String) : m.symbolAt? m.scopes.size name = none := by
    simp [symbolAt?, idAt?]
  constructor
  case scopes => exact renumbered_openScope h.scopes hnested hparent
  case kept =>
    intro i hi name hat
    rw [openScope_scopes_size] at hi
    rw [symbolAt?_openScope hparent'] at hat
    rw [symbolAt?_openScope hparent]
    rcases Nat.lt_succ_iff_lt_or_eq.1 hi with hi | rfl
    · rw [hold i hi] at hat
      exact h.kept i hi name hat
    · exact hnone m name
  case lost =>
    intro i hi name x hx hat
    rw [openScope_scopes_size] at hi
    rw [symbolAt?_openScope hparent'] at hx
    rw [symbolAt?_openScope hparent] at hat
    rw [depth?_openScope hparent]
    rcases Nat.lt_succ_iff_lt_or_eq.1 hi with hi | rfl
    · rw [hold i hi] at hx
      rw [if_neg (Nat.ne_of_lt hi)]
      exact h.lost i hi name x hx hat
    · rw [Function.update_self, hnone] at hx
      cases hx

/-- Only `m'` opens a scope. -/
lemma Embeds.openScope_right (h : Embeds f limit dropped m m')
    (hparent : parent < m'.scopes.size) :
    Embeds f limit dropped m (m'.openScope kind parent depth span) := by
  constructor
  case scopes => exact renumbered_openScope_right h.scopes hparent
  case kept =>
    intro i hi name hnone
    rw [symbolAt?_openScope hparent] at hnone
    exact h.kept i hi name hnone
  case lost =>
    intro i hi name x hx hnone
    rw [symbolAt?_openScope hparent] at hx
    exact h.lost i hi name x hx hnone

end Model

/-! ### Drafts side by side -/

/-- The symbol is that of a class, declared in the scope around the class. -/
def Dropped (root : Node) (x : Symbol) : Prop :=
  ∃ c ∈ root.preorder, ∃ y, NamesClass c y ∧ x.kind = y.kind ∧ x.name = y.name ∧ x.span = y.span

namespace Draft

/-- The node stands at or below one whose scope lies too deep. -/
def Hides (root : Node) (d : Draft) (n : Node) : Prop :=
  ∃ t ∈ root.preorder, d.isTruncated t = true ∧ n ∈ t.preorder

/-- The model of `e` holds that of `d`, and both agree on the nodes that `d` does not hide. -/
structure Embeds (root : Node) (f : Nat → Nat) (low high : Nat) (d e : Draft) : Prop where
  soundLow : d.Sound low
  soundHigh : e.Sound high
  model : Model.Embeds f low (Dropped root) d.model e.model
  scopeOf : ∀ n ∈ root.preorder, ¬ d.Hides root n → e.scopeOf? n = (d.scopeOf? n).map f
  declared : ∀ n ∈ root.preorder, ¬ d.Hides root n → e.isDeclared n = d.isDeclared n
  truncated : ∀ n ∈ root.preorder, e.isTruncated n = true → d.Hides root n

variable {o : Options} {root : Node} {f : Nat → Nat} {low high : Nat} {d e : Draft}

lemma isDeclared_declare (scope : Nat) (exports : Option Nat) (x : Declaration) (n : Node) :
    (d.declare o scope exports x).isDeclared n
      = ((x.node.map (·.number)).toList.contains n.number || d.isDeclared n) := by
  rw [isDeclared, declare, List.contains_append]
  rfl

/-- Both declare a name in the same scope. -/
lemma Embeds.declare (h : Embeds root f low high d e) {scope : Nat}
    (hscope : scope < d.model.scopes.size) (exports exports' : Option Nat) (x : Declaration) :
    Embeds root f low high (d.declare { o with maxDepth := low } scope exports x)
      (e.declare { o with maxDepth := high } (f scope) exports' x) := by
  constructor
  case soundLow => exact h.soundLow.declare scope exports x
  case soundHigh => exact h.soundHigh.declare (f scope) exports' x
  case model =>
    exact h.model.insert h.soundLow.wellFormed.indexed h.soundHigh.wellFormed.indexed _ _ hscope
      rfl rfl
  case scopeOf => exact h.scopeOf
  case declared =>
    intro n hn hhides
    rw [isDeclared_declare, isDeclared_declare, h.declared n hn hhides]
  case truncated => exact h.truncated

/-- Only `e` declares a name. -/
lemma Embeds.declare_right (h : Embeds root f low high d e) {scope : Nat} (exports : Option Nat)
    {x : Declaration} (hname : ∀ name ∈ x.node, name ∈ root.preorder ∧ d.Hides root name)
    (hscope : ∀ i < d.model.scopes.size, f i = scope → depth? d.model.scopes i = some low ∧
      ∃ c ∈ root.preorder, NamesClass c x) :
    Embeds root f low high d (e.declare { o with maxDepth := high } scope exports x) := by
  constructor
  case soundLow => exact h.soundLow
  case soundHigh => exact h.soundHigh.declare scope exports x
  case model =>
    apply h.model.insert_right h.soundHigh.wellFormed.indexed
    intro i hi hsame
    obtain ⟨hdepth, c, hc, hclass⟩ := hscope i hi hsame
    exact ⟨hdepth, c, hc, x, hclass, rfl, rfl, rfl⟩
  case scopeOf => exact h.scopeOf
  case declared =>
    intro n hn hhides
    rw [isDeclared_declare, h.declared n hn hhides]
    cases hx : x.node with
    | none => rfl
    | some name =>
      obtain ⟨hroot, hhidden⟩ := hname name hx
      have hne : n.number ≠ name.number := by
        intro hnumber
        exact hhides (Node.eq_of_number_eq hn hroot hnumber ▸ hhidden)
      simp [hne]
  case truncated => exact h.truncated

/-- Exporting names declares nothing. -/
lemma Embeds.exportNames_left (h : Embeds root f low high d e) (scope : Nat) (names : List String) :
    Embeds root f low high { d with model := names.foldl (Model.exportName scope) d.model } e := by
  induction names generalizing d with
  | nil => exact h
  | cons name names ih =>
    have hmodel := h.model.exportName_left h.soundLow.wellFormed.indexed scope name
    exact ih ⟨h.soundLow.exportName scope name, h.soundHigh, hmodel, h.scopeOf, h.declared,
      h.truncated⟩

lemma Embeds.exportNames_right (h : Embeds root f low high d e) (scope : Nat)
    (names : List String) :
    Embeds root f low high d { e with model := names.foldl (Model.exportName scope) e.model } := by
  induction names generalizing e with
  | nil => exact h
  | cons name names ih =>
    have hindexed := h.soundHigh.wellFormed.indexed
    have hmodel := h.model.exportName_right hindexed (fun _ hx => hx) scope name
    exact ih ⟨h.soundLow, h.soundHigh.exportName scope name, hmodel, h.scopeOf, h.declared,
      h.truncated⟩

/-! ### Scopes under two limits -/

/-- The depth of a scope tells whether another may be opened inside it. -/
lemma openScope_of_depth? {parent n : Nat} (hdepth : depth? d.model.scopes parent = some n)
    (kind : ScopeKind) (owner : Node) :
    d.openScope o kind parent owner
      = if o.maxDepth < n + 1 then (none, { d with truncated := owner.number :: d.truncated })
        else (some d.model.scopes.size, { d with
          model := d.model.openScope kind parent (n + 1) owner.span
          scopeOf := (owner.number, d.model.scopes.size) :: d.scopeOf }) := by
  obtain ⟨around, haround, rfl⟩ := Option.map_eq_some_iff.1 hdepth
  simp only [Draft.openScope, haround]

lemma eq_size_of_openScope {kind : ScopeKind} {parent id : Nat} {owner : Node} {e' : Draft}
    (hopen : e.openScope o kind parent owner = (some id, e')) : id = e.model.scopes.size := by
  rw [Draft.openScope] at hopen
  split at hopen
  · cases hopen
  · split_ifs at hopen
    · cases hopen
    · cases hopen
      rfl

lemma Hides.truncate {n : Node} (h : d.Hides root n) (k : Nat) :
    Hides root { d with truncated := k :: d.truncated } n := by
  obtain ⟨t, ht, htruncated, hn⟩ := h
  refine ⟨t, ht, ?_, hn⟩
  simp_all [isTruncated]

lemma hides_truncate {owner n : Node} (howner : owner ∈ root.preorder) (hn : n ∈ owner.preorder) :
    Hides root { d with truncated := owner.number :: d.truncated } n :=
  ⟨owner, howner, by simp [isTruncated], hn⟩

/-- A scope lies too deep for the lower limit. -/
lemma Embeds.truncate (h : Embeds root f low high d e) (k : Nat) :
    Embeds root f low high { d with truncated := k :: d.truncated } e := by
  have hless {n : Node} (hn : ¬ Hides root { d with truncated := k :: d.truncated } n) :
      ¬ d.Hides root n := fun hhides => hn (hhides.truncate k)
  constructor
  case soundLow =>
    exact ⟨h.soundLow.wellFormed, h.soundLow.opened, h.soundLow.unresolved, h.soundLow.unused⟩
  case soundHigh => exact h.soundHigh
  case model => exact h.model
  case scopeOf =>
    intro n hn hhides
    exact h.scopeOf n hn (hless hhides)
  case declared =>
    intro n hn hhides
    exact h.declared n hn (hless hhides)
  case truncated =>
    intro n hn htruncated
    exact (h.truncated n hn htruncated).truncate k

/-- Only `e` opens a scope, for a node that `d` hides. -/
lemma Embeds.openScope_right (h : Embeds root f low high d e) {kind : ScopeKind}
    (hkind : kind ≠ .global) (parent : Nat) {owner : Node} (howner : owner ∈ root.preorder)
    (hhides : d.Hides root owner) :
    Embeds root f low high d (e.openScope { o with maxDepth := high } kind parent owner).2 := by
  have hne {n : Node} (hn : n ∈ root.preorder) (hno : ¬ d.Hides root n) :
      n.number ≠ owner.number := by
    intro hnumber
    exact hno (Node.eq_of_number_eq hn howner hnumber ▸ hhides)
  have hsound : (e.openScope { o with maxDepth := high } kind parent owner).2.Sound high :=
    Sound.openScope (o := { o with maxDepth := high }) h.soundHigh hkind parent owner
  have hscope (n : Node) (hn : n ∈ root.preorder) (hno : ¬ d.Hides root n) :
      (e.openScope { o with maxDepth := high } kind parent owner).2.scopeOf? n
        = (d.scopeOf? n).map f := by
    rw [scopeOf?_openScope_of_ne _ kind parent (hne hn hno), h.scopeOf n hn hno]
  cases hdepth : depth? e.model.scopes parent with
  | none =>
    have hnone : e.model.scopes[parent]? = none := by simpa [depth?] using hdepth
    simp only [Draft.openScope, hnone]
    exact h
  | some k =>
    obtain ⟨around, haround, -⟩ := Option.map_eq_some_iff.1 hdepth
    obtain ⟨hparent, -⟩ := Array.getElem?_eq_some_iff.1 haround
    rw [openScope_of_depth? hdepth] at hsound hscope ⊢
    split_ifs at hsound hscope ⊢
    · refine ⟨h.soundLow, hsound, h.model, hscope, h.declared, ?_⟩
      intro n hn htruncated
      by_cases hnumber : n.number = owner.number
      · exact Node.eq_of_number_eq hn howner hnumber ▸ hhides
      · apply h.truncated n hn
        simpa [isTruncated, hnumber] using htruncated
    · exact ⟨h.soundLow, hsound, h.model.openScope_right hparent, hscope, h.declared, h.truncated⟩

/-- Only `e` goes through items, inside a node that `d` hides and in a scope that `d` lacks. -/
lemma Embeds.runAll_right {h : Node} {xs : List Outline} {as : List Node} (hx : Laid h xs as)
    (hh : h ∈ root.preorder) (hhides : ∀ n ∈ h.preorder, d.Hides root n) {scope around : Nat}
    (hscope : ∀ i < d.model.scopes.size, f i ≠ scope)
    (haround : ∀ i < d.model.scopes.size, f i = around → depth? d.model.scopes i = some low)
    {exports : Option Nat} (he : Embeds root f low high d e) :
    Embeds root f low high d (runAll { o with maxDepth := high } scope around exports xs e) := by
  have hroot {n h : Node} (hh : h ∈ root.preorder) (hn : n ∈ h.preorder) : n ∈ root.preorder :=
    Node.mem_preorder_trans hn hh
  induction hx generalizing scope around exports e with
  | nil h =>
    simp only [runAll]
    exact he
  | declare hname _ ih =>
    simp only [runAll, run]
    refine ih hh hhides hscope haround (he.declare_right exports ?_ ?_)
    · intro name hx
      exact ⟨hroot hh (hname name hx), hhides name (hname name hx)⟩
    · intro i hi hsame
      exact absurd hsame (hscope i hi)
  | @declareOutside h x _ _ hclass _ ih =>
    simp only [runAll, run]
    -- of all items, only the name of a class may come into a scope of `d`
    refine ih hh hhides hscope haround (he.declare_right exports ?_ ?_)
    · intro name hx
      have hname := hclass.mem_preorder name hx
      exact ⟨hroot hh hname, hhides name hname⟩
    · intro i hi hsame
      exact ⟨haround i hi hsame, h, hh, hclass⟩
  | exportNames _ ih =>
    simp only [runAll, run]
    exact ih hh hhides hscope haround (he.exportNames_right scope _)
  | exporting _ _ _ ihinner ih =>
    simp only [runAll, run]
    exact ih hh hhides hscope haround (ihinner hh hhides hscope haround he)
  | node hn _ _ _ _ ihinner ih =>
    simp only [runAll, run]
    apply ih hh hhides hscope haround
    apply ihinner (hroot hh hn) _ hscope haround he
    intro m hm
    exact hhides m (Node.mem_preorder_trans hm hn)
  | @scope h owner kind _ _ _ _ hkind howns _ _ _ _ ihinner ih =>
    have hopened := he.openScope_right (o := o) hkind scope (hroot hh howns.mem)
      (hhides owner howns.mem)
    simp only [runAll, run]
    apply ih hh hhides hscope haround
    generalize hopen : e.openScope { o with maxDepth := high } kind scope owner = r at hopened
    obtain ⟨id | id, e'⟩ := r
    · exact hopened
    · obtain rfl := eq_size_of_openScope hopen
      refine ihinner (hroot hh howns.mem) ?_ ?_ ?_ hopened
      · intro m hm
        exact hhides m (Node.mem_preorder_trans hm howns.mem)
      · intro i hi
        exact Nat.ne_of_lt (he.model.scopes.lt i hi)
      · intro i hi hsame
        exact absurd hsame (hscope i hi)

/-! ### Runs under two limits -/

/-- The renumbering `f'` of more scopes goes on from `f`. -/
def Extends (f f' : Nat → Nat) (size size' : Nat) : Prop :=
  size ≤ size' ∧ ∀ i < size, f' i = f i

lemma Extends.trans {f f' f'' : Nat → Nat} {a b c : Nat} (h : Extends f f' a b)
    (h' : Extends f' f'' b c) : Extends f f'' a c := by
  refine ⟨Nat.le_trans h.1 h'.1, fun i hi => ?_⟩
  rw [h'.2 i (Nat.lt_of_lt_of_le hi h.1), h.2 i hi]

lemma extends_of_eq (f : Nat → Nat) {size size' : Nat} (h : size' = size) :
    Extends f f size size' :=
  ⟨Nat.le_of_eq h.symm, fun _ _ => rfl⟩

lemma extends_update (f : Nat → Nat) (size id : Nat) :
    Extends f (Function.update f size id) size (size + 1) :=
  ⟨Nat.le_succ size, fun _ hi => Function.update_of_ne (Nat.ne_of_lt hi) ..⟩

/-- The scope is renumbered as told. -/
def Renumbers (f : Nat → Nat) (size scope scope' : Nat) : Prop :=
  scope < size ∧ f scope = scope'

lemma Renumbers.extend {f f' : Nat → Nat} {size size' scope scope' : Nat}
    (h : Renumbers f size scope scope') (hext : Extends f f' size size') :
    Renumbers f' size' scope scope' :=
  ⟨Nat.lt_of_lt_of_le h.1 hext.1, (hext.2 scope h.1).trans h.2⟩

/-- Both declare in the same scope. -/
lemma Embeds.declare_renumbered (he : Embeds root f low high d e) {scope scope' : Nat}
    (hscope : Renumbers f d.model.scopes.size scope scope') (exports exports' : Option Nat)
    (x : Declaration) :
    Extends f f d.model.scopes.size
        (d.declare { o with maxDepth := low } scope exports x).model.scopes.size ∧
      Embeds root f low high (d.declare { o with maxDepth := low } scope exports x)
        (e.declare { o with maxDepth := high } scope' exports' x) := by
  obtain ⟨hlt, rfl⟩ := hscope
  exact ⟨extends_of_eq f (declare_scopes_size ..), he.declare hlt exports exports' x⟩

/-- Both open a scope in the same scope. -/
lemma Embeds.openScope (h : Embeds root f low high d e) {kind : ScopeKind} (hkind : kind ≠ .global)
    {parent n : Nat} (hparent : parent < d.model.scopes.size)
    (hdepth : depth? d.model.scopes parent = some n) (hlow : n + 1 ≤ low) (hhigh : n + 1 ≤ high)
    (owner : Node) :
    Embeds root (Function.update f d.model.scopes.size e.model.scopes.size) low high
      { d with
        model := d.model.openScope kind parent (n + 1) owner.span
        scopeOf := (owner.number, d.model.scopes.size) :: d.scopeOf }
      { e with
        model := e.model.openScope kind (f parent) (n + 1) owner.span
        scopeOf := (owner.number, e.model.scopes.size) :: e.scopeOf } := by
  have hdepth' : depth? e.model.scopes (f parent) = some n :=
    (h.model.scopes.depth parent hparent).trans hdepth
  have hsound := Sound.openScope (o := { maxDepth := low }) h.soundLow hkind parent owner
  have hsound' := Sound.openScope (o := { maxDepth := high }) h.soundHigh hkind (f parent) owner
  rw [openScope_of_depth? hdepth, if_neg (Nat.not_lt.2 hlow)] at hsound
  rw [openScope_of_depth? hdepth', if_neg (Nat.not_lt.2 hhigh)] at hsound'
  constructor
  case soundLow => exact hsound
  case soundHigh => exact hsound'
  case model => exact h.model.openScope h.soundLow.wellFormed.nested hparent
  case scopeOf =>
    intro m hm hhides
    by_cases hnumber : m.number = owner.number
    · simp [scopeOf?, hnumber]
    · have hbeq : (m.number == owner.number) = false := by simpa using hnumber
      have hold := h.scopeOf m hm hhides
      simp only [scopeOf?, List.lookup_cons, hbeq] at hold ⊢
      rw [hold]
      apply Option.map_congr
      intro i hi
      have hlt := h.soundLow.opened _ (mem_of_scopeOf? hi)
      exact (Function.update_of_ne (Nat.ne_of_lt hlt) ..).symm
  case declared => exact h.declared
  case truncated => exact h.truncated

/-- Only `e` goes through a scope that lies too deep for `d`. -/
lemma Embeds.scope_right {owner : Node} {inner : List Outline} {bs : List Node}
    (he : Embeds root f low high d e) {kind : ScopeKind} (hkind : kind ≠ .global)
    (hinner : Laid owner inner bs) (howner : owner ∈ root.preorder) {scope scope' : Nat}
    (hscope : Renumbers f d.model.scopes.size scope scope')
    (hdepth : depth? d.model.scopes scope = some low) (around : Nat) (exports : Option Nat) :
    Embeds root f low high { d with truncated := owner.number :: d.truncated }
      (run { o with maxDepth := high } scope' around exports (.scope kind owner inner) e) := by
  have hopened := (he.truncate owner.number).openScope_right (o := o) hkind scope' howner
    (hides_truncate howner owner.self_mem_preorder)
  simp only [run]
  generalize hopen : e.openScope { o with maxDepth := high } kind scope' owner = r at hopened
  obtain ⟨id | id, e'⟩ := r
  · exact hopened
  · obtain rfl := eq_size_of_openScope hopen
    refine runAll_right hinner howner (fun n hn => hides_truncate howner hn) ?_ ?_ hopened
    · intro i hi
      exact Nat.ne_of_lt (he.model.scopes.lt i hi)
    · intro i hi hsame
      rw [he.model.scopes.inj i hi scope hscope.1 (hsame.trans hscope.2.symm)]
      exact hdepth

lemma foldl_exportName_scopes (names : List String) (scope : Nat) (m : Model) :
    (names.foldl (Model.exportName scope) m).scopes = m.scopes := by
  induction names generalizing m with
  | nil => rfl
  | cons name names ih => rw [List.foldl_cons, ih, Model.exportName_scopes]

/-- Both go through items in the same scope. -/
lemma Embeds.runAll {h : Node} {xs : List Outline} {as : List Node} (hx : Laid h xs as)
    (hh : h ∈ root.preorder) (hle : low ≤ high) {scope scope' around around' : Nat}
    (hscope : Renumbers f d.model.scopes.size scope scope')
    (haround : Renumbers f d.model.scopes.size around around')
    {exports exports' : Option Nat} (he : Embeds root f low high d e) :
    ∃ f', Extends f f' d.model.scopes.size
        (Draft.runAll { o with maxDepth := low } scope around exports xs d).model.scopes.size ∧
      Embeds root f' low high (Draft.runAll { o with maxDepth := low } scope around exports xs d)
        (Draft.runAll { o with maxDepth := high } scope' around' exports' xs e) := by
  -- `f` is extended by each scope that both open, and the scopes at hand stay matched
  induction hx generalizing f d e scope scope' around around' exports exports' with
  | nil h =>
    simp only [Draft.runAll]
    exact ⟨f, extends_of_eq f rfl, he⟩
  | @declare _ x _ _ _ _ ih =>
    obtain ⟨hext₁, he₁⟩ := he.declare_renumbered (o := o) hscope exports exports' x
    simp only [Draft.runAll, run]
    obtain ⟨f₂, hext₂, he₂⟩ := ih hh (hscope.extend hext₁) (haround.extend hext₁) he₁
    exact ⟨f₂, hext₁.trans hext₂, he₂⟩
  | @declareOutside _ x _ _ _ _ ih =>
    obtain ⟨hext₁, he₁⟩ := he.declare_renumbered (o := o) haround exports exports' x
    simp only [Draft.runAll, run]
    obtain ⟨f₂, hext₂, he₂⟩ := ih hh (hscope.extend hext₁) (haround.extend hext₁) he₁
    exact ⟨f₂, hext₁.trans hext₂, he₂⟩
  | @exportNames _ names _ _ _ ih =>
    have hext₁ : Extends f f d.model.scopes.size
        (names.foldl (Model.exportName scope) d.model).scopes.size :=
      extends_of_eq f (by rw [foldl_exportName_scopes])
    have he₁ := (he.exportNames_left scope names).exportNames_right scope' names
    simp only [Draft.runAll, run]
    obtain ⟨f₂, hext₂, he₂⟩ := ih hh (hscope.extend hext₁) (haround.extend hext₁) he₁
    exact ⟨f₂, hext₁.trans hext₂, he₂⟩
  | exporting _ _ _ ihinner ih =>
    simp only [Draft.runAll, run]
    obtain ⟨f₁, hext₁, he₁⟩ := ihinner hh hscope haround he
    obtain ⟨f₂, hext₂, he₂⟩ := ih hh (hscope.extend hext₁) (haround.extend hext₁) he₁
    exact ⟨f₂, hext₁.trans hext₂, he₂⟩
  | node hn _ _ _ _ ihinner ih =>
    simp only [Draft.runAll, run]
    obtain ⟨f₁, hext₁, he₁⟩ := ihinner (Node.mem_preorder_trans hn hh) hscope haround he
    obtain ⟨f₂, hext₂, he₂⟩ := ih hh (hscope.extend hext₁) (haround.extend hext₁) he₁
    exact ⟨f₂, hext₁.trans hext₂, he₂⟩
  | @scope h owner kind inner _ _ _ hkind howns hinner _ _ _ ihinner ih =>
    have howner : owner ∈ root.preorder := Node.mem_preorder_trans howns.mem hh
    obtain ⟨n, hdepth⟩ := exists_depth? hscope.1
    have hdepth' : depth? e.model.scopes scope' = some n := by
      rw [← hscope.2, he.model.scopes.depth scope hscope.1, hdepth]
    simp only [Draft.runAll]
    by_cases hlow : low < n + 1
    · -- the scope at hand is right at the limit, which is all that `scope_right` asks for
      have hn : n = low :=
        Nat.le_antisymm (he.soundLow.wellFormed.nested.depth_le hdepth) (Nat.le_of_lt_succ hlow)
      have hrun : run { o with maxDepth := low } scope around exports (.scope kind owner inner) d
          = { d with truncated := owner.number :: d.truncated } := by
        simp only [run, openScope_of_depth? hdepth, if_pos hlow]
      have he₁ := he.scope_right (o := o) hkind hinner howner hscope (hn ▸ hdepth) around' exports'
      rw [hrun]
      exact ih (d := { d with truncated := owner.number :: d.truncated }) hh hscope haround he₁
    · have hhigh : ¬ high < n + 1 := fun hlt => hlow (Nat.lt_of_le_of_lt hle hlt)
      have hext₁ : Extends f (Function.update f d.model.scopes.size e.model.scopes.size)
          d.model.scopes.size (d.model.openScope kind scope (n + 1) owner.span).scopes.size := by
        rw [Model.openScope_scopes_size]
        exact extends_update ..
      have hnew : Renumbers (Function.update f d.model.scopes.size e.model.scopes.size)
          (d.model.openScope kind scope (n + 1) owner.span).scopes.size
          d.model.scopes.size e.model.scopes.size := by
        rw [Model.openScope_scopes_size]
        exact ⟨Nat.lt_succ_self _, Function.update_self ..⟩
      have he₁ := he.openScope hkind hscope.1 hdepth (Nat.not_lt.1 hlow) (Nat.not_lt.1 hhigh) owner
      rw [hscope.2] at he₁
      simp only [run, openScope_of_depth? hdepth, openScope_of_depth? hdepth', if_neg hlow,
        if_neg hhigh]
      obtain ⟨f₂, hext₂, he₂⟩ := ihinner howner hnew (hscope.extend hext₁) he₁
      have hext₁₂ := hext₁.trans hext₂
      obtain ⟨f₃, hext₃, he₃⟩ := ih hh (hscope.extend hext₁₂) (haround.extend hext₁₂) he₂
      exact ⟨f₃, hext₁₂.trans hext₃, he₃⟩

lemma embeds_start (o : Options) (root : Node) (low high : Nat) :
    Embeds root id low high ((start root).declareBuiltins { o with maxDepth := low })
      ((start root).declareBuiltins { o with maxDepth := high }) := by
  have htruncated : ((start root).declareBuiltins { o with maxDepth := high }).truncated = [] := by
    rw [declareBuiltins]
    split_ifs <;> rfl
  constructor
  case soundLow => exact sound_start { o with maxDepth := low } root
  case soundHigh => exact sound_start { o with maxDepth := high } root
  case model => exact Model.embeds_refl _
  case scopeOf =>
    intro n _ _
    exact Option.map_id'.symm
  case declared =>
    intro n _ _
    rfl
  case truncated =>
    intro n _ hn
    simp [isTruncated, htruncated] at hn

/-- A lower limit keeps some of the scopes and loses some of the classes. -/
lemma exists_embeds_ofRoot (o : Options) (hle : low ≤ high) (root : Node) :
    ∃ f, Embeds root f low high (ofRoot { o with maxDepth := low } root)
      (ofRoot { o with maxDepth := high } root) := by
  have hstart := embeds_start o root low high
  have hglobal : Renumbers id
      ((start root).declareBuiltins { o with maxDepth := low }).model.scopes.size
      Model.globalScope Model.globalScope := ⟨hstart.soundLow.wellFormed.nested.nonempty, rfl⟩
  obtain ⟨f, -, hf⟩ := hstart.runAll (o := o) (laid_outline root root.self_mem_preorder)
    root.self_mem_preorder hle hglobal hglobal
  exact ⟨f, hf⟩

end Draft

end Arbor.Symbols
