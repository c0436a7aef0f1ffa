import Arbor.Proofs.Symbols.Visits

/-!
# Names that the platform declares

Declaring the names of the platform in advance changes little. The two analyses, with these names
and without them, run side by side: their scopes and what they say of hidden declarations are the
same, a declaration of the program leads to the same symbol with the same uses, and the only uses
that are no longer unresolved are those of names of the platform.
-/

namespace Arbor.Symbols

namespace Model

/-- The model `on` is like `off`, but for symbols of the platform. These stand in the global scope,
under the given names, and the uses of these names are not unresolved. -/
structure Silenced (names : List String) (on off : Model) : Prop where
  frames : on.scopes.map Scope.frame = off.scopes.map Scope.frame
  shadowings : on.shadowings = off.shadowings
  /-- Under a name that the program declares in a scope, there is the same symbol. -/
  own : ∀ i name, (on.symbolAt? i name).filter (!·.builtin) = off.symbolAt? i name
  builtin : ∀ {i : Nat} {name : String} {x : Symbol}, on.symbolAt? i name = some x →
    x.builtin = true → i = globalScope ∧ name ∈ names
  declared : ∀ name ∈ names, on.symbolAt? globalScope name ≠ none
  unresolved : on.unresolved.toList = off.unresolved.toList.filter (·.name ∉ names)

variable {names : List String} {on off : Model} {limit : Nat}

lemma Silenced.size_eq (h : Silenced names on off) : on.scopes.size = off.scopes.size := by
  simpa using congrArg Array.size h.frames

lemma Silenced.frame_eq (h : Silenced names on off) (i : Nat) :
    on.scopes[i]?.map Scope.frame = off.scopes[i]?.map Scope.frame := by
  rw [← Array.getElem?_map, h.frames, Array.getElem?_map]

lemma Silenced.around?_eq (h : Silenced names on off) (i : Nat) :
    around? on.scopes i = around? off.scopes i := by
  rw [Model.around?_eq, h.frame_eq, ← Model.around?_eq]

/-- A name stands for the same declaration of the program, or for nothing but a symbol of the
platform. -/
lemma Silenced.resolve?_eq (h : Silenced names on off) (hon : on.WellFormed limit)
    (hoff : off.WellFormed limit) (name : String) (i : Nat) :
    (on.resolve? name i).filter (!·.builtin) = off.resolve? name i := by
  induction i using outward_induction hon.nested with
  | step i ih =>
    rw [Model.resolve?_eq hon, Model.resolve?_eq hoff, ← h.own, ← h.around?_eq]
    cases hat : on.symbolAt? i name with
    | none =>
      cases haround : around? on.scopes i with
      | none => rfl
      | some j => exact ih j haround
    | some x =>
      cases hx : x.builtin with
      | false => simp [hx, Option.filter_some]
      | true =>
        -- around the global scope there is nothing
        have hout : around? on.scopes i = none := by
          cases haround : around? on.scopes i with
          | none => rfl
          | some j =>
            have hlt := around?_lt hon.nested haround
            rw [(h.builtin hat hx).1] at hlt
            exact absurd hlt (Nat.not_lt_zero j)
        simp [hx, hout, Option.filter_some]

/-- A name stands for nothing in both, for the same declaration of the program, or in one of them
for a symbol of the platform. -/
lemma Silenced.resolve?_cases (h : Silenced names on off) (hon : on.WellFormed limit)
    (hoff : off.WellFormed limit) (name : String) (i : Nat) :
    (on.resolve? name i = none ∧ off.resolve? name i = none) ∨
      (∃ x, on.resolve? name i = some x ∧ off.resolve? name i = some x) ∨
      ∃ x, on.resolve? name i = some x ∧ off.resolve? name i = none ∧ x.builtin = true ∧
        name ∈ names := by
  rw [← h.resolve?_eq hon hoff]
  cases hfound : on.resolve? name i with
  | none => exact .inl ⟨rfl, rfl⟩
  | some x =>
    cases hx : x.builtin with
    | false => exact .inr (.inl ⟨x, rfl, by simp [hx, Option.filter_some]⟩)
    | true =>
      have hname := (h.builtin (symbolAt?_of_resolve? hon hfound) hx).2
      exact .inr (.inr ⟨x, rfl, by simp [hx, Option.filter_some], hx, hname⟩)

/-! ### Operations -/

/-- What a symbol hides is what its name stands for in the scope around its own. -/
lemma shadowing?_eq (m : Model) (x : Symbol) :
    m.shadowing? x = if x.builtin || !x.isLexical then none
      else (around? m.scopes x.scope).bind fun p => (m.resolve? x.name p).bind fun hidden =>
        if hidden.builtin || hidden.scope == x.scope then none
        else some ⟨x.name, x.span, x.scope, hidden.span, hidden.scope⟩ := by
  rw [shadowing?, around?]
  cases m.scopes[x.scope]? <;> rfl

lemma Silenced.shadowing?_eq (h : Silenced names on off) (hon : on.WellFormed limit)
    (hoff : off.WellFormed limit) (x : Symbol) : on.shadowing? x = off.shadowing? x := by
  rw [Model.shadowing?_eq, Model.shadowing?_eq, h.around?_eq]
  congr 2
  funext p
  rw [← h.resolve?_eq hon hoff]
  cases on.resolve? x.name p with
  | none => rfl
  | some hidden => cases hhidden : hidden.builtin <;> simp [hhidden, Option.filter_some]

lemma insert_shadowings (m : Model) (o : Options) (x : Symbol) :
    (m.insert o x).shadowings
      = m.shadowings ++ if o.shadowing then (m.shadowing? x).toArray else #[] := by
  rw [insert]
  generalize m.shadowings ++ _ = found
  obtain hsame | ⟨k, -, hplace⟩ | ⟨scope, -, -, hplace⟩ :=
    place_cases { m with shadowings := found } x
  · rw [hsame]
  · rw [hplace]
  · rw [hplace, append]

/-- The program declares a symbol. -/
lemma Silenced.insert (h : Silenced names on off) (hon : on.WellFormed limit)
    (hoff : off.WellFormed limit) {o o' : Options} (ho : o.shadowing = o'.shadowing) {x : Symbol}
    (hx : x.builtin = false) : Silenced names (on.insert o x) (off.insert o' x) := by
  constructor
  case frames => rw [insert_frames, insert_frames, h.frames]
  case shadowings =>
    rw [insert_shadowings, insert_shadowings, h.shadowings, h.shadowing?_eq hon hoff, ho]
  case own =>
    intro i name
    rw [symbolAt?_insert hon.indexed, symbolAt?_insert hoff.indexed, h.size_eq]
    split_ifs
    · simp [hx, Option.filter_some]
    · exact h.own i name
  case builtin =>
    intro i name y hy hbuiltin
    rw [symbolAt?_insert hon.indexed] at hy
    split_ifs at hy
    · cases hy
      simp [hx] at hbuiltin
    · exact h.builtin hy hbuiltin
  case declared =>
    intro name hname
    rw [symbolAt?_insert hon.indexed]
    split_ifs
    · simp
    · exact h.declared name hname
  case unresolved => rw [insert_unresolved, insert_unresolved, h.unresolved]

/-- The platform declares a symbol. -/
lemma Silenced.insert_builtin (h : Silenced names on off) (hon : on.WellFormed limit)
    (hoff : off.unresolved = #[]) (o : Options) {x : Symbol} (hx : x.builtin = true)
    (hglobal : x.scope = globalScope) (hnone : off.symbolAt? globalScope x.name = none) :
    Silenced (names ++ [x.name]) (on.insert o x) off := by
  constructor
  case frames => rw [insert_frames, h.frames]
  case shadowings => simp [insert_shadowings, Model.shadowing?_eq, hx, h.shadowings]
  case own =>
    intro i name
    rw [symbolAt?_insert hon.indexed]
    split_ifs with hplace
    · obtain ⟨-, hscope, rfl⟩ := hplace
      rw [← hscope, hglobal, hnone]
      simp [hx, Option.filter_some]
    · exact h.own i name
  case builtin =>
    intro i name y hy hbuiltin
    rw [symbolAt?_insert hon.indexed] at hy
    split_ifs at hy with hplace
    · obtain ⟨-, rfl, rfl⟩ := hplace
      simp [hglobal]
    · obtain ⟨hi, hname⟩ := h.builtin hy hbuiltin
      exact ⟨hi, List.mem_append_left _ hname⟩
  case declared =>
    intro name hname
    rw [symbolAt?_insert hon.indexed]
    split_ifs with hplace
    · simp
    · rcases List.mem_append.1 hname with hname | hname
      · exact h.declared name hname
      · rw [List.mem_singleton.1 hname] at hplace
        exact absurd ⟨hon.nested.nonempty, hglobal, rfl⟩ hplace
  case unresolved => rw [insert_unresolved, h.unresolved, hoff]; rfl

lemma Silenced.openScope (h : Silenced names on off) {kind : ScopeKind} {parent depth : Nat}
    {span : Span} (hparent : parent < on.scopes.size) :
    Silenced names (on.openScope kind parent depth span)
      (off.openScope kind parent depth span) := by
  have hparent' : parent < off.scopes.size := h.size_eq ▸ hparent
  constructor
  case frames =>
    apply Array.ext_getElem?
    intro i
    have hframe := h.frame_eq i
    rw [Array.getElem?_map, Array.getElem?_map, openScope_getElem? hparent,
      openScope_getElem? hparent', h.size_eq]
    split_ifs
    · rfl
    · cases hs : on.scopes[i]? <;> cases ht : off.scopes[i]? <;> simp_all [Scope.frame]
    · simpa using hframe
  case shadowings => exact h.shadowings
  case own =>
    intro i name
    rw [symbolAt?_openScope hparent, symbolAt?_openScope hparent', h.own]
  case builtin =>
    intro i name x hx
    rw [symbolAt?_openScope hparent] at hx
    exact h.builtin hx
  case declared =>
    intro name hname
    rw [symbolAt?_openScope hparent]
    exact h.declared name hname
  case unresolved => exact h.unresolved

lemma exportName_shadowings (m : Model) (scope : Nat) (name : String) :
    (m.exportName scope name).shadowings = m.shadowings := by
  rw [exportName]
  split <;> rfl

lemma Silenced.exportName (h : Silenced names on off) (hon : on.WellFormed limit)
    (hoff : off.WellFormed limit) (scope : Nat) (name : String) :
    Silenced names (on.exportName scope name) (off.exportName scope name) := by
  constructor
  case frames => rw [exportName_scopes, exportName_scopes, h.frames]
  case shadowings => rw [exportName_shadowings, exportName_shadowings, h.shadowings]
  case own =>
    intro i other
    rw [symbolAt?_exportName hon.indexed, symbolAt?_exportName hoff.indexed, ← h.own]
    split_ifs
    · cases on.symbolAt? i other with
      | none => rfl
      | some x => cases hx : x.builtin <;> simp [hx, Option.filter_some]
    · rfl
  case builtin =>
    intro i other x hx hbuiltin
    rw [symbolAt?_exportName hon.indexed] at hx
    split_ifs at hx
    · obtain ⟨y, hy, rfl⟩ := Option.map_eq_some_iff.1 hx
      exact h.builtin hy hbuiltin
    · exact h.builtin hx hbuiltin
  case declared =>
    intro other hother
    rw [symbolAt?_exportName hon.indexed]
    split_ifs
    · simpa using h.declared other hother
    · exact h.declared other hother
  case unresolved => rw [exportName_unresolved, exportName_unresolved, h.unresolved]

lemma exists_symbolAt?_addUse {m : Model} (h : m.WellFormed limit) (u : Occurrence) (i : Nat)
    (name : String) : ∃ f : Symbol → Symbol, (∀ x, (f x).builtin = x.builtin) ∧
      (m.addUse u).symbolAt? i name = (m.symbolAt? i name).map f := by
  cases hfound : m.resolve? u.node.text u.scope with
  | none =>
    rw [addUse_of_resolve?_eq_none h hfound]
    exact ⟨fun x => x, fun _ => rfl, Option.map_id'.symm⟩
  | some x =>
    rw [symbolAt?_addUse h hfound]
    split_ifs
    · exact ⟨fun x => { x with uses := x.uses.push ⟨u.node.span, u.kind⟩ }, fun _ => rfl, rfl⟩
    · exact ⟨fun x => x, fun _ => rfl, Option.map_id'.symm⟩

/-- The platform declares its names, one after the other. -/
lemma Silenced.foldl_insert_builtin (h : Silenced names on off) (hon : on.WellFormed limit)
    (hoff : off.unresolved = #[]) (hnone : ∀ name, off.symbolAt? globalScope name = none)
    (o : Options) (more : List String) :
    Silenced (names ++ more)
      (more.foldl (fun m name => m.insert o (platformSymbol name)) on) off := by
  induction more generalizing names on with
  | nil =>
    rw [List.append_nil]
    exact h
  | cons name more ih =>
    have hone := h.insert_builtin (x := platformSymbol name) hon hoff o rfl rfl (hnone name)
    rw [List.append_cons]
    exact ih hone (hon.insert o _)

/-- The program uses a name. -/
lemma Silenced.addUse (h : Silenced names on off) (hon : on.WellFormed limit)
    (hoff : off.WellFormed limit) {u : Occurrence} (hu : u.scope < on.scopes.size) :
    Silenced names (on.addUse u) (off.addUse u) := by
  have hcases := h.resolve?_cases hon hoff u.node.text u.scope
  constructor
  case frames => rw [addUse_scopes, addUse_scopes, h.frames]
  case shadowings => rw [addUse_shadowings, addUse_shadowings, h.shadowings]
  case own =>
    intro i name
    -- The name is unknown to both, known to both, or one of the platform that only one knows.
    obtain ⟨hnone, hnone'⟩ | ⟨x, hx, hx'⟩ | ⟨x, hx, hnone, hbuiltin, -⟩ := hcases
    · rw [addUse_of_resolve?_eq_none hon hnone, addUse_of_resolve?_eq_none hoff hnone']
      exact h.own i name
    · rw [symbolAt?_addUse hon hx, symbolAt?_addUse hoff hx', ← h.own]
      split_ifs
      · exact Option.filter_map ..
      · rfl
    · rw [symbolAt?_addUse hon hx, addUse_of_resolve?_eq_none hoff hnone]
      refine Eq.trans ?_ (h.own i name)
      split_ifs with hplace
      · obtain ⟨rfl, rfl⟩ := hplace
        simp [symbolAt?_of_resolve? hon hx, Option.filter_some, hbuiltin]
      · rfl
  case builtin =>
    intro i name x hx hbuiltin
    obtain ⟨f, hf, hat⟩ := exists_symbolAt?_addUse hon u i name
    obtain ⟨y, hy, rfl⟩ := Option.map_eq_some_iff.1 (hat ▸ hx)
    exact h.builtin hy (hf y ▸ hbuiltin)
  case declared =>
    intro name hname
    obtain ⟨f, -, hat⟩ := exists_symbolAt?_addUse hon u globalScope name
    simpa [hat] using h.declared name hname
  case unresolved =>
    obtain ⟨hnone, hnone'⟩ | ⟨x, hx, hx'⟩ | ⟨x, hx, hnone, -, hname⟩ := hcases
    · -- A name of the platform is known wherever it is used.
      have hname : u.node.text ∉ names := by
        intro hname
        exact resolve?_ne_none_of_global hon (h.declared _ hname) hu hnone
      rw [addUse_of_resolve?_eq_none hon hnone, addUse_of_resolve?_eq_none hoff hnone']
      simp [h.unresolved, hname]
    · rw [addUse_unresolved_of_resolve? hx, addUse_unresolved_of_resolve? hx', h.unresolved]
    · rw [addUse_unresolved_of_resolve? hx, addUse_of_resolve?_eq_none hoff hnone, h.unresolved]
      simp [hname]

end Model

namespace Draft

/-- The drafts agree on the nodes of the tree, and the first has the names of the platform. -/
structure Silenced (names : List String) (limit : Nat) (on off : Draft) : Prop where
  soundOn : on.Sound limit
  soundOff : off.Sound limit
  nodes : on = { off with model := on.model }
  model : Model.Silenced names on.model off.model

variable (o : Options) {names : List String} {on off : Draft}

lemma Silenced.openScope (h : Silenced names o.maxDepth on off) {kind : ScopeKind}
    (hkind : kind ≠ .global) (parent : Nat) (owner : Node) :
    (on.openScope { o with includeBuiltins := true } kind parent owner).1
        = (off.openScope { o with includeBuiltins := false } kind parent owner).1 ∧
      Silenced names o.maxDepth
        (on.openScope { o with includeBuiltins := true } kind parent owner).2
        (off.openScope { o with includeBuiltins := false } kind parent owner).2 := by
  have hsoundOn : (on.openScope { o with includeBuiltins := true } kind parent owner).2.Sound
    o.maxDepth := h.soundOn.openScope hkind parent owner
  have hsoundOff : (off.openScope { o with includeBuiltins := false } kind parent owner).2.Sound
    o.maxDepth := h.soundOff.openScope hkind parent owner
  have hframe := h.model.frame_eq parent
  simp only [Draft.openScope] at hsoundOn hsoundOff ⊢
  cases hs : on.model.scopes[parent]? with
  | none =>
    have ht : off.model.scopes[parent]? = none := by simpa [hs] using hframe.symm
    rw [ht]
    exact ⟨rfl, h⟩
  | some s =>
    rw [hs, Option.map_some] at hframe
    obtain ⟨t, ht, hsame⟩ := Option.map_eq_some_iff.1 hframe.symm
    obtain ⟨hparent, -⟩ := Array.getElem?_eq_some_iff.1 hs
    have hdepth : t.depth = s.depth := by
      change t.frame.depth = s.frame.depth
      rw [hsame]
    simp only [hs, ht, hdepth, h.model.size_eq] at hsoundOn hsoundOff ⊢
    split_ifs at hsoundOn hsoundOff ⊢
    · refine ⟨rfl, hsoundOn, hsoundOff, ?_, h.model⟩
      rw [h.nodes]
    · refine ⟨rfl, hsoundOn, hsoundOff, ?_, h.model.openScope hparent⟩
      rw [h.nodes]

lemma kept_silenced (names : List String) : Kept { o with includeBuiltins := true }
    { o with includeBuiltins := false } (Silenced names o.maxDepth) := by
  constructor
  case declare =>
    intro on off scope exports x h
    refine ⟨h.soundOn.declare scope exports x, h.soundOff.declare scope exports x, ?_, ?_⟩
    · rw [h.nodes]
      rfl
    · exact h.model.insert h.soundOn.wellFormed h.soundOff.wellFormed rfl rfl
  case openScope =>
    intro on off kind parent owner hkind h
    exact h.openScope o hkind parent owner
  case exportName =>
    intro on off scope name h
    refine ⟨h.soundOn.exportName scope name, h.soundOff.exportName scope name, ?_, ?_⟩
    · rw [h.nodes]
    · exact h.model.exportName h.soundOn.wellFormed h.soundOff.wellFormed scope name

lemma silenced_start (root : Node) :
    Silenced o.builtins o.maxDepth ((start root).declareBuiltins { o with includeBuiltins := true })
      ((start root).declareBuiltins { o with includeBuiltins := false }) := by
  have hon := sound_start { o with includeBuiltins := true } root
  have hoff := sound_start { o with includeBuiltins := false } root
  have hempty (i : Nat) (name : String) : (start root).model.symbolAt? i name = none := by
    simp [start, Model.start, Model.symbolAt?]
  have hsame : Model.Silenced [] (start root).model (start root).model := by
    constructor
    case frames | shadowings | unresolved => rfl
    case own => simp [hempty]
    case builtin => simp [hempty]
    case declared => simp
  have hwell := Model.wellFormed_start o.maxDepth root.span
  exact ⟨hon, hoff, rfl, hsame.foldl_insert_builtin hwell rfl (hempty Model.globalScope)
    { o with includeBuiltins := true } o.builtins⟩

lemma silenced_ofRoot (root : Node) :
    Silenced o.builtins o.maxDepth (ofRoot { o with includeBuiltins := true } root)
      (ofRoot { o with includeBuiltins := false } root) :=
  (kept_silenced o o.builtins).ofRoot root (silenced_start o root)

end Draft

/-- The uses of names do not depend on the model, but on the nodes of the tree. -/
lemma occurrences_withModel (d : Draft) (m : Model) (n : Node) (around : Nat) :
    occurrences { d with model := m } n around = occurrences d n around := by
  have hbelow : (fun (c : Below n) scope => occurrences { d with model := m } c.1 scope)
      = fun c scope => occurrences d c.1 scope := by
    funext c scope
    exact occurrences_withModel d m c.1 scope
  rw [occurrences, hbelow, occurrences]
  rfl
termination_by n.size
decreasing_by exact c.2

lemma Model.Silenced.foldl_addUse {names : List String} {limit : Nat} {us : List Occurrence}
    {on off : Model} (h : Silenced names on off) (hon : on.WellFormed limit)
    (hoff : off.WellFormed limit) (hus : ∀ u ∈ us, u.scope < on.scopes.size) :
    Silenced names (us.foldl Model.addUse on) (us.foldl Model.addUse off) := by
  induction us generalizing on off with
  | nil => exact h
  | cons u us ih =>
    refine ih (h.addUse hon hoff (hus u List.mem_cons_self)) (hon.addUse u) (hoff.addUse u) ?_
    intro v hv
    rw [addUse_scopes]
    exact hus v (List.mem_cons_of_mem u hv)

/-- Declaring the names of the platform changes nothing but for the symbols under these names, and
silences their uses. -/
theorem analyze_silenced (o : Options) (root : Node) :
    Model.Silenced o.builtins (analyze { o with includeBuiltins := true } root)
      (analyze { o with includeBuiltins := false } root) := by
  have hdrafts := Draft.silenced_ofRoot o root
  have hsame : occurrences (Draft.ofRoot { o with includeBuiltins := true } root) root
      Model.globalScope = occurrences (Draft.ofRoot { o with includeBuiltins := false } root) root
      Model.globalScope := by
    rw [hdrafts.nodes, occurrences_withModel]
  simp only [analyze]
  split_ifs
  · rw [← hsame]
    apply hdrafts.model.foldl_addUse hdrafts.soundOn.wellFormed hdrafts.soundOff.wellFormed
    intro u hu
    exact hdrafts.soundOn.scope_lt_of_mem_occurrences hu
  · exact hdrafts.model

end Arbor.Symbols
