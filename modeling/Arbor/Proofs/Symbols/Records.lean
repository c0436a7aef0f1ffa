import Arbor.Proofs.Symbols.Visits

/-!
# Every use is recorded once

After the declarations, the walk over the uses adds to the model one record for each use and nothing
else. A use goes to the symbol that its name stands for in its scope, or to the unresolved uses. It
is a write just in case the walk came to it as to something that is written to.
-/

namespace Arbor.Symbols

namespace Model

variable {m : Model} {limit : Nat}

/-- The number of uses that a model records. -/
def recorded (m : Model) : Nat :=
  m.symbols.toList.foldr (fun s total => s.uses.size + total) 0 + m.unresolved.size

/-- What a symbol keeps of a use. -/
def useOf (u : Occurrence) : Use := ⟨u.node.span, u.kind⟩

/-- What is kept of a use of a name that stands for nothing. -/
def unresolvedOf (u : Occurrence) : Unresolved := ⟨u.node.text, u.node.span, u.scope⟩

/-- The symbol that a use stands for. -/
def idOf? (m : Model) (u : Occurrence) : Option Nat := m.resolveId? u.node.text u.scope

@[simp]
lemma idOf?_addUse (m : Model) (u v : Occurrence) : (m.addUse u).idOf? v = m.idOf? v := by
  simp only [idOf?, resolveId?, chain, addUse_scopes]

lemma addUse_symbols (m : Model) (u : Occurrence) (k : Nat) :
    (m.addUse u).symbols[k]? = m.symbols[k]?.map fun s =>
      if m.idOf? u = some k then { s with uses := s.uses.push (useOf u) } else s := by
  rw [addUse, idOf?]
  cases hid : m.resolveId? u.node.text u.scope with
  | none => simp
  | some id =>
    simp only [Array.getElem?_modify]
    by_cases hk : id = k <;> simp [hk, useOf]

lemma addUse_unresolved (m : Model) (u : Occurrence) :
    (m.addUse u).unresolved
      = if m.idOf? u = none then m.unresolved.push (unresolvedOf u) else m.unresolved := by
  rw [addUse, idOf?]
  cases hid : m.resolveId? u.node.text u.scope <;> simp [unresolvedOf]

/-! ### One use after the other -/

lemma foldl_addUse_scopes (us : List Occurrence) (m : Model) :
    (us.foldl addUse m).scopes = m.scopes := by
  induction us generalizing m with
  | nil => rfl
  | cons u us ih => rw [List.foldl_cons, ih, addUse_scopes]

lemma foldl_addUse_shadowings (us : List Occurrence) (m : Model) :
    (us.foldl addUse m).shadowings = m.shadowings := by
  induction us generalizing m with
  | nil => rfl
  | cons u us ih => rw [List.foldl_cons, ih, addUse_shadowings]

lemma idOf?_foldl_addUse (us : List Occurrence) (m : Model) (v : Occurrence) :
    (us.foldl addUse m).idOf? v = m.idOf? v := by
  simp only [idOf?, resolveId?, chain, foldl_addUse_scopes]

/-- Each symbol gets the uses that stand for it, in their order. -/
lemma foldl_addUse_symbols (us : List Occurrence) (m : Model) (k : Nat) :
    (us.foldl addUse m).symbols[k]? = m.symbols[k]?.map fun s =>
      { s with
        uses := s.uses ++ ((us.filter fun u => m.idOf? u == some k).map useOf).toArray } := by
  induction us generalizing m with
  | nil => simp
  | cons u us ih =>
    -- uses change no scope, so the later ones stand for the same symbols as before
    rw [List.foldl_cons, ih, addUse_symbols, Option.map_map]
    congr 1
    funext s
    by_cases hk : m.idOf? u = some k <;> simp [hk]

/-- The unresolved uses get those whose names stand for nothing, in their order. -/
lemma foldl_addUse_unresolved (us : List Occurrence) (m : Model) :
    (us.foldl addUse m).unresolved.toList
      = m.unresolved.toList ++ (us.filter fun u => (m.idOf? u).isNone).map unresolvedOf := by
  induction us generalizing m with
  | nil => simp
  | cons u us ih =>
    rw [List.foldl_cons, ih, addUse_unresolved]
    cases hu : m.idOf? u <;> simp [hu]

/-! ### Counting -/

lemma foldr_modify (ss : List Symbol) {k : Nat} (hk : k < ss.length) (use : Use) :
    (ss.modify k fun s => { s with uses := s.uses.push use }).foldr
        (fun s total => s.uses.size + total) 0
      = ss.foldr (fun s total => s.uses.size + total) 0 + 1 := by
  induction ss generalizing k with
  | nil => exact absurd hk (Nat.not_lt_zero k)
  | cons s ss ih =>
    cases k with
    | zero =>
      simp only [List.modify_zero_cons, List.foldr_cons, Array.size_push]
      omega
    | succ k =>
      simp only [List.modify_succ_cons, List.foldr_cons, ih (Nat.lt_of_succ_lt_succ hk)]
      omega

/-- A use adds one record. -/
lemma recorded_addUse (h : m.WellFormed limit) (u : Occurrence) :
    (m.addUse u).recorded = m.recorded + 1 := by
  rw [addUse]
  cases hid : m.resolveId? u.node.text u.scope with
  | none =>
    simp only [recorded, Array.size_push]
    omega
  | some k =>
    obtain ⟨j, hj⟩ := exists_idAt?_of_resolveId? h.nested hid
    obtain ⟨x, hx, -⟩ := h.indexed.idAt?_eq_some_iff.1 hj
    obtain ⟨hk, -⟩ := Array.getElem?_eq_some_iff.1 hx
    simp only [recorded, Array.toList_modify, foldr_modify m.symbols.toList (by simpa using hk)]
    omega

lemma recorded_foldl_addUse (us : List Occurrence) {m : Model} (h : m.WellFormed limit) :
    (us.foldl addUse m).recorded = m.recorded + us.length := by
  induction us generalizing m with
  | nil => rfl
  | cons u us ih =>
    rw [List.foldl_cons, ih (h.addUse u), recorded_addUse h, List.length_cons]
    omega

lemma recorded_eq_zero (hsymbols : ∀ x ∈ m.symbols, x.uses = #[])
    (hunresolved : m.unresolved = #[]) : m.recorded = 0 := by
  have hfold : ∀ ss : List Symbol, (∀ x ∈ ss, x.uses = #[]) →
      ss.foldr (fun s total => s.uses.size + total) 0 = 0 := by
    intro ss hss
    induction ss with
    | nil => rfl
    | cons s ss ih =>
      rw [List.foldr_cons, ih fun x hx => hss x (List.mem_cons_of_mem s hx),
        hss s List.mem_cons_self]
      rfl
  rw [recorded, hfold m.symbols.toList (by simpa using hsymbols), hunresolved]
  rfl

end Model

/-! ### The whole walk -/

/-- The visits to names that declare nothing. -/
def nameVisits (d : Draft) (root : Node) : List Visit :=
  (visits d root).filter fun v => d.isUse v.node

/-- The model `m` is that of the draft, and besides it holds one record for each visit to a name
that declares nothing. -/
structure Recorded (d : Draft) (root : Node) (m : Model) : Prop where
  scopes : m.scopes = d.model.scopes
  shadowings : m.shadowings = d.model.shadowings
  /-- But for their uses, the symbols are those of the draft, where they have none. -/
  symbols : m.symbols.map (fun s => { s with uses := #[] }) = d.model.symbols
  /-- A symbol is used by the visits in whose scope the name stands for it. -/
  uses : ∀ {k : Nat} {s : Symbol}, m.symbols[k]? = some s →
    s.uses.toList = (((nameVisits d root).map (Visit.use d)).filter fun u =>
      m.resolveId? u.node.text u.scope == some k).map fun u => ⟨u.node.span, u.kind⟩
  /-- The other visits, where the name stands for nothing, are unresolved. -/
  unresolved : m.unresolved.toList = (((nameVisits d root).map (Visit.use d)).filter fun u =>
      (m.resolve? u.node.text u.scope).isNone).map fun u => ⟨u.node.text, u.node.span, u.scope⟩
  total : m.recorded = (nameVisits d root).length
  /-- A write is what the walk comes to from a node that writes to the name. -/
  written : ∀ v ∈ nameVisits d root, (v.use d).kind = .write ↔
    ∃ w ∈ visits d root, v ∈ w.next d ∧ v.writer = some w.node ∧ Writes w.node v.node
  /-- A read comes from a node that holds the name otherwise, or the program is the name. -/
  read : ∀ v ∈ nameVisits d root, (v.use d).kind = .read →
    v.node = root ∨ ∃ w ∈ visits d root, v ∈ w.next d ∧ Holds w.node v.node
  /-- Unless two fields of a node name one child, the tree tells the writes. -/
  writes : root.FieldsDistinct → ∀ v ∈ nameVisits d root,
    (v.use d).kind = .write ↔ ∃ p ∈ root.preorder, Writes p v.node

lemma Visit.use_kind_eq_write_iff {d : Draft} {v : Visit} :
    (v.use d).kind = .write ↔ v.writer.isSome = true := by
  cases hwriter : v.writer <;> simp [Visit.use, hwriter]

lemma Visit.use_kind_eq_read_iff {d : Draft} {v : Visit} :
    (v.use d).kind = .read ↔ v.writer = none := by
  cases hwriter : v.writer <;> simp [Visit.use, hwriter]

/-- Each visit but the first comes from another visit, as what is written to or as another part. -/
lemma visit_cases {d : Draft} {root : Node} {v : Visit} (hv : v ∈ visits d root) :
    (v.writer = none ∧ v.node = root) ∨ ∃ w ∈ visits d root, v ∈ w.next d ∧
      ((v.writer = some w.node ∧ Writes w.node v.node) ∨
        (v.writer = none ∧ Holds w.node v.node)) := by
  obtain ⟨hcut, hv⟩ := mem_visits.1 hv
  rcases exists_of_mem_walk hv with rfl | ⟨w, hw, hnext⟩
  · exact .inl ⟨rfl, rfl⟩
  · refine .inr ⟨w, mem_visits.2 ⟨hcut, hw⟩, hnext, ?_⟩
    obtain ⟨-, -, ⟨hwriter, hwrites, -⟩ | hholds⟩ := Visit.mem_next_iff.1 hnext
    · exact .inl ⟨hwriter, hwrites⟩
    · exact .inr hholds

lemma Draft.Sound.recorded {d : Draft} {limit : Nat} (h : d.Sound limit) (root : Node) :
    Recorded d root ((occurrences d root Model.globalScope).foldl Model.addUse d.model) := by
  have huses : occurrences d root Model.globalScope = (nameVisits d root).map (Visit.use d) :=
    occurrences_eq d root Model.globalScope
  rw [huses]
  have hid := Model.idOf?_foldl_addUse ((nameVisits d root).map (Visit.use d)) d.model
  have hsymbols := Model.foldl_addUse_symbols ((nameVisits d root).map (Visit.use d)) d.model
  have hempty {k : Nat} {s : Symbol} (hs : d.model.symbols[k]? = some s) : s.uses = #[] :=
    h.unused s (Array.mem_of_getElem? hs)
  have hwell :
      (((nameVisits d root).map (Visit.use d)).foldl Model.addUse d.model).WellFormed limit :=
    List.foldlRecOn _ _ h.wellFormed fun _ hm u _ => hm.addUse u
  constructor
  case scopes => exact Model.foldl_addUse_scopes ..
  case shadowings => exact Model.foldl_addUse_shadowings ..
  case symbols =>
    apply Array.ext_getElem?
    intro k
    -- Uses are all that a symbol gains, and before the second pass it had none.
    rw [Array.getElem?_map, hsymbols]
    cases hs : d.model.symbols[k]? with
    | none => rfl
    | some s => simp [← hempty hs]
  case uses =>
    intro k s hs
    rw [hsymbols] at hs
    obtain ⟨x, hx, rfl⟩ := Option.map_eq_some_iff.1 hs
    simp only [hempty hx, Array.empty_append, ← hid]
    rfl
  case unresolved =>
    -- Whether a name is known does not depend on the uses that have been added.
    have hnone (u : Occurrence) :
        ((((nameVisits d root).map (Visit.use d)).foldl Model.addUse d.model).resolve? u.node.text
            u.scope).isNone = (d.model.idOf? u).isNone := by
      rw [Bool.eq_iff_iff, Option.isNone_iff_eq_none, Option.isNone_iff_eq_none,
        Model.resolve?_eq_none_iff hwell, ← hid]
      rfl
    rw [Model.foldl_addUse_unresolved, h.unresolved]
    simp only [hnone]
    rfl
  case total =>
    rw [Model.recorded_foldl_addUse _ h.wellFormed,
      Model.recorded_eq_zero h.unused h.unresolved, List.length_map, Nat.zero_add]
  case written =>
    intro v hv
    rw [Visit.use_kind_eq_write_iff]
    constructor
    · intro hwriter
      -- A node that the walk writes to was not the first, so that another led to it.
      rcases visit_cases (List.mem_filter.1 hv).1 with ⟨hnone, -⟩ | ⟨w, hw, hnext, hcases⟩
      · simp [hnone] at hwriter
      · rcases hcases with ⟨hsome, hwrites⟩ | ⟨hnone, -⟩
        · exact ⟨w, hw, hnext, hsome, hwrites⟩
        · simp [hnone] at hwriter
    · rintro ⟨w, -, -, hsome, -⟩
      simp [hsome]
  case read =>
    intro v hv hkind
    rw [Visit.use_kind_eq_read_iff] at hkind
    rcases visit_cases (List.mem_filter.1 hv).1 with ⟨-, hroot⟩ | ⟨w, hw, hnext, hcases⟩
    · exact .inl hroot
    · rcases hcases with ⟨hsome, -⟩ | ⟨-, hholds⟩
      · simp [hkind] at hsome
      · exact .inr ⟨w, hw, hnext, hholds⟩
  case writes =>
    intro hfields v hv
    rw [Visit.use_kind_eq_write_iff]
    exact writer_isSome_iff hfields (List.mem_filter.1 hv).1

lemma analyze_scopes (o : Options) (root : Node) :
    (analyze o root).scopes = (Draft.ofRoot o root).model.scopes := by
  rw [analyze]
  split_ifs
  · exact Model.foldl_addUse_scopes ..
  · rfl

lemma analyze_shadowings (o : Options) (root : Node) :
    (analyze o root).shadowings = (Draft.ofRoot o root).model.shadowings := by
  rw [analyze]
  split_ifs
  · exact Model.foldl_addUse_shadowings ..
  · rfl

/-- The uses of names add one record for each visit to a name that declares nothing, and nothing
else; if they are not asked for, there are none. -/
theorem analyze_recorded (o : Options) (root : Node) :
    if o.references then Recorded (Draft.ofRoot o root) root (analyze o root)
    else (analyze o root).unresolved = #[] ∧ ∀ x ∈ (analyze o root).symbols, x.uses = #[] := by
  have hsound := Draft.sound_ofRoot o root
  simp only [analyze]
  split_ifs
  · exact hsound.recorded root
  · exact ⟨hsound.unresolved, hsound.unused⟩

end Arbor.Symbols
