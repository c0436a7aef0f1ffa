import Arbor.Proofs.Symbols.Builtins
import Arbor.Proofs.Symbols.Records

/-!
# Parts of the analysis that can be switched off

The uses of names and the notes on hidden declarations are by-products: nothing else in the model
depends on them. Two analyses that differ in one of the two settings come to the same model, once
the by-product is dropped from both, and the analysis that is not asked for it has none.
-/

namespace Arbor.Symbols

namespace Model

/-- The model without the uses of names. -/
def withoutUses (m : Model) : Model :=
  { m with symbols := m.symbols.map fun s => { s with uses := #[] }, unresolved := #[] }

/-- The model without what is noted about hidden declarations. -/
def withoutShadowings (m : Model) : Model := { m with shadowings := #[] }

/-! ### Hidden declarations -/

/-- Where a symbol is put does not depend on what is noted. -/
lemma place_withShadowings (m : Model) (noted : Array Shadowing) (x : Symbol) :
    { m with shadowings := noted }.place x = { m.place x with shadowings := noted } := by
  simp only [place]
  cases m.scopes[x.scope]? with
  | none => rfl
  | some scope =>
    dsimp only
    cases scope.symbols.get? x.name <;> rfl

lemma withoutShadowings_insert (m : Model) (o : Options) (x : Symbol) :
    (m.insert o x).withoutShadowings =
      m.withoutShadowings.insert { o with shadowing := false } x := by
  simp only [insert, withoutShadowings, place_withShadowings]
  rfl

lemma withoutShadowings_exportName (m : Model) (scope : Nat) (name : String) :
    (m.exportName scope name).withoutShadowings =
      m.withoutShadowings.exportName scope name := by
  simp only [exportName, withoutShadowings]
  cases m.scopes[scope]?.bind (·.symbols.get? name) <;> rfl

lemma withoutShadowings_addUse (m : Model) (u : Occurrence) :
    (m.addUse u).withoutShadowings = m.withoutShadowings.addUse u := by
  have hid : m.withoutShadowings.resolveId? u.node.text u.scope =
      m.resolveId? u.node.text u.scope := rfl
  simp only [addUse, hid]
  cases m.resolveId? u.node.text u.scope <;> rfl

lemma withoutShadowings_foldl_addUse (us : List Occurrence) (m : Model) :
    (us.foldl addUse m).withoutShadowings = us.foldl addUse m.withoutShadowings :=
  (List.foldl_hom withoutShadowings fun m u => (withoutShadowings_addUse m u).symm).symm

end Model

namespace Draft

/-- The draft without what is noted about hidden declarations. -/
def withoutShadowings (d : Draft) : Draft := { d with model := d.model.withoutShadowings }

variable (o : Options)

/-- Two runs, of which one notes hidden declarations and the other does not, go side by side. -/
lemma kept_withoutShadowings :
    Kept o { o with shadowing := false } fun d d' => d' = d.withoutShadowings := by
  constructor
  case declare =>
    rintro d _ scope exports x rfl
    simp only [declare, withoutShadowings, Model.withoutShadowings_insert]
  case openScope =>
    rintro d _ kind parent owner - rfl
    have hscopes : d.withoutShadowings.model.scopes = d.model.scopes := rfl
    simp only [openScope, hscopes]
    cases d.model.scopes[parent]? with
    | none => exact ⟨rfl, rfl⟩
    | some around =>
      dsimp only
      split_ifs
      · exact ⟨rfl, rfl⟩
      · exact ⟨rfl, rfl⟩
  case exportName =>
    rintro d _ scope name rfl
    simp only [withoutShadowings, Model.withoutShadowings_exportName]

lemma withoutShadowings_declareBuiltins (d : Draft) :
    (d.declareBuiltins o).withoutShadowings =
      d.withoutShadowings.declareBuiltins { o with shadowing := false } := by
  have hfold : o.builtins.foldl (fun m name => m.insert { o with shadowing := false }
        (Model.platformSymbol name)) d.model.withoutShadowings =
      (o.builtins.foldl (fun m name => m.insert o (Model.platformSymbol name))
        d.model).withoutShadowings :=
    List.foldl_hom Model.withoutShadowings fun m name =>
      (m.withoutShadowings_insert o (Model.platformSymbol name)).symm
  simp only [declareBuiltins]
  split_ifs
  · exact congrArg (fun m => { d with model := m }) hfold.symm
  · rfl

/-- The declarations of a program are the same, whether hidden ones are noted or not. -/
theorem ofRoot_withoutShadowings (root : Node) :
    ofRoot { o with shadowing := false } root = (ofRoot o root).withoutShadowings := by
  refine (kept_withoutShadowings o).ofRoot root ?_
  rw [withoutShadowings_declareBuiltins]
  rfl

/-- The declarations of a program are the same, whether uses are looked for or not. -/
lemma ofRoot_references (b : Bool) (root : Node) :
    ofRoot { o with references := b } root = ofRoot o root := by
  have hkept : Kept o { o with references := b } fun d d' => d' = d := by
    constructor
    case declare =>
      rintro d _ scope exports x rfl
      rfl
    case openScope =>
      rintro d _ kind parent owner - rfl
      exact ⟨rfl, rfl⟩
    case exportName =>
      rintro d _ scope name rfl
      rfl
  exact hkept.ofRoot root rfl

/-- Nothing is used before the uses are looked for. -/
lemma Sound.withoutUses {d : Draft} {limit : Nat} (h : d.Sound limit) :
    d.model.withoutUses = d.model := by
  have hsymbols : d.model.symbols.map (fun s => { s with uses := #[] }) = d.model.symbols := by
    rw [Array.map_congr_left (g := fun s => s) fun s hs => by rw [← h.unused s hs]]
    exact Array.map_id' _
  rw [Model.withoutUses, hsymbols, ← h.unresolved]

/-- Looking for the uses adds them and changes nothing else. -/
lemma Sound.withoutUses_foldl_addUse {d : Draft} {limit : Nat} (h : d.Sound limit) (root : Node) :
    ((occurrences d root Model.globalScope).foldl Model.addUse d.model).withoutUses = d.model := by
  have hrecorded := h.recorded root
  rw [Model.withoutUses, hrecorded.scopes, hrecorded.shadowings, hrecorded.symbols, ← h.unresolved]

end Draft

/-- The uses of names do not depend on what is noted about hidden declarations. -/
lemma occurrences_withoutShadowings (d : Draft) (n : Node) (around : Nat) :
    occurrences d.withoutShadowings n around = occurrences d n around :=
  occurrences_withModel d _ n around

lemma withoutUses_analyze (o : Options) (root : Node) (b : Bool) :
    (analyze { o with references := b } root).withoutUses =
      analyze { o with references := false } root := by
  have hsound := Draft.sound_ofRoot o root
  simp only [analyze, Draft.ofRoot_references]
  cases b with
  | true => exact hsound.withoutUses_foldl_addUse root
  | false => exact hsound.withoutUses

lemma withoutShadowings_analyze (o : Options) (root : Node) (b : Bool) :
    (analyze { o with shadowing := b } root).withoutShadowings =
      analyze { o with shadowing := false } root := by
  have hdraft : Draft.ofRoot { o with shadowing := false } root =
      (Draft.ofRoot { o with shadowing := b } root).withoutShadowings :=
    Draft.ofRoot_withoutShadowings { o with shadowing := b } root
  simp only [analyze, hdraft]
  split_ifs
  · rw [Model.withoutShadowings_foldl_addUse, occurrences_withoutShadowings]
    rfl
  · rfl

/-- Neither of the two settings interferes with the rest of the analysis. But for the uses, the
model is the same whether they are looked for or not, and there are none in it if they are not. But
for what is noted about hidden declarations, it is the same whether this is asked for or not, and
nothing is noted if it is not. -/
theorem analyze_toggles (o : Options) (root : Node) :
    (∀ b, (analyze { o with references := b } root).withoutUses =
      analyze { o with references := false } root) ∧
    (∀ x ∈ (analyze { o with references := false } root).symbols, x.uses = #[]) ∧
    (analyze { o with references := false } root).unresolved = #[] ∧
    (∀ b, (analyze { o with shadowing := b } root).withoutShadowings =
      analyze { o with shadowing := false } root) ∧
    (analyze { o with shadowing := false } root).shadowings = #[] := by
  refine ⟨withoutUses_analyze o root, ?_, ?_, withoutShadowings_analyze o root, ?_⟩
  · intro x hx
    rw [← withoutUses_analyze o root false] at hx
    obtain ⟨y, -, rfl⟩ := Array.mem_map.1 hx
    rfl
  · rw [← withoutUses_analyze o root false]
    rfl
  · rw [← withoutShadowings_analyze o root false]
    rfl

end Arbor.Symbols
