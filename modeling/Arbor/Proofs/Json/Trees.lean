import Arbor.Proofs.Height
import Arbor.Proofs.Json.RoundTrip
import Arbor.Tree.Json
import Mathlib.Data.List.Forall2

/-!
# The text of a tree

A tree is read back from its text, whatever its texts, its depth and the indices of its fields,
provided that its numbers fit into 64 bits. The reader as a whole also limits the nesting of its
input, and a tree passes that limit just in case it has no more than 63 levels.
-/

namespace Arbor

/-! ### Tables -/

namespace Table

variable {α : Type}

/-- An entry behind all others is placed at the end. -/
lemma place_eq_append {name : String} {value : α} {es : List (String × α)}
    (h : ∀ e ∈ es, e.1 < name) : place name value es = es ++ [(name, value)] := by
  induction es with
  | nil => rfl
  | cons e es ih =>
    have he : e.1 < name := h e List.mem_cons_self
    have hasymm : ¬ name < e.1 := fun hlt => String.lt_irrefl _ (String.lt_trans he hlt)
    rw [place, if_neg hasymm, if_pos he, ih fun d hd => h d (List.mem_cons_of_mem _ hd)]
    rfl

lemma entries_foldl_insert (es : List (String × α)) (t : Table α)
    (h : (t.entries ++ es).Pairwise fun a b => a.1 < b.1) :
    (es.foldl (fun t e => t.insert e.1 e.2) t).entries = t.entries ++ es := by
  induction es generalizing t with
  | nil => simp
  | cons e es ih =>
    have hlast : ∀ d ∈ t.entries, d.1 < e.1 := fun d hd =>
      (List.pairwise_append.1 h).2.2 d hd e List.mem_cons_self
    have hinsert : (t.insert e.1 e.2).entries = t.entries ++ [e] := place_eq_append hlast
    rw [List.foldl_cons, ih, hinsert, List.append_assoc]
    · rfl
    · rw [hinsert, List.append_assoc]
      exact h

/-- A table is the table of its entries. -/
lemma ofList_entries (t : Table α) : ofList t.entries = t :=
  Table.ext (entries_foldl_insert t.entries empty t.sorted)

end Table

/-! ### Numbers that fit -/

/-- The row and the column fit into 64 bits. -/
def Position.InWords (p : Position) : Prop := p.row < wordBound ∧ p.column < wordBound

namespace Tree

mutual

/-- All positions and all indices of fields in the tree fit into 64 bits. -/
def InWords : Tree → Prop
  | ⟨_, _, span, children, fields⟩ =>
    span.start.InWords ∧ span.stop.InWords ∧ (∀ e ∈ fields.entries, e.2 < wordBound) ∧
      InWordsAll children

/-- All numbers in several trees fit into 64 bits. -/
def InWordsAll : List Tree → Prop
  | [] => True
  | t :: ts => t.InWords ∧ InWordsAll ts

end

end Tree

/-! ### Decoding -/

lemma Datum.toNat?_integer {n : Nat} (h : n < wordBound) : (Datum.integer n).toNat? = some n := by
  change (if n < wordBound then some n else none) = some n
  rw [if_pos h]

lemma Position.ofDatum?_toDatum {p : Position} (h : p.InWords) : ofDatum? p.toDatum = some p := by
  have hrow := Datum.toNat?_integer h.1
  have hcolumn := Datum.toNat?_integer h.2
  simp [ofDatum?, toDatum, Datum.fields?, Datum.Fields.required?, List.lookup_cons, hrow, hcolumn]

namespace Tree

lemma fieldsOfDatum?_fieldsToDatum {fields : Table Nat}
    (h : ∀ e ∈ fields.entries, e.2 < wordBound) :
    fieldsOfDatum? (fieldsToDatum fields) = some fields := by
  have hentries : ∀ es : List (String × Nat), (∀ e ∈ es, e.2 < wordBound) →
      (es.map fun e => (e.1, Datum.integer e.2)).mapM
        (fun m : String × Datum => m.2.toNat?.map (m.1, ·)) = some es := by
    intro es hes
    induction es with
    | nil => rfl
    | cons e es ih =>
      have he := Datum.toNat?_integer (hes e List.mem_cons_self)
      rw [List.map_cons, List.mapM_cons, he, ih fun d hd => hes d (List.mem_cons_of_mem _ hd)]
      rfl
  rw [fieldsToDatum, fieldsOfDatum?, hentries fields.entries h, Option.map_some,
    Table.ofList_entries]

/-- A member of a record is read as a field of a node. -/
structure Reads (m : String × Datum) (part : Part) : Prop where
  known : fieldNames.contains m.1 = true
  read : part? m.1 m.2 = some part

/-- The members of a record are read one by one. -/
lemma partsNamed?_eq_some {ms : List (String × Datum)} {parts : List Part}
    (h : List.Forall₂ Reads ms parts) : partsNamed? ms = some parts := by
  induction h with
  | nil => rw [partsNamed?]
  | @cons m part ms parts hfirst hmore ih =>
    obtain ⟨name, d⟩ := m
    rw [partsNamed?, if_pos hfirst.known, hfirst.read, ih]
    rfl

lemma part?_start {p : Position} (h : p.InWords) : part? "start" p.toDatum = some (.start p) := by
  have hread := Position.ofDatum?_toDatum h
  rw [Position.toDatum] at hread ⊢
  simp [part?, hread]

lemma part?_stop {p : Position} (h : p.InWords) : part? "end" p.toDatum = some (.stop p) := by
  have hread := Position.ofDatum?_toDatum h
  rw [Position.toDatum] at hread ⊢
  simp [part?, hread]

lemma part?_fields {fields : Table Nat} (h : ∀ e ∈ fields.entries, e.2 < wordBound) :
    part? "fields" (fieldsToDatum fields) = some (.fields fields) := by
  have hread := fieldsOfDatum?_fieldsToDatum h
  rw [fieldsToDatum] at hread ⊢
  simp [part?, hread]

/-- The fields of a node that are written. -/
def parts : Tree → List Part
  | ⟨kind, text, span, children, fields⟩ =>
    [.kind kind, .text text, .start span.start, .stop span.stop]
    ++ (if children.isEmpty then [] else [.children children])
    ++ (if fields.entries.isEmpty then [] else [.fields fields])

/-- What is not written is what a missing field stands for. -/
lemma ofParts?_parts (t : Tree) : ofParts? t.parts = some t := by
  obtain ⟨kind, text, ⟨start, stop⟩, children, fields⟩ := t
  rw [parts]
  split_ifs with hchildren hfields hfields
  · obtain rfl : children = [] := List.isEmpty_iff.1 hchildren
    obtain rfl : fields = ∅ := Table.ext (List.isEmpty_iff.1 hfields)
    rfl
  · obtain rfl : children = [] := List.isEmpty_iff.1 hchildren
    rfl
  · obtain rfl : fields = ∅ := Table.ext (List.isEmpty_iff.1 hfields)
    rfl
  · rfl

mutual

/-- A tree is decoded from its record. -/
lemma ofDatum?_toDatum (t : Tree) (h : t.InWords) : ofDatum? t.toDatum = some t := by
  match t with
  | ⟨kind, text, span, children, fields⟩ =>
    rw [InWords] at h
    obtain ⟨hstart, hstop, hfields, hchildren⟩ := h
    have hkind : part? "type" (.text kind) = some (.kind kind) := by simp [part?, Datum.toText?]
    have htext : part? "text" (.text text) = some (.text text) := by simp [part?, Datum.toText?]
    have hlist : part? "children" (.list (toData children)) = some (.children children) := by
      simp [part?, ofData?_toData children hchildren]
    have hfirst : List.Forall₂ Reads
        [("type", .text kind), ("text", .text text), ("start", span.start.toDatum),
          ("end", span.stop.toDatum)]
        [.kind kind, .text text, .start span.start, .stop span.stop] :=
      .cons ⟨rfl, hkind⟩ (.cons ⟨rfl, htext⟩ (.cons ⟨rfl, part?_start hstart⟩
        (.cons ⟨rfl, part?_stop hstop⟩ .nil)))
    have hmore : List.Forall₂ Reads
        (if children.isEmpty then [] else [("children", .list (toData children))])
        (if children.isEmpty then [] else [.children children]) := by
      split_ifs
      · exact .nil
      · exact .cons ⟨rfl, hlist⟩ .nil
    have hlast : List.Forall₂ Reads
        (if fields.entries.isEmpty then [] else [("fields", fieldsToDatum fields)])
        (if fields.entries.isEmpty then [] else [.fields fields]) := by
      split_ifs
      · exact .nil
      · exact .cons ⟨rfl, part?_fields hfields⟩ .nil
    have hparts := partsNamed?_eq_some (List.rel_append (List.rel_append hfirst hmore) hlast)
    have hwhole := ofParts?_parts ⟨kind, text, span, children, fields⟩
    rw [parts] at hwhole
    rw [toDatum, ofDatum?, if_pos (by split_ifs <;> rfl), hparts]
    exact hwhole

lemma ofData?_toData (ts : List Tree) (h : InWordsAll ts) : ofData? (toData ts) = some ts := by
  match ts with
  | [] => rw [toData, ofData?]
  | t :: ts =>
    rw [InWordsAll] at h
    rw [toData, ofData?, ofDatum?_toDatum t h.1, ofData?_toData ts h.2]
    rfl

end

/-! ### The record of a tree -/

lemma exact_integer {n : Nat} (h : n < wordBound) : (Datum.integer n).Exact := by
  rw [Datum.Exact]
  omega

lemma exact_toDatum_position {p : Position} (h : p.InWords) : p.toDatum.Exact := by
  rw [Position.toDatum, Datum.Exact]
  simp only [Datum.ExactMembers, and_true]
  exact ⟨exact_integer h.1, exact_integer h.2⟩

lemma exact_fieldsToDatum {fields : Table Nat} (h : ∀ e ∈ fields.entries, e.2 < wordBound) :
    (fieldsToDatum fields).Exact := by
  rw [fieldsToDatum, Datum.Exact]
  generalize fields.entries = es at h
  induction es with
  | nil =>
    rw [List.map_nil, Datum.ExactMembers]
    trivial
  | cons e es ih =>
    have he := exact_integer (h e List.mem_cons_self)
    rw [List.map_cons, Datum.ExactMembers]
    exact ⟨he, ih fun d hd => h d (List.mem_cons_of_mem _ hd)⟩

mutual

/-- The record of a tree is written without loss. -/
lemma exact_toDatum (t : Tree) (h : t.InWords) : t.toDatum.Exact := by
  match t with
  | ⟨kind, text, span, children, fields⟩ =>
    rw [InWords] at h
    obtain ⟨hstart, hstop, hfields, hchildren⟩ := h
    have hstart := exact_toDatum_position hstart
    have hstop := exact_toDatum_position hstop
    have hfields := exact_fieldsToDatum hfields
    have hchildren := exact_toData children hchildren
    rw [toDatum]
    split_ifs <;> simp_all [Datum.Exact, Datum.ExactMembers]

lemma exact_toData (ts : List Tree) (h : InWordsAll ts) : Datum.ExactAll (toData ts) := by
  match ts with
  | [] =>
    rw [toData, Datum.ExactAll]
    trivial
  | t :: ts =>
    rw [InWordsAll] at h
    rw [toData, Datum.ExactAll]
    exact ⟨exact_toDatum t h.1, exact_toData ts h.2⟩

end

lemma nestingNamed_append (ms ns : List (String × Datum)) :
    nestingNamed (ms ++ ns) = max (nestingNamed ms) (nestingNamed ns) := by
  induction ms with
  | nil => simp [nestingNamed]
  | cons m ms ih =>
    obtain ⟨name, d⟩ := m
    rw [List.cons_append, nestingNamed, nestingNamed, ih, Nat.max_assoc]

mutual

/-- Each level of a tree is a record, in a list of children. -/
lemma nesting_toDatum (t : Tree) : nesting t.toDatum = 2 * t.height := by
  match t with
  | ⟨kind, text, span, children, fields⟩ =>
    -- The positions are nested once, and so is the table of fields if there is one.
    have hfirst : nestingNamed [("type", .text kind), ("text", .text text),
        ("start", span.start.toDatum), ("end", span.stop.toDatum)] = 1 := by
      simp [nestingNamed, nestingPart, fieldNames, Position.toDatum]
    have hlast : nestingNamed (if fields.entries.isEmpty then []
        else [("fields", fieldsToDatum fields)]) ≤ 1 := by
      split_ifs
      · simp [nestingNamed]
      · simp [nestingNamed, nestingPart, fieldNames, fieldsToDatum]
    have hchildren := nestingAll_toData children
    rw [toDatum, nesting, height, nestingNamed_append, nestingNamed_append, hfirst]
    by_cases hnone : children.isEmpty
    · obtain rfl : children = [] := List.isEmpty_iff.1 hnone
      rw [if_pos hnone, nestingNamed, heightAll]
      omega
    · have hmore : nestingNamed [("children", .list (toData children))] =
          2 * heightAll children + 1 := by
        simp [nestingNamed, nestingPart, hchildren]
      rw [if_neg hnone, hmore]
      omega

lemma nestingAll_toData (ts : List Tree) : nestingAll (toData ts) = 2 * heightAll ts := by
  match ts with
  | [] => rw [toData, nestingAll, heightAll]
  | t :: ts =>
    rw [toData, nestingAll, heightAll, nesting_toDatum t, nestingAll_toData ts]
    omega

end

/-- A tree is read back from its text, and the limit on nesting is passed by the trees of at most 63
levels. -/
theorem read_toJson (t : Tree) (h : t.InWords) :
    (Json.read? t.toJson).bind ofDatum? = some t ∧
      ofJson? t.toJson = if t.height ≤ 63 then some t else none := by
  have hread : Json.read? t.toJson = some t.toDatum := Json.read?_render (exact_toDatum t h)
  have hdecode := ofDatum?_toDatum t h
  refine ⟨?_, ?_⟩
  · rw [hread]
    exact hdecode
  · have hlimit : 2 * t.height ≤ 127 ↔ t.height ≤ 63 := by omega
    rw [ofJson?, hread, Option.bind_some, nesting_toDatum, hdecode]
    simp only [hlimit]

/-- A text with marks that are escaped, the last row, and a field that names no child. -/
theorem read_toJson_escaped :
    let t : Tree := ⟨"string", "\"\\\n\x01é", ⟨.origin, ⟨0xFFFFFFFFFFFFFFFF, 5⟩⟩,
      [.leaf "escape" "\x01"], .ofList [("value", 7)]⟩
    t.InWords ∧ (Json.read? t.toJson).bind ofDatum? = some t ∧
      ofJson? t.toJson = if t.height ≤ 63 then some t else none := by
  intro t
  have hwords : t.InWords := by
    simp only [t, leaf, InWords, InWordsAll]
    exact ⟨⟨by decide, by decide⟩, ⟨by decide, by decide⟩, by decide,
      ⟨⟨by decide, by decide⟩, ⟨by decide, by decide⟩, by decide, trivial⟩, trivial⟩
  exact ⟨hwords, read_toJson t hwords⟩

end Tree

end Arbor
