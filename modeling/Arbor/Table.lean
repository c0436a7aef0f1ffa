/-!
Finite maps from names. The entries of a table stand in increasing order of their names, so two
tables with the same entries are equal, and listing a table lists its names in order.
-/

namespace Arbor

universe u v

/-- A map from names to values, its entries in strictly increasing order of names. -/
structure Table (α : Type u) where
  entries : List (String × α)
  sorted : entries.Pairwise fun a b => a.1 < b.1

namespace Table

variable {α : Type u} {β : Type v}

@[ext]
theorem ext {s t : Table α} (h : s.entries = t.entries) : s = t := by
  cases s; cases t; cases h; rfl

instance [DecidableEq α] : DecidableEq (Table α) := fun s t =>
  if h : s.entries = t.entries then isTrue (Table.ext h) else isFalse fun e => h (e ▸ rfl)

/-- The table without entries. -/
def empty : Table α := ⟨[], .nil⟩

instance : EmptyCollection (Table α) := ⟨empty⟩
instance : Inhabited (Table α) := ⟨empty⟩

/-- Puts an entry at its place, where it replaces an entry of the same name. -/
def place (name : String) (value : α) : List (String × α) → List (String × α)
  | [] => [(name, value)]
  | e :: es =>
    if name < e.1 then (name, value) :: e :: es
    else if e.1 < name then e :: place name value es
    else (name, value) :: es

theorem mem_place {name : String} {value : α} {e : String × α} {es : List (String × α)}
    (h : e ∈ place name value es) : e = (name, value) ∨ e ∈ es := by
  induction es with
  | nil => simpa [place] using h
  | cons d ds ih =>
    simp only [place] at h
    split at h
    · simpa using h
    · split at h
      · rcases List.mem_cons.1 h with h | h
        · simp [h]
        · rcases ih h with h | h <;> simp [h]
      · rcases List.mem_cons.1 h with h | h <;> simp [h]

theorem sorted_place {name : String} {value : α} {es : List (String × α)}
    (h : es.Pairwise fun a b => a.1 < b.1) :
    (place name value es).Pairwise fun a b => a.1 < b.1 := by
  induction es with
  | nil => simp [place]
  | cons d ds ih =>
    have hd := List.pairwise_cons.1 h
    simp only [place]
    split
    · rename_i lt
      refine List.pairwise_cons.2 ⟨fun b hb => ?_, h⟩
      rcases List.mem_cons.1 hb with rfl | hb
      · exact lt
      · exact String.lt_trans lt (hd.1 b hb)
    · rename_i notLt
      split
      · rename_i lt
        refine List.pairwise_cons.2 ⟨fun b hb => ?_, ih hd.2⟩
        rcases mem_place hb with rfl | hb
        · exact lt
        · exact hd.1 b hb
      · rename_i notGt
        have same : name = d.1 :=
          String.le_antisymm (String.not_lt.1 notGt) (String.not_lt.1 notLt)
        exact List.pairwise_cons.2 ⟨fun b hb => same ▸ hd.1 b hb, hd.2⟩

/-- The table with `name` bound to `value`, whatever it was bound to before. -/
def insert (t : Table α) (name : String) (value : α) : Table α :=
  ⟨place name value t.entries, sorted_place t.sorted⟩

/-- The value bound to a name. -/
def get? (t : Table α) (name : String) : Option α :=
  t.entries.lookup name

/-- Whether a name is bound. -/
def contains (t : Table α) (name : String) : Bool :=
  (t.get? name).isSome

/-- The table of a list of bindings, where a later one replaces an earlier one of its name. -/
def ofList (es : List (String × α)) : Table α :=
  es.foldl (fun t e => t.insert e.1 e.2) empty

/-- The bindings of `t` together with those of `s`, which come first. -/
def union (t s : Table α) : Table α :=
  s.entries.foldl (fun t e => t.insert e.1 e.2) t

/-- The bindings of `t` together with those of `s` for names that `t` does not bind. -/
def extend (t s : Table α) : Table α :=
  s.entries.foldl (fun t e => if t.contains e.1 then t else t.insert e.1 e.2) t

/-- The names in order. -/
def keys (t : Table α) : List String :=
  t.entries.map (·.1)

/-! ### Lookup after an insertion -/

theorem lookup_place_self (name : String) (value : α) (es : List (String × α)) :
    (place name value es).lookup name = some value := by
  induction es with
  | nil => simp [place]
  | cons d ds ih =>
    obtain ⟨key, v⟩ := d
    simp only [place]
    split
    · simp
    · split
      · rename_i lt
        have : (name == key) = false := by
          simp only [beq_eq_false_iff_ne, ne_eq]
          rintro rfl
          exact String.lt_irrefl _ lt
        simp [List.lookup_cons, this, ih]
      · simp

theorem lookup_place_of_ne {name other : String} (value : α) (es : List (String × α))
    (h : other ≠ name) : (place name value es).lookup other = es.lookup other := by
  have hne : (other == name) = false := by simpa using h
  induction es with
  | nil => simp [place, List.lookup_cons, hne]
  | cons d ds ih =>
    obtain ⟨key, v⟩ := d
    simp only [place]
    split
    · simp [List.lookup_cons, hne]
    · rename_i notLt
      split
      · simp only [List.lookup_cons, ih]
      · rename_i notGt
        have same : name = key :=
          String.le_antisymm (String.not_lt.1 notGt) (String.not_lt.1 notLt)
        simp [List.lookup_cons, hne, ← same]

@[simp]
theorem get?_empty (name : String) : (empty : Table α).get? name = none := rfl

theorem get?_insert (t : Table α) (name other : String) (value : α) :
    (t.insert name value).get? other = if other = name then some value else t.get? other := by
  split
  · rename_i h
    subst h
    exact lookup_place_self ..
  · rename_i h
    exact lookup_place_of_ne _ _ h

/-! ### Entries and lookup -/

theorem mem_entries_iff {t : Table α} {name : String} {value : α} :
    (name, value) ∈ t.entries ↔ t.get? name = some value := by
  obtain ⟨entries, sorted⟩ := t
  simp only [get?]
  induction entries with
  | nil => simp
  | cons e es ih =>
    obtain ⟨key, v⟩ := e
    obtain ⟨first, rest⟩ := List.pairwise_cons.1 sorted
    by_cases h : name = key
    · subst h
      have habsent : (name, value) ∉ es := fun hmem =>
        String.lt_irrefl _ (first (name, value) hmem)
      simp [habsent, eq_comm]
    · have hne : (name == key) = false := by simpa using h
      simp [List.lookup_cons, hne, h, ih rest]

theorem mem_entries_insert {t : Table α} {name other : String} {value v : α}
    (h : t.get? name = none) :
    (other, v) ∈ (t.insert name value).entries
      ↔ (other, v) ∈ t.entries ∨ (other = name ∧ v = value) := by
  simp only [mem_entries_iff, get?_insert]
  by_cases hname : other = name
  · subst hname
    simp [h, eq_comm]
  · simp [hname]

end Table

end Arbor
