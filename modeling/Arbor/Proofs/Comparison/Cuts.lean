import Arbor.Comparison.OwnText
import Mathlib.Data.List.Forall2
import Mathlib.Data.String.Basic
import Mathlib.Tactic.Common

/-!
# Children cut out of a text

The own text of a node is what is left of its text when its children are cut out one after the
other. The places of the children are not to be relied on: they may lie outside the text, inside a
character or before what was cut out already. So a place counts only if the child does stand there,
behind the last cut, and else the child is searched for. Whatever the places say, the cuts lie in
the order of the children and do not overlap, and only children that are empty or do not occur any
more are left out.

The text may as well be kept whole and its parts be taken by numbers of bytes. All numbers that come
up then lie in the text and between characters.
-/

namespace Arbor.Comparison

variable {part cs gap rest front behind : List Char} {n cursor : Nat} {place : Option Nat}

/-! ### Splitting a text -/

lemma isPrefixOf?_eq_none_iff : part.isPrefixOf? cs = none ↔ ¬ part <+: cs := by
  rw [← Option.not_isSome_iff_eq_none, List.isSome_isPrefixOf?_eq_isPrefixOf,
    List.isPrefixOf_iff_prefix]

lemma eq_append_of_splitAround? (h : splitAround? part cs = some (gap, rest)) :
    cs = gap ++ (part ++ rest) := by
  induction cs generalizing gap with
  | nil =>
    obtain ⟨r, hr, heq⟩ := Option.map_eq_some_iff.1 h
    cases heq
    exact (List.append_eq_of_isPrefixOf?_eq_some hr).symm
  | cons c cs ih =>
    rw [splitAround?] at h
    split at h
    next r hr =>
      cases h
      exact (List.append_eq_of_isPrefixOf?_eq_some hr).symm
    next =>
      obtain ⟨⟨gap', rest'⟩, hr, heq⟩ := Option.map_eq_some_iff.1 h
      cases heq
      rw [List.cons_append, ← ih hr]

/-- A search fails if the part occurs nowhere. -/
lemma splitAround?_eq_none_iff : splitAround? part cs = none ↔ ¬ part <:+: cs := by
  induction cs with
  | nil => rw [splitAround?, Option.map_eq_none_iff, isPrefixOf?_eq_none_iff, List.prefix_nil,
      List.infix_nil]
  | cons c cs ih =>
    rw [splitAround?, List.infix_cons_iff, not_or, ← isPrefixOf?_eq_none_iff, ← ih]
    cases part.isPrefixOf? (c :: cs) with
    | none => simp
    | some r => simp

/-- A split behind the first bytes of a text splits the rest of it. -/
lemma splitBytes?_append (h : String.utf8Len front ≤ n) :
    splitBytes? n (front ++ rest) =
      (splitBytes? (n - String.utf8Len front) rest).map fun r => (front ++ r.1, r.2) := by
  induction front generalizing n with
  | nil => simp
  | cons c front ih =>
    have hpos := c.utf8Size_pos
    rw [String.utf8Len_cons] at h
    obtain ⟨m, rfl⟩ : ∃ m, n = m + 1 := ⟨n - 1, by omega⟩
    rw [List.cons_append, splitBytes?, if_pos (by omega), ih (by omega), Option.map_map,
      String.utf8Len_cons, Nat.add_comm (String.utf8Len front), Nat.sub_sub]
    rfl

lemma of_splitBytes? (h : splitBytes? n cs = some (gap, rest)) :
    cs = gap ++ rest ∧ String.utf8Len gap = n := by
  fun_induction splitBytes? n cs generalizing gap with
  | case1 cs =>
    cases h
    exact ⟨rfl, rfl⟩
  | case2 n => cases h
  | case3 n c cs hle ih =>
    obtain ⟨⟨gap', rest'⟩, hr, heq⟩ := Option.map_eq_some_iff.1 h
    cases heq
    obtain ⟨hcs, hcount⟩ := ih hr
    rw [hcs, String.utf8Len_cons, hcount]
    exact ⟨rfl, by omega⟩
  | case4 n c cs hlt => cases h

/-! ### Cuts -/

lemma eq_append_of_locate? (h : locate? part place cursor rest = some (gap, behind)) :
    rest = gap ++ (part ++ behind) := by
  rcases Option.or_eq_some_iff.1 h with h | ⟨-, h⟩
  · obtain ⟨n, -, h⟩ := Option.bind_eq_some_iff.1 h
    split_ifs at h
    obtain ⟨⟨gap', tail⟩, hsplit, h⟩ := Option.bind_eq_some_iff.1 h
    obtain ⟨behind', hafter, heq⟩ := Option.bind_eq_some_iff.1 h
    cases heq
    rw [(of_splitBytes? hsplit).1, List.append_eq_of_isPrefixOf?_eq_some hafter]
  · exact eq_append_of_splitAround? h

/-- A part that is not found does not occur. -/
lemma not_infix_of_locate? (h : locate? part place cursor rest = none) : ¬ part <:+: rest :=
  splitAround?_eq_none_iff.1 (Option.or_eq_none_iff.1 h).2

/-- Some children are cut out of a text, in their order. What is searched for a child is the text
behind the last child that was cut out; it is left out if it is empty or does not occur there. -/
inductive CutsOut : List Char → List Tree → Cut → Prop
  | nil (rest : List Char) : CutsOut rest [] ⟨[], rest⟩
  | leave {rest : List Char} {child : Tree} {children : List Tree} {cut : Cut}
    (hout : child.text = "" ∨ ¬ child.text.toList <:+: rest) (h : CutsOut rest children cut) :
    CutsOut rest (child :: children) cut
  | take {gap behind : List Char} {child : Tree} {children : List Tree} {cut : Cut}
    (hne : child.text ≠ "") (h : CutsOut behind children cut) :
    CutsOut (gap ++ (child.text.toList ++ behind)) (child :: children)
      ⟨(gap, child) :: cut.pieces, cut.rest⟩

namespace CutsOut

variable {children : List Tree} {cut : Cut}

/-- The pieces and what was cut out between them make up the text. -/
lemma text_eq (h : CutsOut rest children cut) :
    rest = cut.pieces.flatMap (fun p => p.1 ++ p.2.text.toList) ++ cut.rest := by
  induction h with
  | nil rest => rfl
  | leave _ _ ih => exact ih
  | take _ _ ih => simp [← ih]

/-- What is cut out are children with a text, in their order. -/
lemma sublist (h : CutsOut rest children cut) :
    (cut.pieces.map (·.2)).Sublist (children.filter (·.text ≠ "")) := by
  induction h with
  | nil rest => exact .slnil
  | leave _ _ ih => exact ih.trans ((List.sublist_cons_self _ _).filter _)
  | take hne _ ih =>
    rw [List.filter_cons_of_pos (by simpa using hne)]
    exact ih.cons_cons _

end CutsOut

lemma cutsOut_cutFrom (place? : Tree → Option Nat) (cursor : Nat) (rest : List Char)
    (children : List Tree) : CutsOut rest children (cutFrom place? cursor rest children) := by
  induction children generalizing cursor rest with
  | nil => exact .nil rest
  | cons child children ih =>
    rw [cutFrom]
    split
    next h =>
      refine .leave ?_ (ih cursor rest)
      split_ifs at h with hempty
      · exact .inl (String.isEmpty_iff.1 hempty)
      · exact .inr (not_infix_of_locate? h)
    next gap behind h =>
      split_ifs at h with hempty
      rw [eq_append_of_locate? h]
      exact .take (mt String.isEmpty_iff.2 hempty) (ih _ behind)

/-! ### Stretches of a text -/

/-- A stretch of a text, given by the numbers of bytes in front of its two ends. -/
structure Stretch where
  start : String.Pos.Raw
  stop : String.Pos.Raw
  deriving DecidableEq

namespace Stretch

/-- The ends lie in the text, between characters, and in order. -/
structure Fits (s : Stretch) (text : String) : Prop where
  le : s.start ≤ s.stop
  start : s.start.IsValid text
  stop : s.stop.IsValid text

/-- The bytes of a text in a stretch. -/
def read (s : Stretch) (text : String) : String :=
  String.Pos.Raw.extract text s.start s.stop

/-- The stretch holds these characters of a text. -/
def Holds (text : List Char) (s : Stretch) (part : List Char) : Prop :=
  ∃ front behind, text = front ++ (part ++ behind) ∧
    s = ⟨⟨String.utf8Len front⟩, ⟨String.utf8Len (front ++ part)⟩⟩

variable {text : List Char} {s : Stretch}

lemma Holds.fits (h : Holds text s part) : s.Fits (String.ofList text) := by
  obtain ⟨front, behind, rfl, rfl⟩ := h
  have hvalid (front behind : List Char) :
      (String.Pos.Raw.mk (String.utf8Len front)).IsValid (String.ofList (front ++ behind)) := by
    rw [String.Pos.Raw.isValid_iff_exists_append]
    refine ⟨String.ofList front, String.ofList behind, String.ofList_append, ?_⟩
    rw [String.rawEndPos_ofList]
  refine ⟨?_, hvalid front _, ?_⟩
  · rw [String.Pos.Raw.mk_le_mk, String.utf8Len_append]
    exact Nat.le_add_right _ _
  · rw [← List.append_assoc]
    exact hvalid (front ++ part) behind

lemma Holds.read_eq (h : Holds text s part) : s.read (String.ofList text) = String.ofList part := by
  obtain ⟨front, behind, rfl, rfl⟩ := h
  rw [read, String.utf8Len_append, ← List.append_assoc]
  exact String.extract_of_valid front part behind

end Stretch

/-- Where a part is cut out of a whole text, as a number of bytes: where it is placed, if that is at
or behind the last cut and the part stands there, or else where it first occurs behind the cut. -/
def cutPlace? (text part : List Char) (place : Option Nat) (cursor : Nat) : Option Nat :=
  let placed := place.bind fun n => do
    let (_, tail) ← splitBytes? n text
    if cursor ≤ n ∧ part <+: tail then some n else none
  let found := do
    let (_, tail) ← splitBytes? cursor text
    let (gap, _) ← splitAround? part tail
    return cursor + String.utf8Len gap
  placed.or found

/-- The stretches of a whole text between the children that are cut out of it, from the last cut
on. -/
def stretchesFrom (place? : Tree → Option Nat) (text : List Char) (cursor : Nat) :
    List Tree → List Stretch
  | [] => [⟨⟨cursor⟩, ⟨String.utf8Len text⟩⟩]
  | child :: children =>
    let part := child.text.toList
    match if child.text.isEmpty then none else cutPlace? text part (place? child) cursor with
    | none => stretchesFrom place? text cursor children
    | some n => ⟨⟨cursor⟩, ⟨n⟩⟩ :: stretchesFrom place? text (n + String.utf8Len part) children

/-- The stretches of a node's text between its children. -/
def stretches (place? : Tree → Option Nat) (t : Tree) : List Stretch :=
  stretchesFrom place? t.text.toList 0 t.children

/-- In the whole text, a part is found behind the gap that is found in the rest of the text. -/
lemma cutPlace?_eq (hcursor : String.utf8Len front = cursor) :
    cutPlace? (front ++ rest) part place cursor =
      (locate? part place cursor rest).map fun r => cursor + String.utf8Len r.1 := by
  rw [cutPlace?, locate?, Option.map_or]
  congr 1
  · cases place with
    | none => rfl
    | some n =>
      rw [Option.bind_some, Option.bind_some]
      by_cases hle : cursor ≤ n
      · rw [if_pos hle, splitBytes?_append (hcursor ▸ hle), hcursor]
        cases hsplit : splitBytes? (n - cursor) rest with
        | none => rfl
        | some r =>
          have hsum : cursor + String.utf8Len r.1 = n := by
            have hcount := (of_splitBytes? hsplit).2
            omega
          cases hafter : part.isPrefixOf? r.2 with
          | none => simp [hafter, isPrefixOf?_eq_none_iff.1 hafter]
          | some behind =>
            have hprefix : part <+: r.2 := ⟨behind, List.append_eq_of_isPrefixOf?_eq_some hafter⟩
            simp [hafter, hprefix, hle, hsum]
      · simp [hle]
  · rw [splitBytes?_append (le_of_eq hcursor), hcursor, Nat.sub_self, splitBytes?]
    cases hsplit : splitAround? part rest with
    | none => simp [hsplit]
    | some r => simp [hsplit]

/-- The stretches hold the pieces that are left of the text. -/
lemma forall₂_holds_stretchesFrom (place? : Tree → Option Nat) (front rest : List Char)
    (children : List Tree) :
    let cut := cutFrom place? (String.utf8Len front) rest children
    List.Forall₂ (Stretch.Holds (front ++ rest))
      (stretchesFrom place? (front ++ rest) (String.utf8Len front) children)
      (cut.pieces.map (·.1) ++ [cut.rest]) := by
  induction children generalizing front rest with
  | nil =>
    refine .cons ⟨front, [], ?_, ?_⟩ .nil
    · rw [List.append_nil]
      rfl
    · rfl
  | cons child children ih =>
    rw [stretchesFrom, cutFrom, cutPlace?_eq rfl]
    simp only [← String.utf8Len_toList, String.toList_ofList]
    cases hempty : child.text.isEmpty with
    | true => exact ih front rest
    | false =>
      cases hlocate : locate? child.text.toList (place? child) (String.utf8Len front) rest with
      | none => exact ih front rest
      | some r =>
        obtain ⟨gap, behind⟩ := r
        have hrest := eq_append_of_locate? hlocate
        -- The next cursor is the end of the front that reaches up to behind the child.
        have hnext := ih (front ++ (gap ++ child.text.toList)) behind
        rw [List.append_assoc, List.append_assoc, ← hrest, String.utf8Len_append,
          String.utf8Len_append, ← Nat.add_assoc] at hnext
        refine .cons ⟨front, child.text.toList ++ behind, by rw [hrest], ?_⟩ hnext
        rw [String.utf8Len_append]

lemma forall₂_holds_stretches (place? : Tree → Option Nat) (t : Tree) :
    let cut := cutFrom place? 0 t.text.toList t.children
    List.Forall₂ (Stretch.Holds t.text.toList) (stretches place? t)
      (cut.pieces.map (·.1) ++ [cut.rest]) :=
  forall₂_holds_stretchesFrom place? [] t.text.toList t.children

lemma fits_of_mem_stretches {place? : Tree → Option Nat} {t : Tree} {s : Stretch}
    (hs : s ∈ stretches place? t) : s.Fits t.text := by
  have hfits := (forall₂_holds_stretches place? t).imp fun s part h => And.intro h.fits h
  rw [String.ofList_toList] at hfits
  exact ((List.forall₂_and_left _ _).1 hfits).1 s hs

/-- What the stretches hold together is what is left of the text. -/
lemma join_read_stretches (place? : Tree → Option Nat) (t : Tree) :
    String.join ((stretches place? t).map (·.read t.text)) =
      String.ofList (cutFrom place? 0 t.text.toList t.children).remainder := by
  have hread := (forall₂_holds_stretches place? t).imp fun s part h => h.read_eq
  rw [String.ofList_toList, ← List.forall₂_map_right_iff, ← List.forall₂_map_left_iff,
    List.forall₂_eq_eq_eq] at hread
  rw [hread, String.join_eq]
  simp [Cut.remainder, List.flatMap_def, Function.comp_def]

/-- The own text of a node is what is left of its text when children are cut out of it, at whatever
numbers of bytes they are placed. The stretches that are kept lie in the text and between
characters. The children that are cut out are some of those with a text, in their order, and they
and the pieces between them make up the whole text; a child is left out only if its text is empty
or does not occur behind the last child that was cut out. -/
theorem ownText_cutsOut {t : Tree} (ht : t.children ≠ []) :
    ownText t = ownTextBy (offset? t) t ∧
    ∀ place? : Tree → Option Nat,
      (∀ s ∈ stretches place? t, s.Fits t.text) ∧
      ownTextBy place? t = withoutBlanks (String.join ((stretches place? t).map (·.read t.text))) ∧
      ∃ cut, CutsOut t.text.toList t.children cut ∧
        (cut.pieces.map (·.2)).Sublist (t.children.filter (·.text ≠ "")) ∧
        t.text =
          String.ofList (cut.pieces.flatMap (fun p => p.1 ++ p.2.text.toList) ++ cut.rest) ∧
        ownTextBy place? t =
          withoutBlanks (String.ofList (cut.pieces.flatMap (·.1) ++ cut.rest)) := by
  refine ⟨rfl, fun place? => ?_⟩
  have hcuts := cutsOut_cutFrom place? 0 t.text.toList t.children
  have hown : ownTextBy place? t =
      withoutBlanks (String.ofList (cutFrom place? 0 t.text.toList t.children).remainder) := by
    rw [ownTextBy, if_neg (by simpa using ht)]
  refine ⟨fun s hs => fits_of_mem_stretches hs, ?_, _, hcuts, hcuts.sublist, ?_, hown⟩
  · rw [hown, join_read_stretches]
  · rw [← hcuts.text_eq, String.ofList_toList]

/-- A node whose children are placed inside a character, before the last cut or at a later
occurrence; one has no text and one does not occur. -/
def misplaced : Tree :=
  let child (text : String) (column : Nat) : Tree :=
    ⟨"identifier", text, ⟨⟨0, column⟩, ⟨0, column⟩⟩, [], ∅⟩
  ⟨"assignment_expression", "é = éx; x", ⟨⟨0, 0⟩, ⟨0, 11⟩⟩,
    [child "é" 1, child "" 0, child "q" 2, child "é" 0, child "x" 10], ∅⟩

/-- Of the five children three are cut out: the first and the fourth where they first occur, the
last where it is placed. -/
theorem ownText_misplaced :
    ownText misplaced = "=x;" ∧
    stretches (offset? misplaced) misplaced =
      [⟨⟨0⟩, ⟨0⟩⟩, ⟨⟨2⟩, ⟨5⟩⟩, ⟨⟨7⟩, ⟨10⟩⟩, ⟨⟨11⟩, ⟨11⟩⟩] ∧
    (∀ s ∈ stretches (offset? misplaced) misplaced, s.Fits misplaced.text) ∧
    ∃ cut, CutsOut misplaced.text.toList misplaced.children cut ∧
      ownText misplaced = withoutBlanks (String.ofList (cut.pieces.flatMap (·.1) ++ cut.rest)) := by
  obtain ⟨-, hplaced⟩ := ownText_cutsOut (t := misplaced) (List.cons_ne_nil _ _)
  obtain ⟨hfits, -, cut, hcuts, -, -, hown⟩ := hplaced (offset? misplaced)
  exact ⟨by decide +kernel, by decide +kernel, hfits, cut, hcuts, hown⟩

end Arbor.Comparison
