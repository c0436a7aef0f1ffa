import Arbor.Proofs.Comparison.Cuts
import Arbor.Proofs.Comparison.Paths
import Arbor.Proofs.Json.Trees

/-!
# Offsets in 64 bits

The offset of a child comes from rows and columns by a few sums and differences of numbers of 64
bits. Two differences are guarded, and three operations are taken as they come. Of these only the
last can leave the range, the sum of the start of a line and a column. It does so for columns near
the bound, where the positions do not place the child in the text at all; and then there is no
comparison, although the child could be searched for as others are whose place is outside the text.
-/

namespace Arbor.Comparison

/-! ### One child -/

/-- A line break takes one of the bytes of the text. -/
lemma lt_of_lineBreak? {k n : Nat} {cs : List Char} (h : lineBreak? k cs = some n) :
    n < String.utf8Len cs := by
  fun_induction lineBreak? k cs generalizing n with
  | case1 k => cases h
  | case2 cs =>
    cases h
    exact Nat.add_pos_right _ (Char.utf8Size_pos _)
  | case3 cs k ih =>
    obtain ⟨m, hm, rfl⟩ := Option.map_eq_some_iff.1 h
    rw [String.utf8Len_cons]
    exact Nat.add_lt_add_right (ih hm) _
  | case4 k c cs hne ih =>
    obtain ⟨m, hm, rfl⟩ := Option.map_eq_some_iff.1 h
    rw [String.utf8Len_cons]
    exact Nat.add_lt_add_right (ih hm) _

variable {node child : Tree}

lemma words_add {op : Operation} {m n : Nat} (h : m + n < wordBound) :
    Arithmetic.words.add op m n = .ok (m + n) :=
  if_pos h

lemma words_sub {op : Operation} {m n : Nat} (h : n ≤ m) :
    Arithmetic.words.sub op m n = .ok (m - n) :=
  if_pos h

/-- The exact offset, without the names of the operations. -/
lemma offset?_eq (node child : Tree) :
    offset? node child =
      if child.span.start.row = node.span.start.row then
        if node.span.start.column ≤ child.span.start.column then
          some (child.span.start.column - node.span.start.column)
        else none
      else if node.span.start.row < child.span.start.row then
        (lineBreak? (child.span.start.row - node.span.start.row - 1) node.text.toList).map
          (· + 1 + child.span.start.column)
      else none := by
  rw [offset?, offsetBy]
  split_ifs
  · rfl
  · rfl
  · simp only [Arithmetic.exact, bind]
    cases lineBreak? (child.span.start.row - node.span.start.row - 1) node.text.toList with
    | none => rfl
    | some n => rfl
  · rfl

/-- Only the last sum can leave the range, and it does so if the exact offset does. -/
lemma wordOffset?_eq (hchild : child.span.start.InWords)
    (htext : node.text.utf8ByteSize < wordBound) :
    wordOffset? node child =
      if (offset? node child).any (wordBound ≤ ·) then .error .offset
      else .ok (offset? node child) := by
  have hcolumn := hchild.2
  rw [wordOffset?, offsetBy, offset?_eq]
  by_cases hrow : child.span.start.row = node.span.start.row
  · rw [if_pos hrow, if_pos hrow]
    by_cases hle : node.span.start.column ≤ child.span.start.column
    · -- a difference of columns is at most the column
      have hlt : child.span.start.column - node.span.start.column < wordBound := by omega
      rw [if_pos hle, if_pos hle, words_sub hle, Option.any_some, if_neg (by simpa using hlt)]
      rfl
    · rw [if_neg hle, if_neg hle]
      rfl
  · rw [if_neg hrow, if_neg hrow]
    by_cases hbelow : node.span.start.row < child.span.start.row
    · rw [if_pos hbelow, if_pos hbelow, words_sub hbelow.le]
      simp only [bind, Except.bind, words_sub (Nat.sub_pos_of_lt hbelow)]
      cases hbreak : lineBreak? (child.span.start.row - node.span.start.row - 1)
          node.text.toList with
      | none => rfl
      | some n =>
        -- the line break lies in the text, so the line behind it starts there
        have hn := lt_of_lineBreak? hbreak
        rw [String.utf8Len_toList] at hn
        have hstart : n + 1 < wordBound := by omega
        simp only [words_add hstart, Option.map_some, Option.any_some, decide_eq_true_eq]
        by_cases hfits : n + 1 + child.span.start.column < wordBound
        · rw [words_add hfits, if_neg (Nat.not_le.2 hfits)]
          rfl
        · rw [if_pos (Nat.not_lt.1 hfits)]
          exact congrArg (some <$> ·) (if_neg hfits)
    · rw [if_neg hbelow, if_neg hbelow]
      rfl

/-- An exact offset that does not fit is that of a child in a later row, and lies behind the text.
-/
lemma lt_of_offset? (hchild : child.span.start.InWords)
    (htext : node.text.utf8ByteSize < wordBound) {m : Nat} (hm : offset? node child = some m)
    (hbound : wordBound ≤ m) :
    node.span.start.row < child.span.start.row ∧ node.text.utf8ByteSize < m := by
  have hcolumn := hchild.2
  rw [offset?_eq] at hm
  split_ifs at hm with hrow hle hbelow
  · cases hm
    omega
  · exact ⟨hbelow, by omega⟩

/-! ### Checks in a row -/

/-- A check fails only with operations that have a property, and passes only if none has it. -/
structure Reports (check : Except Operation Unit) (p : Operation → Prop) : Prop where
  of_error : ∀ op, check = .error op → p op
  of_ok : check = .ok () → ∀ op, ¬ p op

namespace Reports

variable {x y : Except Operation Unit} {p q : Operation → Prop}

lemma pure_unit : Reports (pure ()) fun _ => False := by
  refine ⟨fun op h => ?_, fun _ _ h => h⟩
  cases h

lemma congr (h : Reports x p) (hpq : ∀ op, p op ↔ q op) : Reports x q :=
  ⟨fun op hx => (hpq op).1 (h.of_error op hx), fun hx op hq => h.of_ok hx op ((hpq op).2 hq)⟩

/-- The second of two checks is made if the first passes. -/
lemma bind (hx : Reports x p) (hy : Reports y q) :
    Reports (x >>= fun _ => y) fun op => p op ∨ q op := by
  cases x with
  | error op =>
    refine ⟨fun op' h => ?_, fun h => ?_⟩
    · cases h
      exact .inl (hx.of_error op rfl)
    · cases h
  | ok =>
    refine ⟨fun op h => .inr (hy.of_error op h), ?_⟩
    rintro h op (hp | hq)
    · exact hx.of_ok rfl op hp
    · exact hy.of_ok h op hq

lemma forM {α : Type} {check : α → Except Operation Unit} {p : α → Operation → Prop}
    (as : List α) (h : ∀ a, Reports (check a) (p a)) :
    Reports (as.forM check) fun op => ∃ a ∈ as, p a op := by
  induction as with
  | nil => exact pure_unit.congr (by simp)
  | cons a as ih =>
    exact ((h a).bind ih).congr (by simp)

lemma discard {α : Type} (x : Except Operation α) :
    Reports (Functor.discard x) fun op => x = .error op := by
  cases x with
  | error op =>
    refine ⟨fun op' h => ?_, nofun⟩
    cases h
    rfl
  | ok a => exact ⟨nofun, fun _ _ => nofun⟩

end Reports

/-- A child with a text has an offset that is not to be had. -/
def Unplaced (node : Tree) (op : Operation) : Prop :=
  ∃ child ∈ node.children, child.text ≠ "" ∧ wordOffset? node child = .error op

lemma reports_checkOffsets (node : Tree) : Reports (checkOffsets node) (Unplaced node) := by
  refine (Reports.forM _ fun child => .discard (wordOffset? node child)).congr fun op => ?_
  simp [Unplaced, and_assoc]

lemma reports_checkTexts (o : Options) (a b : Tree) :
    Reports (checkTexts o a b)
      fun op => o.ignoreText = false ∧ (Unplaced a op ∨ Unplaced b op) := by
  rw [checkTexts]
  split_ifs with htext
  · exact Reports.pure_unit.congr (by simp [htext])
  · exact ((reports_checkOffsets a).bind (reports_checkOffsets b)).congr (by simp [htext])

/-- The comparison comes to two nodes whose texts count, and a child of one of them has an offset
that is not to be had. -/
def Overflows (o : Options) (depth : Nat) (a b : Tree) (op : Operation) : Prop :=
  ∃ p x y, Compared o depth a b p x y ∧ o.ignoreText = false ∧ (Unplaced x op ∨ Unplaced y op)

/-- A comparison that fails comes to two nodes by themselves or to a pair of their children. -/
lemma overflows_iff {o : Options} {depth : Nat} {a b : Tree} {op : Operation}
    (h : o.passesOver depth a b = false) :
    Overflows o depth a b op ↔
      (o.ignoreText = false ∧ (Unplaced a op ∨ Unplaced b op)) ∨
      ∃ (i : Nat) (c d : Tree), a.children[i]? = some c ∧ b.children[i]? = some d ∧
        Overflows o (depth + 1) c d op := by
  constructor
  · rintro ⟨p, x, y, hp, hop⟩
    cases p with
    | nil =>
      obtain ⟨-, rfl, rfl⟩ := compared_nil_iff.1 hp
      exact .inl hop
    | cons i p =>
      obtain ⟨-, c, d, hc, hd, hp⟩ := compared_cons_iff.1 hp
      exact .inr ⟨i, c, d, hc, hd, p, x, y, hp, hop⟩
  · rintro (hop | ⟨i, c, d, hc, hd, p, x, y, hp, hop⟩)
    · exact ⟨[], a, b, compared_nil_iff.2 ⟨h, rfl, rfl⟩, hop⟩
    · exact ⟨i :: p, x, y, compared_cons_iff.2 ⟨h, c, d, hc, hd, hp⟩, hop⟩

mutual

lemma reports_checkAt (o : Options) (depth : Nat) :
    ∀ a b, Reports (checkAt o depth a b) (Overflows o depth a b)
  | ⟨kind, text, span, children, fields⟩, b => by
    rw [checkAt]
    split_ifs with hover
    · refine Reports.pure_unit.congr fun op => ⟨False.elim, ?_⟩
      rintro ⟨p, x, y, hp, -⟩
      rw [hp.passesOver_eq_false] at hover
      cases hover
    · have hnodes := reports_checkTexts o ⟨kind, text, span, children, fields⟩ b
      refine (hnodes.bind (reports_checkAll o (depth + 1) children b.children)).congr fun op => ?_
      exact (overflows_iff (by simpa using hover)).symm

lemma reports_checkAll (o : Options) (depth : Nat) :
    ∀ as bs, Reports (checkAll o depth as bs) fun op =>
      ∃ (i : Nat) (c d : Tree), as[i]? = some c ∧ bs[i]? = some d ∧ Overflows o depth c d op
  | [], bs => by
    rw [checkAll]
    · exact Reports.pure_unit.congr (by simp)
    · simp
  | a :: as, [] => by
    rw [checkAll]
    · exact Reports.pure_unit.congr (by simp)
    · simp
  | a :: as, b :: bs => by
    rw [checkAll]
    refine ((reports_checkAt o depth a b).bind (reports_checkAll o depth as bs)).congr fun op => ?_
    constructor
    · rintro (h | ⟨i, c, d, hc, hd, h⟩)
      · exact ⟨0, a, b, rfl, rfl, h⟩
      · exact ⟨i + 1, c, d, hc, hd, h⟩
    · rintro ⟨i, c, d, hc, hd, h⟩
      cases i with
      | zero =>
        cases hc
        cases hd
        exact .inl h
      | succ i => exact .inr ⟨i, c, d, hc, hd, h⟩

end

/-- A comparison fails just in case one of the checks before it does. -/
lemma compareChecked_spec (o : Options) (a b : Tree) :
    (∀ op, compareChecked o a b = .error op → Overflows o 0 a b op) ∧
    ∀ z, compareChecked o a b = .ok z ↔ z = compare o a b ∧ ∀ op, ¬ Overflows o 0 a b op := by
  have hcheck := reports_checkAt o 0 a b
  rw [compareChecked]
  cases hc : checkAt o 0 a b with
  | error op =>
    have hop := hcheck.of_error op hc
    refine ⟨fun op' h => ?_, fun z => ⟨fun h => ?_, fun h => absurd hop (h.2 op)⟩⟩
    · cases h
      exact hop
    · cases h
  | ok =>
    refine ⟨nofun, fun z => ⟨fun h => ?_, fun h => ?_⟩⟩
    · cases h
      exact ⟨rfl, hcheck.of_ok hc⟩
    · rw [h.1]
      rfl

/-- For numbers of 64 bits and a text that fits into memory: an operation on the way to the offset
of a child leaves the range iff it is the last sum and the exact offset does not fit into 64 bits.
If none does, the offset is the exact one. If the last one does, the child lies in a later row and
its exact offset is behind the end of the text, so that its position says nothing. A comparison
fails only with such an operation, for a child with a text of one of two nodes that it comes to and
whose texts count. If there is none, it gives the account in exact numbers. -/
theorem wordOffset_overflows {node child : Tree} (hchild : child.span.start.InWords)
    (htext : node.text.utf8ByteSize < wordBound) :
    (∀ op, wordOffset? node child = .error op ↔
      op = .offset ∧ ∃ m, offset? node child = some m ∧ wordBound ≤ m) ∧
    (∀ r, wordOffset? node child = .ok r →
      offset? node child = r ∧ ∀ m, r = some m → m < wordBound) ∧
    (∀ m, offset? node child = some m → wordBound ≤ m →
      node.span.start.row < child.span.start.row ∧ node.text.utf8ByteSize < m) ∧
    ∀ (o : Options) (a b : Tree),
      (∀ op, compareChecked o a b = .error op → Overflows o 0 a b op) ∧
      ∀ z, compareChecked o a b = .ok z ↔ z = compare o a b ∧ ∀ op, ¬ Overflows o 0 a b op := by
  have hword := wordOffset?_eq hchild htext
  refine ⟨fun op => ?_, fun r hr => ?_, fun m => lt_of_offset? hchild htext,
    compareChecked_spec⟩
  · cases hexact : offset? node child with
    | none => simp [hword, hexact]
    | some m =>
      by_cases hle : wordBound ≤ m
      · simp [hword, hexact, hle, eq_comm]
      · simp [hword, hexact, hle]
  · rw [hword] at hr
    split_ifs at hr with hany
    cases hr
    refine ⟨rfl, fun m hm => ?_⟩
    rw [hm] at hany
    simpa using hany

/-- A name at a place. -/
def nameAt (row column : Nat) : Tree :=
  ⟨"identifier", "a", ⟨⟨row, column⟩, ⟨row, column⟩⟩, [], ∅⟩

/-- A text of two lines around a name that is placed somewhere. -/
def template (row column : Nat) : Tree :=
  ⟨"template_string", "aba\n", ⟨⟨0, 0⟩, ⟨1, 0⟩⟩, [nameAt row column], ∅⟩

/-- With the last column that fits, all operations stay in the range. -/
theorem wordOffset_template :
    wordOffset? (template 1 (wordBound - 5)) (nameAt 1 (wordBound - 5)) =
      .ok (some (wordBound - 1)) ∧
    offset? (template 1 (wordBound - 5)) (nameAt 1 (wordBound - 5)) = some (wordBound - 1) := by
  have hchild : (nameAt 1 (wordBound - 5)).span.start.InWords := ⟨by decide, by decide⟩
  have htext : (template 1 (wordBound - 5)).text.utf8ByteSize < wordBound := by decide +kernel
  obtain ⟨-, hok, -⟩ := wordOffset_overflows hchild htext
  have hword : wordOffset? (template 1 (wordBound - 5)) (nameAt 1 (wordBound - 5)) =
      .ok (some (wordBound - 1)) := by decide +kernel
  exact ⟨hword, (hok _ hword).1⟩

lemma inWords_template {row column : Nat} (hrow : row < wordBound) (hcolumn : column < wordBound) :
    (template row column).InWords := by
  have hsmall (n : Nat) (hn : n < 2) : n < wordBound := Nat.lt_trans hn (by decide)
  have hfields : (∅ : Table Nat).entries = [] := rfl
  simp [template, nameAt, Tree.InWords, Tree.InWordsAll, Position.InWords, hrow, hcolumn, hsmall,
    hfields]

/-- Three columns further the last sum leaves the range, in a tree that is read from its record.
The comparison with a tree that differs in the place of the name alone fails. The exact offset lies
outside the text; with it both names are cut out where they first occur, and the own texts are the
same. -/
theorem compareChecked_template :
    let a := template 1 (wordBound - 2)
    let b := template 0 0
    Tree.ofDatum? a.toDatum = some a ∧ Tree.ofDatum? b.toDatum = some b ∧
    (∃ child ∈ a.children, wordOffset? a child = .error .offset ∧
      offset? a child = some (wordBound + 2)) ∧
    compareChecked {} a b = .error .offset ∧
    ownText a = "ba" ∧ ownText b = "ba" ∧ (compare {} a b).identical = true := by
  intro a b
  refine ⟨Tree.ofDatum?_toDatum a (inWords_template (by decide) (by decide)),
    Tree.ofDatum?_toDatum b (inWords_template (by decide) (by decide)),
    ⟨_, List.mem_singleton_self _, by decide +kernel, by decide +kernel⟩, ?_, by decide +kernel,
    by decide +kernel, by decide +kernel⟩
  have hcheck : checkAt {} 0 a b = .error .offset := by decide +kernel
  rw [compareChecked, hcheck]
  rfl

end Arbor.Comparison
