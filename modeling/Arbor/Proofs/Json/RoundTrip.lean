import Arbor.Json.Reader
import Arbor.Json.Writer
import Mathlib.Data.List.TakeWhile
import Mathlib.Tactic.Common

/-!
# Reading what was written

A value without fractions whose whole numbers fit into 64 bits is read back from its text. The text
is cut into the tokens of the value, and these are put together to the value again. Both halves are
stated for a value with something behind it: a token ends where a mark of punctuation or the end of
the text follows, and a value that is complete is delivered to the container around it.
-/

namespace Arbor

/-! ### Digits -/

lemma digitValue_digitChar : ∀ d < 10, digitValue d.digitChar = d := by decide

lemma ofDigits_append_singleton (base : Nat) (ds : List Char) (c : Char) :
    ofDigits base (ds ++ [c]) = ofDigits base ds * base + digitValue c := by
  rw [ofDigits, List.foldl_append]
  rfl

lemma ofDigits_toDigits (n : Nat) : ofDigits 10 (Nat.toDigits 10 n) = n := by
  rcases Nat.lt_or_ge n 10 with hlt | hge
  · rw [Nat.toDigits_of_lt_base hlt, ← List.nil_append [n.digitChar], ofDigits_append_singleton,
      digitValue_digitChar n hlt]
    exact Nat.zero_add n
  · have hlast : n % 10 < 10 := Nat.mod_lt n (by omega)
    rw [Nat.toDigits_of_base_le (by omega) hge, ofDigits_append_singleton,
      ofDigits_toDigits (n / 10), digitValue_digitChar _ hlast]
    omega
termination_by n

/-- Only zero starts with a zero. -/
lemma head?_toDigits_ne {n : Nat} (h : 0 < n) : (Nat.toDigits 10 n).head? ≠ some '0' := by
  rcases Nat.lt_or_ge n 10 with hlt | hge
  · have hdigit : ∀ d < 10, 0 < d → d.digitChar ≠ '0' := by decide
    rw [Nat.toDigits_of_lt_base hlt]
    simpa using hdigit n hlt h
  · have hhead := head?_toDigits_ne (n := n / 10) (by omega)
    have hsome : (Nat.toDigits 10 (n / 10)).head? ≠ none := by
      rw [ne_eq, List.head?_eq_none_iff]
      exact Nat.toDigits_ne_nil
    rw [Nat.toDigits_of_base_le (by omega) hge, List.head?_append,
      Option.or_of_isSome (Option.isSome_iff_ne_none.2 hsome)]
    exact hhead
termination_by n

namespace Json

/-- No zero stands before the other digits of a number. -/
lemma leadingZero_toDigits (n : Nat) :
    ((Nat.toDigits 10 n).head? == some '0' && 1 < (Nat.toDigits 10 n).length) = false := by
  rcases Nat.eq_zero_or_pos n with rfl | hpos
  · rfl
  · have hne : ((Nat.toDigits 10 n).head? == some '0') = false := by
      rw [beq_eq_false_iff_ne]
      exact head?_toDigits_ne hpos
    rw [hne, Bool.false_and]

lemma isDigit_of_mem {n : Nat} {c : Char} (h : c ∈ Nat.toDigits 10 n) : c.isDigit = true :=
  Nat.isDigit_of_mem_toDigits (by decide) (by decide) h

/-- The digits of a number, with or without a sign, are read as one whole number. -/
lemma number?_toDigits (n : Nat) (negative : Bool) :
    number? ((if negative then ['-'] else []) ++ Nat.toDigits 10 n) =
      some (numberOf negative (Nat.toDigits 10 n) none none) := by
  have htake : (Nat.toDigits 10 n).takeWhile Char.isDigit = Nat.toDigits 10 n :=
    List.takeWhile_eq_self_iff.2 fun c hc => isDigit_of_mem hc
  have hdrop : (Nat.toDigits 10 n).dropWhile Char.isDigit = [] :=
    List.dropWhile_eq_nil_iff.2 fun c hc => isDigit_of_mem hc
  have hempty : (Nat.toDigits 10 n).isEmpty = false := by
    rw [List.isEmpty_eq_false_iff]
    exact Nat.toDigits_ne_nil
  have hzero := leadingZero_toDigits n
  cases negative with
  | true => simp [number?, htake, hdrop, hempty, hzero]
  | false =>
    have hsign : ∀ cs, Nat.toDigits 10 n ≠ '-' :: cs := by
      intro cs hcs
      exact absurd (isDigit_of_mem (hcs ▸ List.mem_cons_self)) (by decide)
    generalize Nat.toDigits 10 n = ds at *
    simp [number?, htake, hdrop, hempty, hzero]

/-- The characters of a whole number: its digits, after a sign if it is negative. -/
lemma toList_toString (i : Int) :
    (toString i).toList =
      (if decide (i < 0) then ['-'] else []) ++ Nat.toDigits 10 i.natAbs := by
  have hrepr (n : Nat) : n.repr.toList = Nat.toDigits 10 n := by
    rw [Nat.repr, String.toList_ofList]
  rw [Int.toString_eq_repr, Int.repr_eq_if]
  by_cases hsign : 0 ≤ i
  · have habs : i.toNat = i.natAbs := by omega
    rw [if_pos hsign, if_neg (by simpa using hsign), hrepr, habs, List.nil_append]
  · have habs : (-i).toNat = i.natAbs := by omega
    rw [if_neg hsign, if_pos (by simpa using hsign), String.toList_append, hrepr, habs]
    rfl

/-- A whole number of 64 bits, with or without sign, is read back from its digits. -/
lemma number?_toString {i : Int} (hlow : -(signedBound : Int) ≤ i) (hhigh : i < wordBound) :
    number? (toString i).toList = some (.integer i) := by
  rw [toList_toString, number?_toDigits, numberOf, ofDigits_toDigits]
  by_cases hsign : i < 0
  · have hpos : 0 < i.natAbs := by omega
    have hle : i.natAbs ≤ signedBound := by omega
    have habs : -(i.natAbs : Int) = i := by omega
    rw [if_neg (by simp [hsign]), if_pos (by simp [hsign, hpos, hle]), habs]
  · have hlt : i.natAbs < wordBound := by omega
    have habs : (i.natAbs : Int) = i := by omega
    rw [if_pos (by simp [hsign, hlt]), habs]

/-! ### Cutting into tokens -/

/-- The marks that end a number or a word. -/
def closers : List Char := [',', ':', ']', '\x7d']

lemma forall_closers {P : Char → Prop} :
    (∀ c ∈ closers, P c) ↔ P ',' ∧ P ':' ∧ P ']' ∧ P '\x7d' := by
  simp [closers]

/-- Nothing stands behind a token, or a mark that ends it. -/
def Closed (rest : List Char) : Prop := ∀ c ∈ rest.head?, c ∈ closers

lemma closed_nil : Closed [] := by simp [Closed]

lemma closed_cons {c : Char} {rest : List Char} (h : c ∈ closers) : Closed (c :: rest) := by
  simpa [Closed] using h

/-- A token is finished by what ends it. -/
lemma tokens?_of_closed {mode : Mode} {token : Token} {found : List Token} {rest : List Char}
    (hfinish : finish? mode = some [token])
    (hstep : ∀ c ∈ closers, step? mode c = (start? c).map fun r => (r.1, token :: r.2))
    (hrest : Closed rest) :
    tokens? mode found rest = tokens? .between (token :: found) rest := by
  cases rest with
  | nil =>
    rw [tokens?, tokens?, hfinish]
    rfl
  | cons c cs =>
    rw [tokens?, tokens?, hstep c (hrest c rfl), step?]
    cases start? c with
    | none => rfl
    | some r => simp

lemma tokens?_number {done : List Char} {d : Datum} {found : List Token} {rest : List Char}
    (hnumber : number? done.reverse = some d) (hrest : Closed rest) :
    tokens? (.number done) found rest = tokens? .between (.value d :: found) rest := by
  refine tokens?_of_closed (by simp [finish?, hnumber]) (fun c hc => ?_) hrest
  have hends : ∀ c ∈ closers, (c.isDigit || c ∈ ['+', '-', '.', 'e', 'E']) = false :=
    forall_closers.2 (by decide)
  simp only [step?, hends c hc, hnumber]
  cases start? c with
  | none => rfl
  | some r => rfl

lemma tokens?_word {done : List Char} {token : Token} {found : List Token} {rest : List Char}
    (hword : wordToken? done = some token) (hrest : Closed rest) :
    tokens? (.word done) found rest = tokens? .between (token :: found) rest := by
  refine tokens?_of_closed (by simp [finish?, hword]) (fun c hc => ?_) hrest
  have hends : ∀ c ∈ closers, c.isAlpha = false := forall_closers.2 (by decide)
  simp only [step?, hends c hc, hword]
  cases start? c with
  | none => rfl
  | some r => rfl

/-- A number goes on for as long as there are digits. -/
lemma tokens?_digits (ds done : List Char) (found : List Token) (rest : List Char)
    (h : ∀ c ∈ ds, c.isDigit = true) :
    tokens? (.number done) found (ds ++ rest) =
      tokens? (.number (ds.reverse ++ done)) found rest := by
  induction ds generalizing done with
  | nil => rfl
  | cons c ds ih =>
    have hc : c.isDigit = true := h c List.mem_cons_self
    have hstep : step? (.number done) c = some (.number (c :: done), []) := by simp [step?, hc]
    rw [List.cons_append, tokens?, hstep]
    refine (ih (c :: done) fun b hb => h b (List.mem_cons_of_mem _ hb)).trans ?_
    rw [List.reverse_cons, List.append_assoc]
    rfl

lemma start?_digit {c : Char} (h : c.isDigit = true) : start? c = some (.number [c], []) := by
  unfold start?
  split
  case h_12 => rw [h, Bool.true_or, if_pos rfl]
  -- Every other mark that a token starts with is no digit.
  all_goals exact absurd h (by decide)

/-- A text is cut into the given tokens, whatever was found before and whatever ends it. -/
def Cuts (text : List Char) (ts : List Token) : Prop :=
  ∀ found rest, Closed rest →
    tokens? .between found (text ++ rest) = tokens? .between (ts.reverse ++ found) rest

lemma cuts_toString {i : Int} (hlow : -(signedBound : Int) ≤ i) (hhigh : i < wordBound) :
    Cuts (toString i).toList [.value (.integer i)] := by
  intro found rest hrest
  have hnumber := number?_toString hlow hhigh
  rw [toList_toString] at hnumber ⊢
  have hall : ∀ c ∈ Nat.toDigits 10 i.natAbs, c.isDigit = true := fun c hc => isDigit_of_mem hc
  cases hdigits : Nat.toDigits 10 i.natAbs with
  | nil => exact absurd hdigits Nat.toDigits_ne_nil
  | cons c cs =>
    rw [hdigits] at hnumber hall
    cases hsign : decide (i < 0) with
    | true =>
      rw [hsign] at hnumber
      refine (tokens?_digits (c :: cs) ['-'] found rest hall).trans ?_
      exact tokens?_number (by simpa using hnumber) hrest
    | false =>
      rw [hsign] at hnumber
      have hcs : ∀ b ∈ cs, b.isDigit = true := fun b hb => hall b (List.mem_cons_of_mem _ hb)
      have hstart := start?_digit (hall c List.mem_cons_self)
      rw [if_neg (by simp), List.nil_append, List.cons_append, tokens?, step?, hstart]
      refine (tokens?_digits cs [c] found rest hcs).trans ?_
      exact tokens?_number (by simpa using hnumber) hrest

/-! ### Strings -/

lemma toList_quote (s : String) :
    (quote s).toList = '"' :: s.toList.flatMap (fun c => (escapeChar c).toList) ++ ['"'] := by
  have hfold : ∀ (cs : List Char) (out : String),
      (cs.foldl (fun out c => out ++ escapeChar c) out).toList =
        out.toList ++ cs.flatMap fun c => (escapeChar c).toList := by
    intro cs
    induction cs with
    | nil => simp
    | cons c cs ih => simp [ih]
  rw [quote, String.foldl_eq_foldl_toList, String.toList_append, hfold]
  rfl

/-- The number by which a control character is written. -/
lemma hexDigits_of_lt : ∀ n < 0x20,
    (hexDigits 4 n).toList = ['0', '0', (n / 16).digitChar, (n % 16).digitChar] ∧
      isHexDigit (n / 16).digitChar = true ∧ isHexDigit (n % 16).digitChar = true ∧
        ofDigits 16 ['0', '0', (n / 16).digitChar, (n % 16).digitChar] = n := by
  decide

/-- A control character is read back from its number. -/
lemma tokens?_hexDigits {c : Char} (h : c.toNat < 0x20) (done : List Char) (found : List Token)
    (rest : List Char) :
    tokens? (.coded done none true []) found ((hexDigits 4 c.toNat).toList ++ rest) =
      tokens? (.string (c :: done) none true) found rest := by
  obtain ⟨hdigits, hhigh, hlow, hvalue⟩ := hexDigits_of_lt c.toNat h
  have hzero : isHexDigit '0' = true := by decide
  have hunit : Mode.unit done none true c.toNat = .string (c :: done) none true := by
    rw [Mode.unit, if_neg (by omega), if_neg (by omega), Char.ofNat_toNat]
  simp [hdigits, tokens?, step?, hzero, hhigh, hlow, hvalue, hunit]

/-- A string goes on with the character that was written. -/
lemma tokens?_escapeChar (c : Char) (done : List Char) (found : List Token) (rest : List Char) :
    tokens? (.string done none true) found ((escapeChar c).toList ++ rest) =
      tokens? (.string (c :: done) none true) found rest := by
  unfold escapeChar
  split
  case h_8 hquote hslash _ _ _ _ _ =>
    split_ifs with hcontrol
    · have hmark (cs : List Char) : tokens? (.string done none true) found ("\\u".toList ++ cs) =
          tokens? (.coded done none true []) found cs := rfl
      rw [String.toList_append, List.append_assoc, hmark, tokens?_hexDigits hcontrol]
    · have hquote : (c == '"') = false := beq_eq_false_iff_ne.2 hquote
      have hslash : (c == '\\') = false := beq_eq_false_iff_ne.2 hslash
      have hstep : step? (.string done none true) c =
          some (.string (c :: done) none true, []) := by
        simp [step?, Mode.plain, hquote, hslash, hcontrol]
      rw [Char.toString, String.toList_singleton, List.singleton_append, tokens?, hstep]
      rfl
  all_goals rfl

lemma tokens?_escaped (cs done : List Char) (found : List Token) (rest : List Char) :
    tokens? (.string done none true) found
        (cs.flatMap (fun c => (escapeChar c).toList) ++ rest) =
      tokens? (.string (cs.reverse ++ done) none true) found rest := by
  induction cs generalizing done with
  | nil => rfl
  | cons c cs ih =>
    rw [List.flatMap_cons, List.append_assoc, tokens?_escapeChar, ih, List.reverse_cons,
      List.append_assoc]
    rfl

/-- A text in quotes is one token, whatever follows it. -/
lemma tokens?_quote (s : String) (found : List Token) (rest : List Char) :
    tokens? .between found ((quote s).toList ++ rest) =
      tokens? .between (.value (.text s) :: found) rest := by
  rw [toList_quote, List.append_assoc]
  refine (tokens?_escaped s.toList [] found ('"' :: rest)).trans ?_
  rw [List.append_nil, tokens?, step?]
  simp [stringToken]

/-! ### The tokens of a value -/

mutual

/-- The tokens that a value is made of. -/
def tokensOf : Datum → List Token
  | .list items => .openList :: [.comma].intercalate (itemTokens items) ++ [.closeList]
  | .record members =>
    .openRecord :: [.comma].intercalate (memberTokens members) ++ [.closeRecord]
  | d => [.value d]

/-- The tokens of the items of a list. -/
def itemTokens : List Datum → List (List Token)
  | [] => []
  | d :: ds => tokensOf d :: itemTokens ds

/-- The tokens of the members of a record. -/
def memberTokens : List (String × Datum) → List (List Token)
  | [] => []
  | (name, d) :: ms => (.value (.text name) :: .colon :: tokensOf d) :: memberTokens ms

end

end Json

/-! ### Values that are written without loss -/

namespace Datum

mutual

/-- The value is made of texts, truth values and whole numbers of 64 bits, in lists and records. -/
def Exact : Datum → Prop
  | null | bool _ | text _ => True
  | integer i => -(signedBound : Int) ≤ i ∧ i < wordBound
  | list items => ExactAll items
  | record members => ExactMembers members
  | decimal _ | sequence _ | unreadable => False

/-- Several values are exact. -/
def ExactAll : List Datum → Prop
  | [] => True
  | d :: ds => d.Exact ∧ ExactAll ds

/-- The members of a record are exact. -/
def ExactMembers : List (String × Datum) → Prop
  | [] => True
  | (_, d) :: ms => d.Exact ∧ ExactMembers ms

end

end Datum

namespace Json

namespace Cuts

lemma null : Cuts "null".toList [.value .null] :=
  have hword : wordToken? ['l', 'l', 'u', 'n'] = some (.value .null) := rfl
  fun _ _ hrest => tokens?_word hword hrest

lemma bool (b : Bool) : Cuts (if b then "true" else "false").toList [.value (.bool b)] := by
  have htrue : wordToken? ['e', 'u', 'r', 't'] = some (.value (.bool true)) := rfl
  have hfalse : wordToken? ['e', 's', 'l', 'a', 'f'] = some (.value (.bool false)) := rfl
  cases b with
  | true => exact fun _ _ hrest => tokens?_word htrue hrest
  | false => exact fun _ _ hrest => tokens?_word hfalse hrest

lemma text (s : String) : Cuts (quote s).toList [.value (.text s)] :=
  fun found rest _ => tokens?_quote s found rest

/-- A member is its name, a colon and its value. -/
lemma member {text : List Char} {ts : List Token} (h : Cuts text ts) (name : String) :
    Cuts ((quote name).toList ++ ':' :: text) (.value (.text name) :: .colon :: ts) := by
  intro found rest hrest
  rw [List.append_assoc, tokens?_quote]
  refine (h (.colon :: .value (.text name) :: found) rest hrest).trans ?_
  simp

/-- What is put between commas is cut piece by piece. -/
lemma intercalate {texts : List (List Char)} {tss : List (List Token)}
    (h : List.Forall₂ Cuts texts tss) :
    Cuts ([','].intercalate texts) ([.comma].intercalate tss) := by
  induction h with
  | nil => exact fun found rest _ => rfl
  | @cons text ts texts tss hfirst hmore ih =>
    intro found rest hrest
    cases hmore with
    | nil =>
      rw [List.intercalate_singleton, List.intercalate_singleton]
      exact hfirst found rest hrest
    | @cons text' ts' texts tss hsecond hmore =>
      rw [List.intercalate_cons_cons, List.intercalate_cons_cons, List.append_assoc,
        List.append_assoc, List.singleton_append, hfirst found _ (closed_cons (by decide))]
      refine (ih (.comma :: (ts.reverse ++ found)) rest hrest).trans ?_
      simp

/-- A list or a record is what its marks enclose. -/
lemma enclosed {text : List Char} {ts : List Token} (h : Cuts text ts) {first last : Char}
    {opening closing : Token} (hfirst : start? first = some (.between, [opening]))
    (hlast : start? last = some (.between, [closing])) (hclosed : last ∈ closers) :
    Cuts (first :: text ++ [last]) (opening :: ts ++ [closing]) := by
  intro found rest _
  rw [List.append_assoc, List.cons_append, tokens?, step?, hfirst]
  refine (h (opening :: found) (last :: rest) (closed_cons hclosed)).trans ?_
  rw [tokens?, step?, hlast]
  simp

end Cuts

mutual

lemma cuts_render (d : Datum) (h : d.Exact) : Cuts (render d).toList (tokensOf d) := by
  match d with
  | .null =>
    simp only [render, tokensOf]
    exact .null
  | .bool b =>
    simp only [render, tokensOf]
    exact .bool b
  | .integer i =>
    simp only [Datum.Exact] at h
    simp only [render, tokensOf]
    exact cuts_toString h.1 h.2
  | .text s =>
    simp only [render, tokensOf]
    exact .text s
  | .list items =>
    rw [Datum.Exact] at h
    rw [render, tokensOf, String.toList_append, String.toList_append, String.toList_intercalate]
    exact (Cuts.intercalate (cuts_renderAll items h)).enclosed rfl rfl (by decide)
  | .record members =>
    rw [Datum.Exact] at h
    rw [render, tokensOf, String.toList_append, String.toList_append, String.toList_intercalate]
    exact (Cuts.intercalate (cuts_renderMembers members h)).enclosed rfl rfl (by decide)
  | .decimal _ | .sequence _ | .unreadable => exact absurd h (by simp [Datum.Exact])

lemma cuts_renderAll (ds : List Datum) (h : Datum.ExactAll ds) :
    List.Forall₂ Cuts ((renderAll ds).map String.toList) (itemTokens ds) := by
  match ds with
  | [] =>
    rw [renderAll, itemTokens]
    exact .nil
  | d :: ds =>
    rw [Datum.ExactAll] at h
    rw [renderAll, itemTokens]
    exact .cons (cuts_render d h.1) (cuts_renderAll ds h.2)

lemma cuts_renderMembers (ms : List (String × Datum)) (h : Datum.ExactMembers ms) :
    List.Forall₂ Cuts ((renderMembers ms).map String.toList) (memberTokens ms) := by
  match ms with
  | [] =>
    rw [renderMembers, memberTokens]
    exact .nil
  | (name, d) :: ms =>
    rw [Datum.ExactMembers] at h
    rw [renderMembers, memberTokens]
    refine .cons ?_ (cuts_renderMembers ms h.2)
    rw [String.toList_append, String.toList_append, List.append_assoc]
    exact (cuts_render d h.1).member name

end

/-! ### Putting tokens together -/

/-- Tokens are put together to a value wherever one may stand. -/
def Parses (ts : List Token) (d : Datum) : Prop :=
  ∀ expect, expect = .value ∨ expect = .item → ∀ frames rest,
    assemble? expect frames (ts ++ rest) =
      assemble? (deliver d frames).1 (deliver d frames).2 rest

lemma Parses.value (d : Datum) : Parses [.value d] d := by
  rintro expect (rfl | rfl) frames rest
  · rfl
  · rfl

/-- A kind of container: its marks, what may come next in it, and how it is built up from what it
holds. -/
structure Container (α : Type) where
  opening : Token
  closing : Token
  /-- What may come behind the opening mark. -/
  first : Expect
  /-- What may come behind a comma. -/
  again : Expect
  /-- The container that is still open, with its contents in reverse. -/
  frame : List α → Frame
  whole : List α → Datum
  advance_opening : ∀ expect, expect = .value ∨ expect = .item → ∀ frames,
    advance? expect frames opening = some (first, frame [] :: frames)
  advance_comma : ∀ done frames,
    advance? .next (frame done :: frames) .comma = some (again, frame done :: frames)
  advance_closing : ∀ expect, expect = first ∨ expect = .next → ∀ done frames,
    advance? expect (frame done :: frames) closing = some (deliver (whole done.reverse) frames)

namespace Container

/-- The lists. -/
def list : Container Datum where
  opening := .openList
  closing := .closeList
  first := .item
  again := .value
  frame := .list
  whole := .list
  advance_opening := by
    rintro expect (rfl | rfl) frames
    · rfl
    · rfl
  advance_comma _ _ := rfl
  advance_closing := by
    rintro expect (rfl | rfl) done frames
    · rfl
    · rfl

/-- The records. -/
def record : Container (String × Datum) where
  opening := .openRecord
  closing := .closeRecord
  first := .member
  again := .name
  frame members := .record members true none
  whole := .record
  advance_opening := by
    rintro expect (rfl | rfl) frames
    · rfl
    · rfl
  advance_comma _ _ := rfl
  advance_closing := by
    rintro expect (rfl | rfl) done frames
    · rfl
    · rfl

variable {α : Type} (k : Container α)

/-- Tokens are put together to something that the container takes up. -/
def Enters (ts : List Token) (x : α) : Prop :=
  ∀ expect, expect = k.first ∨ expect = k.again → ∀ done frames rest,
    assemble? expect (k.frame done :: frames) (ts ++ rest) =
      assemble? .next (k.frame (x :: done) :: frames) rest

variable {k}

/-- What is put between commas enters the container piece by piece. -/
lemma assemble?_intercalate {ts : List Token} {tss : List (List Token)} {x : α} {xs : List α}
    (h : List.Forall₂ k.Enters (ts :: tss) (x :: xs)) {expect : Expect}
    (hexpect : expect = k.first ∨ expect = k.again) (done : List α) (frames : List Frame)
    (rest : List Token) :
    assemble? expect (k.frame done :: frames) ([.comma].intercalate (ts :: tss) ++ rest) =
      assemble? .next (k.frame ((x :: xs).reverse ++ done) :: frames) rest := by
  induction tss generalizing ts x xs expect done with
  | nil =>
    cases h with
    | cons hfirst hmore =>
      cases hmore
      rw [List.intercalate_singleton]
      exact hfirst expect hexpect done frames rest
  | cons ts' tss ih =>
    cases h with
    | cons hfirst hmore =>
      cases xs with
      | nil => cases hmore
      | cons x' xs =>
        rw [List.intercalate_cons_cons, List.append_assoc, List.append_assoc,
          hfirst expect hexpect, List.singleton_append, assemble?, k.advance_comma]
        refine (ih hmore (.inr rfl) (x :: done)).trans ?_
        simp

/-- A container is put together from its marks and what they enclose. -/
lemma parses {tss : List (List Token)} {xs : List α} (h : List.Forall₂ k.Enters tss xs) :
    Parses (k.opening :: [.comma].intercalate tss ++ [k.closing]) (k.whole xs) := by
  intro expect hexpect frames rest
  rw [List.append_assoc, List.cons_append, assemble?, k.advance_opening expect hexpect]
  cases h with
  | nil =>
    refine Eq.trans (b := assemble? k.first (k.frame [] :: frames) (k.closing :: rest)) rfl ?_
    rw [assemble?, k.advance_closing _ (.inl rfl)]
    rfl
  | cons hfirst hmore =>
    refine (assemble?_intercalate (.cons hfirst hmore) (.inl rfl) [] frames _).trans ?_
    rw [List.singleton_append, assemble?, k.advance_closing _ (.inr rfl), List.append_nil,
      List.reverse_reverse]

end Container

lemma Parses.enters_list {ts : List Token} {d : Datum} (h : Parses ts d) :
    Container.list.Enters ts d :=
  fun expect hexpect done frames rest => h expect hexpect.symm (.list done :: frames) rest

lemma Parses.enters_record {ts : List Token} {d : Datum} (h : Parses ts d) (name : String) :
    Container.record.Enters (.value (.text name) :: .colon :: ts) (name, d) := by
  rintro expect (rfl | rfl) done frames rest
  · exact h .value (.inl rfl) (.record done true (some name) :: frames) rest
  · exact h .value (.inl rfl) (.record done true (some name) :: frames) rest

mutual

lemma parses_tokensOf (d : Datum) : Parses (tokensOf d) d := by
  match d with
  | .list items =>
    rw [tokensOf]
    exact Container.list.parses (enters_itemTokens items)
  | .record members =>
    rw [tokensOf]
    exact Container.record.parses (enters_memberTokens members)
  | .null | .bool _ | .integer _ | .decimal _ | .text _ | .sequence _ | .unreadable =>
    simp only [tokensOf]
    exact .value _

lemma enters_itemTokens (ds : List Datum) :
    List.Forall₂ Container.list.Enters (itemTokens ds) ds := by
  match ds with
  | [] =>
    rw [itemTokens]
    exact .nil
  | d :: ds =>
    rw [itemTokens]
    exact .cons (parses_tokensOf d).enters_list (enters_itemTokens ds)

lemma enters_memberTokens (ms : List (String × Datum)) :
    List.Forall₂ Container.record.Enters (memberTokens ms) ms := by
  match ms with
  | [] =>
    rw [memberTokens]
    exact .nil
  | (name, d) :: ms =>
    rw [memberTokens]
    exact .cons ((parses_tokensOf d).enters_record name) (enters_memberTokens ms)

end

/-- A value without fractions whose numbers fit is read back from its text. -/
lemma read?_render {d : Datum} (h : d.Exact) : read? (render d) = some d := by
  have hcuts := cuts_render d h [] [] closed_nil
  have hparses := parses_tokensOf d .value (.inl rfl) [] []
  have htokens : tokens? .between [] (render d).toList = some (tokensOf d) := by
    rw [List.append_nil] at hcuts
    rw [hcuts, tokens?, finish?]
    simp
  rw [List.append_nil] at hparses
  rw [read?, htokens, Option.bind_some, hparses]
  rfl

end Json

end Arbor
