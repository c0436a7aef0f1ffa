import Mathlib.Data.List.Forall2
import Mathlib.Tactic.Common

/-!
# Lists that are related but for new elements

Lists may be related element by element, and options like lists of at most one element. If new
elements are put into the second list, the elements that were there move on. Whatever is made of the
two lists is related again if it passes over what is new.
-/

namespace Arbor

/-! ### Options and lists -/

lemma eq_of_rel {α : Type} {x y : Option α} (h : Option.Rel Eq x y) : y = x := by
  cases h with
  | none => rfl
  | some hab => rw [hab]

lemma forall₂_toList {α β : Type} {R : α → β → Prop} {x : Option α} {y : Option β}
    (h : Option.Rel R x y) : List.Forall₂ R x.toList y.toList := by
  cases h with
  | none => exact .nil
  | some hab => exact .cons hab .nil

lemma rel_of_map {α β γ δ : Type} {R : α → β → Prop} {f : γ → α} {g : δ → β} {x : Option γ}
    {y : Option δ} (h : Option.Rel R (x.map f) (y.map g)) :
    Option.Rel (fun c d => R (f c) (g d)) x y := by
  cases x with
  | none =>
    cases y with
    | none => exact .none
    | some d => cases h
  | some c =>
    cases y with
    | none => cases h
    | some d => exact .some (Option.rel_some_some.1 h)

lemma rel_filter {α β : Type} {R : α → β → Prop} {x : Option α} {y : Option β}
    (h : Option.Rel R x y) {p : α → Bool} {q : β → Bool} (hpq : ∀ a b, R a b → q b = p a) :
    Option.Rel R (x.filter p) (y.filter q) := by
  cases h with
  | none => exact .none
  | some hab =>
    rw [Option.filter_some, Option.filter_some, hpq _ _ hab]
    split_ifs
    · exact .some hab
    · exact .none

lemma map_eq_of_forall₂ {α β γ : Type} {R : α → β → Prop} {as : List α} {bs : List β}
    (h : List.Forall₂ R as bs) {f : α → γ} {g : β → γ} (hfg : ∀ a b, R a b → g b = f a) :
    bs.map g = as.map f := by
  induction h with
  | nil => rfl
  | cons hab _ ih => rw [List.map_cons, List.map_cons, hfg _ _ hab, ih]

lemma forall₂_iff_getElem? {α β : Type} {R : α → β → Prop} {as : List α} {bs : List β} :
    List.Forall₂ R as bs ↔ ∀ i : Nat, Option.Rel R as[i]? bs[i]? := by
  constructor
  · intro h i
    induction h generalizing i with
    | nil => exact .none
    | cons hab _ ih =>
      cases i with
      | zero => exact .some hab
      | succ i => exact ih i
  · intro h
    induction as generalizing bs with
    | nil =>
      cases bs with
      | nil => exact .nil
      | cons b bs => cases h 0
    | cons a as ih =>
      cases bs with
      | nil => cases h 0
      | cons b bs => exact .cons (Option.rel_some_some.1 (h 0)) (ih fun i => h (i + 1))

lemma forall₂_modify {α β : Type} {R : α → β → Prop} {as : List α} {bs : List β}
    (h : List.Forall₂ R as bs) {f : α → α} {g : β → β} (hfg : ∀ a b, R a b → R (f a) (g b))
    (i : Nat) : List.Forall₂ R (as.modify i f) (bs.modify i g) := by
  induction h generalizing i with
  | nil => simp
  | cons hab hrest ih =>
    cases i with
    | zero => exact .cons (hfg _ _ hab) hrest
    | succ i => exact .cons hab (ih i)

/-! ### Lists with new elements -/

/-- The second list is the first with new elements put in. The marks tell which of its elements
stand for those of the first list. -/
inductive Interspersed {α β : Type} (New : β → Prop) (R : α → β → Prop) :
    List Bool → List α → List β → Prop where
  | nil : Interspersed New R [] [] []
  | old {a : α} {b : β} {marks : List Bool} {as : List α} {bs : List β} :
    R a b → Interspersed New R marks as bs → Interspersed New R (true :: marks) (a :: as) (b :: bs)
  | new {b : β} {marks : List Bool} {as : List α} {bs : List β} :
    New b → Interspersed New R marks as bs → Interspersed New R (false :: marks) as (b :: bs)

/-- Where the element at an index stands once new elements are put in. -/
def shifted : List Bool → Nat → Nat
  | [], i => i
  | false :: marks, i => shifted marks i + 1
  | true :: _, 0 => 0
  | true :: marks, i + 1 => shifted marks i + 1

lemma shifted_replicate (k i : Nat) : shifted (List.replicate k true) i = i := by
  induction k generalizing i with
  | zero => rfl
  | succ k ih =>
    rw [List.replicate_succ]
    cases i with
    | zero => rfl
    | succ i => rw [shifted, ih]

/-- The second list is the first with new elements somewhere. -/
def Spread {α β : Type} (New : β → Prop) (R : α → β → Prop) (as : List α) (bs : List β) : Prop :=
  ∃ marks, Interspersed New R marks as bs

namespace Interspersed

variable {α β : Type} {New : β → Prop} {R S : α → β → Prop} {marks : List Bool} {as : List α}
  {bs : List β}

lemma mono (h : Interspersed New R marks as bs) (hRS : ∀ a ∈ as, ∀ b, R a b → S a b) :
    Interspersed New S marks as bs := by
  induction h with
  | nil => exact .nil
  | old hab _ ih =>
    exact .old (hRS _ (by simp) _ hab) (ih fun a ha => hRS a (List.mem_cons_of_mem _ ha))
  | new hb _ ih => exact .new hb (ih hRS)

lemma of_forall₂ (h : List.Forall₂ R as bs) :
    Interspersed New R (List.replicate as.length true) as bs := by
  induction h with
  | nil => exact .nil
  | cons hab _ ih => exact .old hab ih

lemma getElem? (h : Interspersed New R marks as bs) (i : Nat) :
    Option.Rel R as[i]? bs[shifted marks i]? := by
  induction h generalizing i with
  | nil => exact .none
  | old hab _ ih =>
    cases i with
    | zero => exact .some hab
    | succ i => exact ih i
  | new _ _ ih => exact ih i

lemma head? (h : Interspersed New R marks as bs) (hmarks : marks.head? ≠ some false) :
    Option.Rel R as.head? bs.head? := by
  cases h with
  | nil => exact .none
  | old hab _ => exact .some hab
  | new _ _ => exact absurd rfl hmarks

lemma exists_getLast? (h : Interspersed New R marks as bs) (hmarks : marks.getLast? = some true) :
    ∃ a b, as.getLast? = some a ∧ bs.getLast? = some b ∧ R a b := by
  induction h with
  | nil => cases hmarks
  | @old a b marks as bs hab hrest ih =>
    cases hlast : marks.getLast? with
    | none =>
      obtain rfl := List.getLast?_eq_none_iff.1 hlast
      cases hrest
      exact ⟨a, b, rfl, rfl, hab⟩
    | some mark =>
      rw [List.getLast?_cons, hlast] at hmarks
      obtain ⟨a', b', ha, hb, hab'⟩ := ih (hlast.trans hmarks)
      exact ⟨a', b', by simp [List.getLast?_cons, ha], by simp [List.getLast?_cons, hb], hab'⟩
  | @new b marks as bs _ _ ih =>
    cases hlast : marks.getLast? with
    | none => simp [List.getLast?_cons, hlast] at hmarks
    | some mark =>
      rw [List.getLast?_cons, hlast] at hmarks
      obtain ⟨a', b', ha, hb, hab'⟩ := ih (hlast.trans hmarks)
      exact ⟨a', b', ha, by simp [List.getLast?_cons, hb], hab'⟩

lemma getLast? (h : Interspersed New R marks as bs) (hmarks : marks.getLast? ≠ some false) :
    Option.Rel R as.getLast? bs.getLast? := by
  cases hlast : marks.getLast? with
  | none =>
    obtain rfl := List.getLast?_eq_none_iff.1 hlast
    cases h
    exact .none
  | some mark =>
    obtain rfl : mark = true := by simpa [hlast] using hmarks
    obtain ⟨a, b, ha, hb, hab⟩ := h.exists_getLast? hlast
    rw [ha, hb]
    exact .some hab

end Interspersed

namespace Spread

variable {α β γ δ : Type} {New : β → Prop} {R : α → β → Prop} {as : List α} {bs : List β}

lemma of_forall₂ (h : List.Forall₂ R as bs) : Spread New R as bs := ⟨_, .of_forall₂ h⟩

lemma of_option {x : Option α} {y : Option β} (h : Option.Rel R x y) :
    Spread New R x.toList y.toList :=
  .of_forall₂ (forall₂_toList h)

lemma of_map {f : γ → α} {g : δ → β} {cs : List γ} {ds : List δ}
    (h : Spread New R (cs.map f) (ds.map g)) :
    Spread (fun d => New (g d)) (fun c d => R (f c) (g d)) cs ds := by
  obtain ⟨marks, h⟩ := h
  generalize has : cs.map f = as at h
  generalize hbs : ds.map g = bs at h
  refine ⟨marks, ?_⟩
  induction h generalizing cs ds with
  | nil =>
    obtain rfl := List.map_eq_nil_iff.1 has
    obtain rfl := List.map_eq_nil_iff.1 hbs
    exact .nil
  | old hab _ ih =>
    obtain ⟨c, cs, rfl, rfl, rfl⟩ := List.map_eq_cons_iff.1 has
    obtain ⟨d, ds, rfl, rfl, rfl⟩ := List.map_eq_cons_iff.1 hbs
    exact .old hab (ih rfl rfl)
  | new hb _ ih =>
    obtain ⟨d, ds, rfl, rfl, rfl⟩ := List.map_eq_cons_iff.1 hbs
    exact .new hb (ih has rfl)

/-- A test that does not tell counterparts apart. -/
lemma filter (h : Spread New R as bs) {p : α → Bool} {q : β → Bool}
    (hpq : ∀ a b, R a b → q b = p a) : Spread New R (as.filter p) (bs.filter q) := by
  obtain ⟨marks, h⟩ := h
  induction h with
  | nil => exact ⟨_, .nil⟩
  | @old a b _ as bs hab _ ih =>
    obtain ⟨marks, ih⟩ := ih
    rw [List.filter_cons, List.filter_cons, hpq a b hab]
    split_ifs
    · exact ⟨_, .old hab ih⟩
    · exact ⟨_, ih⟩
  | @new b _ as bs hb _ ih =>
    obtain ⟨marks, ih⟩ := ih
    rw [List.filter_cons]
    split_ifs
    · exact ⟨_, .new hb ih⟩
    · exact ⟨_, ih⟩

/-- A test that fails for what is new leaves counterparts only. -/
lemma forall₂_filter (h : Spread New R as bs) {p : α → Bool} {q : β → Bool}
    (hpq : ∀ a b, R a b → q b = p a) (hq : ∀ b, New b → q b = false) :
    List.Forall₂ R (as.filter p) (bs.filter q) := by
  obtain ⟨marks, h⟩ := h
  induction h with
  | nil => exact .nil
  | @old a b _ as bs hab _ ih =>
    rw [List.filter_cons, List.filter_cons, hpq a b hab]
    split_ifs
    · exact .cons hab ih
    · exact ih
  | @new b _ as bs hb _ ih =>
    rw [List.filter_cons, hq b hb]
    exact ih

lemma find? (h : Spread New R as bs) {p : α → Bool} {q : β → Bool}
    (hpq : ∀ a b, R a b → q b = p a) (hq : ∀ b, New b → q b = false) :
    Option.Rel R (as.find? p) (bs.find? q) := by
  have hfilter := h.forall₂_filter hpq hq
  rw [← List.head?_filter, ← List.head?_filter]
  generalize as.filter p = as, bs.filter q = bs at hfilter
  cases hfilter with
  | nil => exact .none
  | cons hab _ => exact .some hab

lemma any (h : Spread New R as bs) {p : α → Bool} {q : β → Bool}
    (hpq : ∀ a ∈ as, ∀ b, R a b → q b = p a) (hq : ∀ b, New b → q b = false) :
    bs.any q = as.any p := by
  obtain ⟨marks, h⟩ := h
  induction h with
  | nil => rfl
  | @old a b _ as bs hab _ ih =>
    rw [List.any_cons, List.any_cons, hpq a (by simp) b hab,
      ih fun a ha => hpq a (List.mem_cons_of_mem _ ha)]
  | @new b _ as bs hb _ ih =>
    rw [List.any_cons, hq b hb, Bool.false_or]
    exact ih hpq

/-- What counterparts give rise to is related if what is new gives rise to nothing that counts. -/
lemma flatMap (h : Spread New R as bs) {L : List γ → List δ → Prop} {f : α → List γ}
    {g : β → List δ} (nil : L [] [])
    (append : ∀ {xs ys xs' ys'}, L xs ys → L xs' ys' → L (xs ++ xs') (ys ++ ys'))
    (old : ∀ a ∈ as, ∀ b, R a b → L (f a) (g b)) (new : ∀ b, New b → L [] (g b)) :
    L (as.flatMap f) (bs.flatMap g) := by
  obtain ⟨marks, h⟩ := h
  induction h with
  | nil => exact nil
  | @old a b _ as bs hab _ ih =>
    rw [List.flatMap_cons, List.flatMap_cons]
    exact append (old a (by simp) b hab) (ih fun a ha => old a (List.mem_cons_of_mem _ ha))
  | @new b _ as bs hb _ ih =>
    rw [List.flatMap_cons, ← List.nil_append (as.flatMap f)]
    exact append (new b hb) (ih old)

lemma forall₂_flatMap (h : Spread New R as bs) {S : γ → δ → Prop} {f : α → List γ}
    {g : β → List δ} (old : ∀ a ∈ as, ∀ b, R a b → List.Forall₂ S (f a) (g b))
    (new : ∀ b, New b → g b = []) : List.Forall₂ S (as.flatMap f) (bs.flatMap g) := by
  refine h.flatMap .nil (fun h h' => List.rel_append h h') old fun b hb => ?_
  rw [new b hb]
  exact .nil

end Spread

end Arbor
