import Arbor.Regex.Basic

/-!
Where an expression occurs in a text. An expression takes a set of places of the text to the set of
places at which a match that starts in the first can end, so it occurs in the text exactly if it
takes the set of all places to a set that is not empty. A set of places is a number whose bits are
its members.
-/

namespace Arbor.Regex

/-! ### Sets of places -/

/-- The set of the places at which a list of answers says yes. -/
def placesOf (answers : List Bool) : Nat :=
  answers.foldr (fun b s => 2 * s + b.toNat) 0

/-- The members of the first set that are not in the second. -/
def without (s t : Nat) : Nat := (s ||| t) ^^^ t

/-- Takes a step a number of times, or until nothing is left. -/
def iterate (step : Nat → Nat) : Nat → Nat → Nat
  | 0, s => s
  | k + 1, s => if s = 0 then 0 else iterate step k (step s)

/-- Adds what a step leads to, a number of times or until nothing is new. Steps are taken from the
places that came last, for where the others lead to is known. -/
def spread (step : Nat → Nat) : Nat → Nat → Nat → Nat
  | 0, known, _ => known
  | k + 1, known, last =>
    let next := without (step last) known
    if next = 0 then known else spread step k (known ||| next) next

/-! ### Expressions for one text -/

/-- What an expression comes to for one text. -/
inductive Plan where
  | stay
  /-- One character further, from the given places. -/
  | move (places : Nat)
  /-- Nowhere, but only at the given places. -/
  | check (places : Nat)
  | seq (p q : Plan)
  | alt (p q : Plan)
  | repeated (p : Plan) (least : Nat) (most : Option Nat)

/-- The places at which a match that starts in a set of places can end, for a text with `n`
characters.

A step of a repetition goes to the right or stands still, so that `2 * n + 3` steps that have to be
taken lead to the same places as any larger number, and `n + 1` steps that may be taken find every
place. -/
def Plan.reach (n : Nat) : Plan → Nat → Nat
  | stay, s => s
  | move m, s => (s &&& m) <<< 1
  | check m, s => s &&& m
  | seq p q, s => q.reach n (p.reach n s)
  | alt p q, s => p.reach n s ||| q.reach n s
  | repeated p least most, s =>
    let start := iterate (fun s => p.reach n s) (min least (2 * n + 3)) s
    let more := match most with
      | some m => min (m - least) (n + 1)
      | none => n + 1
    spread (fun s => p.reach n s) more start start

section

variable (letters : CharSet → Nat) (places : Place → Nat)

mutual

/-- What an expression comes to, given the places before the members of a set of characters and the
places at which a condition holds. -/
def plan : Regex → Plan
  | empty => .stay
  | text cs => (cs.map fun c => Plan.move (letters (.single c.toNat))).foldr .seq .stay
  | letter s => .move (letters s)
  | place p => .check (places p)
  | repeated r least most => .repeated (plan r) least most
  | group _ r => plan r
  | seq rs => planAll rs
  | alt rs => planAny rs

/-- What expressions one after the other come to. -/
def planAll : List Regex → Plan
  | [] => .stay
  | r :: rs => .seq (plan r) (planAll rs)

/-- What a choice among expressions comes to. -/
def planAny : List Regex → Plan
  | [] => .check 0
  | r :: rs => .alt (plan r) (planAny rs)

end

end

/-- Whether the expression matches some part of a text. -/
def occursIn (r : Regex) (text : String) : Bool :=
  let cs := text.toList
  let letters (s : CharSet) : Nat := placesOf (cs.map fun c => s.contains c.toNat)
  let edges := (none :: cs.map some).zip (cs.map some ++ [none])
  let places (p : Place) : Nat := placesOf (edges.map fun e => p.holds e.1 e.2)
  (plan letters places r).reach cs.length (1 <<< (cs.length + 1) - 1) != 0

end Arbor.Regex
