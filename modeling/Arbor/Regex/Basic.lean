import Arbor.Regex.Place

/-!
Regular expressions in a form in which nothing stands that can be told more simply: a sequence has
no sequence in it, neighbouring characters are one text, a choice among characters is a set of
characters, and what all branches of a choice start with is taken out of it. The functions that
build expressions keep to this form and do not change what an expression matches.
-/

namespace Arbor

/-- A regular expression. -/
inductive Regex where
  | empty
  /-- The characters one after the other, at least one. -/
  | text (cs : List Char)
  /-- Any one member of a set. -/
  | letter (s : CharSet)
  | place (p : Regex.Place)
  /-- At least and at most so many times, the latter without a bound if there is none. -/
  | repeated (r : Regex) (least : Nat) (most : Option Nat)
  /-- A group, with its number. -/
  | group (number : Nat) (r : Regex)
  | seq (rs : List Regex)
  | alt (rs : List Regex)
  deriving BEq, Repr

namespace Regex

/-! ### Lengths -/

mutual

/-- Whether no match takes up a character. -/
def isWeightless : Regex → Bool
  | empty | place _ => true
  | text _ | letter _ => false
  | repeated r _ most => most.isSome && r.isWeightless
  | group _ r => r.isWeightless
  | seq rs | alt rs => areWeightless rs

/-- Whether no match of any of the expressions takes up a character. -/
def areWeightless : List Regex → Bool
  | [] => true
  | r :: rs => r.isWeightless && areWeightless rs

end

mutual

/-- The least number of characters that a match takes up, if this can be told: an empty set of
characters has no match. -/
def leastLength? : Regex → Option Nat
  | empty | place _ => some 0
  | text cs => some cs.length
  | letter s => if s == .empty then none else some 1
  | repeated r least _ => r.leastLength?.map (· * least)
  | group _ r => r.leastLength?
  | seq rs => sumLength? rs
  | alt rs => minLength? rs

/-- The least number of characters that the expressions take up one after the other. -/
def sumLength? : List Regex → Option Nat
  | [] => some 0
  | r :: rs => r.leastLength?.bind fun m => (sumLength? rs).map (m + ·)

/-- The least number of characters that one of the expressions takes up. -/
def minLength? : List Regex → Option Nat
  | [] => none
  | [r] => r.leastLength?
  | r :: rs => r.leastLength?.bind fun m => (minLength? rs).map (min m)

end

/-! ### Building expressions -/

/-- Any one member of a set. -/
def ofSet (s : CharSet) : Regex :=
  match s.only? with
  | some c => text [c]
  | none => letter s

/-- Repeats an expression. What takes up no character need not be repeated more than once. -/
def times (r : Regex) (least : Nat) (most : Option Nat) : Regex :=
  let (least, most) :=
    if r.isWeightless then (min least 1, some (min (most.getD 1) 1)) else (least, most)
  if most = some 0 then empty
  else if least = 1 && most = some 1 then r
  else repeated r least most

/-- Puts an expression before a sequence. -/
def before : Regex → List Regex → List Regex
  | empty, rs => rs
  | text cs, text ds :: rs => text (cs ++ ds) :: rs
  | r, rs => r :: rs

/-- The parts of a sequence. -/
def parts : Regex → List Regex
  | seq rs => rs
  | r => [r]

/-- The branches of a choice. -/
def branches : Regex → List Regex
  | alt rs => rs
  | r => [r]

/-- The expressions one after the other. -/
def inOrder (rs : List Regex) : Regex :=
  match (rs.flatMap parts).foldr before [] with
  | [] => empty
  | [r] => r
  | rs => seq rs

/-- The character that an expression consists of. -/
def char? : Regex → Option Char
  | text [c] => some c
  | _ => none

/-- The set of which an expression is any member. -/
def set? : Regex → Option CharSet
  | letter s => some s
  | _ => none

/-- The characters that an expression consists of. -/
def text? : Regex → Option (List Char)
  | text cs => some cs
  | _ => none

/-- The parts of an expression that is a sequence. -/
def seq? : Regex → Option (List Regex)
  | seq rs => some rs
  | _ => none

/-- One of the expressions. Only characters or only sets make a set. -/
def choice (rs : List Regex) : Regex :=
  match rs.flatMap branches with
  | [] => letter .empty
  | [r] => r
  | rs =>
    match rs.mapM char?, rs.mapM set? with
    | some cs, _ => ofSet (.ofList (cs.map Char.toNat))
    | none, some sets => ofSet (.anyOf sets)
    | none, none => alt rs

/-- What two lists start with alike. -/
def commonStart : List Regex → List Regex → List Regex
  | r :: rs, s :: ss => if r == s then r :: commonStart rs ss else []
  | _, _ => []

/-- One of the expressions. What all of them start with comes first, if they are sequences. -/
def oneOf (rs : List Regex) : Regex :=
  match choice rs with
  | alt rs =>
    match rs.mapM seq? with
    | some (first :: others) =>
      let start := others.foldl commonStart first
      if start.isEmpty then alt rs
      else
        let ends := (first :: others).map fun parts => inOrder (parts.drop start.length)
        inOrder (start ++ [choice ends])
    | _ => alt rs
  | r => r

end Regex

end Arbor
