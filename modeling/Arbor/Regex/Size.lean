import Arbor.Regex.Basic
import Arbor.Text.Encoding

/-!
The room that an expression takes up as an automaton that reads a text byte by byte, forwards or
backwards. A repetition is written out as often as it has to be taken, so a short expression can
stand for a large automaton, and those that are too large are not accepted.
-/

namespace Arbor.Regex

/-- The room for a state. -/
def stateRoom : Nat := 32

/-- The room for a transition that reads nothing. -/
def linkRoom : Nat := 4

/-- The room for a transition that reads a run of bytes, in a state with several. -/
def runRoom : Nat := 8

/-! ### Sets of characters -/

/-- The first runs of sequences and what follows each of them. Sequences in order that start with
the same run stand together. -/
def groupRuns : List (List (Nat × Nat)) → List ((Nat × Nat) × List (List (Nat × Nat)))
  | [] => []
  | [] :: rest => groupRuns rest
  | (run :: more) :: rest =>
    match groupRuns rest with
    | (run', tails) :: groups =>
      if run = run' then (run, more :: tails) :: groups
      else (run, [more]) :: (run', tails) :: groups
    | [] => [(run, [more])]

/-- All states below and including the one that reads given sequences, which have a bounded
length. Each is given by the sequences that it reads. -/
def readingStates : Nat → List (List (Nat × Nat)) → List (List (List (Nat × Nat)))
  | 0, _ => []
  | length + 1, seqs =>
    let groups := groupRuns seqs
    if groups.isEmpty then []
    else seqs :: groups.flatMap fun (_, tails) => readingStates length tails

/-- The number of different beginnings of sequences of a bounded length. -/
def beginnings : Nat → List (List (Nat × Nat)) → Nat
  | 0, _ => 0
  | length + 1, seqs =>
    ((groupRuns seqs).map fun (_, tails) => beginnings length tails + 1).foldr (· + ·) 0

/-- The room for one member of a set. Sets of ASCII characters need one state to read and one to go
on from. Others are read forwards by states that are shared where they read the same, and backwards
by one state for each beginning of a sequence of bytes. -/
def letterRoom (backwards : Bool) (s : CharSet) : Nat :=
  if s.isAscii then 2 * stateRoom + runRoom * s.runs.length
  else
    let seqs := s.runs.flatMap fun (a, b) => byteRuns a b
    if backwards then
      (2 + beginnings 4 seqs) * stateRoom + seqs.length * linkRoom
    else
      let states := (readingStates 4 seqs).eraseDups
      stateRoom
        + (states.map fun t => stateRoom + runRoom * (groupRuns t).length).foldr (· + ·) 0

/-! ### Texts -/

/-- The bytes that go on from a point at which several words part, in pieces between which one of
the words ends, with all that follows each byte. -/
structure Fork where
  done : List (List (Nat × List (List Nat))) := []
  last : List (Nat × List (List Nat)) := []

namespace Fork

/-- Adds what a word goes on with. A word that ends starts a new piece, unless none has gone on. -/
def add (f : Fork) : List Nat → Fork
  | [] => if f.last.isEmpty && f.done.all List.isEmpty && !f.done.isEmpty then f
    else ⟨f.last :: f.done, []⟩
  | b :: rest =>
    if f.last.any (·.1 == b) then
      { f with last := f.last.map fun (c, words) =>
          if c == b then (c, rest :: words) else (c, words) }
    else { f with last := (b, [rest]) :: f.last }

/-- The pieces. -/
def pieces (f : Fork) : List (List (Nat × List (List Nat))) := f.last :: f.done

end Fork

/-- The room for telling words of a bounded length apart, given the words from the last to the
first. -/
def wordsRoom : Nat → List (List Nat) → Nat
  | 0, _ => 0
  | length + 1, words =>
    let pieces := (words.foldr (fun w f => Fork.add f w) {}).pieces
    let filled := pieces.filter (!·.isEmpty)
    if filled.isEmpty then 0
    else
      let links := filled.length + pieces.length - 1
      let rooms := filled.map fun piece =>
        stateRoom + (if piece.length = 1 then 0 else runRoom * piece.length)
          + (piece.map fun (_, words) => wordsRoom length words).foldr (· + ·) 0
      stateRoom + linkRoom * links + rooms.foldr (· + ·) 0

/-! ### Expressions -/

mutual

/-- The room for an expression, read forwards or backwards. Groups are noted only forwards. -/
def room (backwards : Bool) : Regex → Nat
  | empty => stateRoom
  | text cs => stateRoom * (bytesOf cs).length
  | letter s => letterRoom backwards s
  | place _ => stateRoom
  | group _ r => room backwards r + (if backwards then 0 else 2 * stateRoom)
  | seq rs => roomAll backwards rs
  | alt rs =>
    match rs.mapM text? with
    | some texts =>
      let words := texts.map fun cs => if backwards then (bytesOf cs).reverse else bytesOf cs
      stateRoom + wordsRoom ((words.map List.length).foldr max 0 + 1) words.reverse
    | none => 2 * stateRoom + linkRoom * rs.length + roomAll backwards rs
  | repeated r least most =>
    let one := room backwards r
    let fork := stateRoom + 2 * linkRoom
    match least, most with
    | 0, some 1 => fork + one + stateRoom
    | 0, none =>
      if r.leastLength?.any (0 < ·) then fork + one else one + 2 * fork + stateRoom
    | n, none => n * one + fork
    | n, some m =>
      if m = n then n * one
      else (if n = 0 then stateRoom else n * one) + stateRoom + (m - n) * (one + fork)

/-- The room for several expressions. -/
def roomAll (backwards : Bool) : List Regex → Nat
  | [] => 0
  | r :: rs => room backwards r + roomAll backwards rs

end

/-- The room that an automaton may take up. -/
def roomLimit : Nat := 10485760

/-- The room for passing over the start of a text, up to where a match begins. -/
def startRoom : Nat := 3 * stateRoom + 2 * linkRoom + runRoom

/-- Whether the automata for an expression, with a state for the end of a match, stay within the
limit. Forwards the whole match is noted like a group. -/
def fits (r : Regex) : Bool :=
  startRoom + room false r + 3 * stateRoom ≤ roomLimit
    && startRoom + room true r + stateRoom ≤ roomLimit

end Arbor.Regex
