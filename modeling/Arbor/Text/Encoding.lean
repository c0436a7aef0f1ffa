import Arbor.Text.CharSet

/-!
How runs of characters are written in bytes. A character takes up one to four bytes, of which all
but the first carry six bits each; a run of characters becomes a few sequences of runs of bytes.
-/

namespace Arbor

/-- The numbers from the first to the last that are written with one leading digit and so many
further digits in base 64, as sequences of runs of digits. -/
def digitRuns : Nat → Nat → Nat → List (List (Nat × Nat))
  | 0, a, b => [[(a, b)]]
  | k + 1, a, b =>
    let unit := 1 <<< (6 * (k + 1))
    let (low, high) := (a / unit, b / unit)
    let within (digit a b : Nat) : List (List (Nat × Nat)) :=
      (digitRuns k a b).map ((digit, digit) :: ·)
    if low = high then within low (a % unit) (b % unit)
    else
      let first := if a % unit = 0 then low else low + 1
      let last := if b % unit = unit - 1 then high else high - 1
      (if first = low then [] else within low (a % unit) (unit - 1))
        ++ (if first ≤ last then [(first, last) :: List.replicate (k + 1) (0, 63)] else [])
        ++ (if last = high then [] else within high 0 (b % unit))

/-- The runs of characters that are written in the same number of bytes, with the number of bytes
after the first and what is added to the first. -/
def byteForms : List (Nat × Nat × Nat × Nat) :=
  [(0x0, 0x7F, 0, 0x00), (0x80, 0x7FF, 1, 0xC0), (0x800, 0xD7FF, 2, 0xE0),
   (0xE000, 0xFFFF, 2, 0xE0), (0x10000, 0x10FFFF, 3, 0xF0)]

/-- The sequences of runs of bytes for the characters from the first to the last. -/
def byteRuns (a b : Nat) : List (List (Nat × Nat)) :=
  byteForms.flatMap fun (first, last, further, mark) =>
    if max a first ≤ min b last then
      (digitRuns further (max a first) (min b last)).map fun
        | [] => []
        | (x, y) :: rest => (x + mark, y + mark) :: rest.map fun (x, y) => (x + 0x80, y + 0x80)
    else []

/-- The bytes of a text. -/
def bytesOf (cs : List Char) : List Nat :=
  (String.ofList cs).toUTF8.toList.map UInt8.toNat

end Arbor
