import Arbor.Span
import Arbor.Table

/-!
Values read from data files: what the readers of the file formats produce, and what trees and
options are decoded from. A record may be written as a table of named members or as a list of
values in the order of its fields.
-/

namespace Arbor

/-- A value of a data file. -/
inductive Datum where
  | null
  | bool (b : Bool)
  | integer (i : Int)
  | decimal (x : Float)
  | text (s : String)
  /-- Items in their order. A record that is written as a list may not have more items than
  fields. -/
  | list (items : List Datum)
  /-- Items in their order, where a record leaves items beyond its fields alone. -/
  | sequence (items : List Datum)
  /-- Named members as they are written, in their order and with repetitions. -/
  | record (members : List (String × Datum))
  /-- Something well-formed that stands for no value, such as a number beyond all bounds. It may be
  skipped but not used. -/
  | unreadable
  deriving Inhabited

namespace Datum

/-- An unsigned number of 64 bits. -/
def toNat? : Datum → Option Nat
  | integer (.ofNat n) => if n < wordBound then some n else none
  | _ => none

/-- A truth value. -/
def toBool? : Datum → Option Bool
  | bool b => some b
  | _ => none

/-- A text. -/
def toText? : Datum → Option String
  | text s => some s
  | _ => none

/-- A number, which need not be whole. -/
def toFloat? : Datum → Option Float
  | integer i => some (Float.ofInt i)
  | decimal x => some x
  | _ => none

/-- A value that may be absent, which null stands for. -/
def toOption? {α : Type} (read : Datum → Option α) : Datum → Option (Option α)
  | null => some none
  | d => (read d).map some

/-- A list whose items all have a form. -/
def toList? {α : Type} (read : Datum → Option α) : Datum → Option (List α)
  | list items => items.mapM read
  | sequence items => items.mapM read
  | _ => none

/-- The member of a record under a name, the last one if there are several. -/
def get? (d : Datum) (name : String) : Option Datum :=
  match d with
  | record members => (members.reverse.find? (·.1 == name)).map (·.2)
  | _ => none

/-- How the fields of a record are looked up: by name or by place. -/
structure Fields where
  find? : String → Option Datum

/-- The value of a field of a record with the given fields, which stand in this order when the
record is written as a list. -/
def Fields.ofList (names : List String) (items : List Datum) : Fields :=
  ⟨fun name => (names.zip items).lookup name⟩

/-- Reads a record with the given fields. No field may be given twice; other members are refused
when `closed` is set, and passed over when it is not. -/
def fields? (names : List String) (closed : Bool) : Datum → Option Fields
  | record members =>
    let known := members.filter (names.contains ·.1)
    if (closed && known.length != members.length) || !(known.map (·.1)).Nodup then none
    else some ⟨fun name => known.lookup name⟩
  | list items => if items.length ≤ names.length then some (.ofList names items) else none
  | sequence items => some (.ofList names items)
  | _ => none

/-- A field that must be there. -/
def Fields.required? {α : Type} (f : Fields) (name : String) (read : Datum → Option α) :
    Option α :=
  (f.find? name).bind read

/-- A field with a default. -/
def Fields.optional? {α : Type} (f : Fields) (name : String) (default : α)
    (read : Datum → Option α) : Option α :=
  match f.find? name with
  | some d => read d
  | none => some default

mutual

/-- The value in which every record keeps only the last member of a name. -/
def settled : Datum → Datum
  | list items => list (settledAll items)
  | sequence items => sequence (settledAll items)
  | record members => record (settledMembers members)
  | d => d

/-- Settles several values. -/
def settledAll : List Datum → List Datum
  | [] => []
  | d :: ds => d.settled :: settledAll ds

/-- Settles the members of a record. -/
def settledMembers : List (String × Datum) → List (String × Datum)
  | [] => []
  | (name, d) :: ms =>
    if ms.any (·.1 == name) then settledMembers ms else (name, d.settled) :: settledMembers ms

end

end Datum

/-! ### Positions and spans -/

namespace Position

/-- The position as a record. -/
def toDatum (p : Position) : Datum :=
  .record [("row", .integer p.row), ("column", .integer p.column)]

/-- Reads a position, of which both fields are required. -/
def ofDatum? (d : Datum) : Option Position := do
  let f ← d.fields? ["row", "column"] false
  return ⟨← f.required? "row" Datum.toNat?, ← f.required? "column" Datum.toNat?⟩

end Position

/-- The span as a record. -/
def Span.toDatum (s : Span) : Datum :=
  .record [("start", s.start.toDatum), ("end", s.stop.toDatum)]

end Arbor
