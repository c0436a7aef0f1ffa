import Arbor.Tree
import Arbor.Datum
import Arbor.Json.Reader
import Arbor.Json.Writer

/-!
Trees as data. A node is a record with the fields `type`, `text`, `start`, `end`, `children` and
`fields`, of which only the first is required; empty children and an empty table of fields are not
written. Members with other names are passed over.
-/

namespace Arbor

namespace Tree

/-! ### Writing -/

/-- The table of fields as a record, its names in order. -/
def fieldsToDatum (fields : Table Nat) : Datum :=
  .record (fields.entries.map fun e => (e.1, .integer e.2))

mutual

/-- The tree as a record. -/
def toDatum : Tree → Datum
  | ⟨kind, text, span, children, fields⟩ =>
    .record <|
      [("type", .text kind), ("text", .text text), ("start", span.start.toDatum),
        ("end", span.stop.toDatum)]
      ++ (if children.isEmpty then [] else [("children", .list (toData children))])
      ++ (if fields.entries.isEmpty then [] else [("fields", fieldsToDatum fields)])

/-- Several trees as records. -/
def toData : List Tree → List Datum
  | [] => []
  | t :: ts => t.toDatum :: toData ts

end

/-- The text of a tree. -/
def toJson (t : Tree) : String :=
  Json.render t.toDatum

/-! ### Reading -/

/-- The names of the fields of a node, in their order. -/
def fieldNames : List String :=
  ["type", "text", "start", "end", "children", "fields"]

/-- One field of a node. -/
inductive Part where
  | kind (s : String)
  | text (s : String)
  | start (p : Position)
  | stop (p : Position)
  | children (ts : List Tree)
  | fields (f : Table Nat)

/-- Reads the table of fields. Of two indices for one name the later counts. -/
def fieldsOfDatum? : Datum → Option (Table Nat)
  | .record members =>
    (members.mapM fun (m : String × Datum) => m.2.toNat?.map (m.1, ·)).map Table.ofList
  | _ => none

/-- Puts a node together from its fields. -/
def ofParts? (parts : List Part) : Option Tree := do
  let kind ← parts.findSome? fun | .kind s => some s | _ => none
  let text := parts.findSome? fun | .text s => some s | _ => none
  let start := parts.findSome? fun | .start p => some p | _ => none
  let stop := parts.findSome? fun | .stop p => some p | _ => none
  let children := parts.findSome? fun | .children ts => some ts | _ => none
  let fields := parts.findSome? fun | .fields f => some f | _ => none
  return ⟨kind, text.getD "", ⟨start.getD .origin, stop.getD .origin⟩, children.getD [],
    fields.getD ∅⟩

/-- Whether no field of a node is given twice. -/
def givenOnce (members : List (String × Datum)) : Bool :=
  ((members.map (·.1)).filter fieldNames.contains).Nodup

mutual

/-- Reads a tree. -/
def ofDatum? : Datum → Option Tree
  | .record members => if givenOnce members then (partsNamed? members).bind ofParts? else none
  | .list items => (partsPlaced? fieldNames items).bind ofParts?
  | _ => none

/-- Reads the fields of a node that are given by name. -/
def partsNamed? : List (String × Datum) → Option (List Part)
  | [] => some []
  | (name, d) :: ms =>
    if fieldNames.contains name then do
      let part ← part? name d
      let parts ← partsNamed? ms
      return part :: parts
    else partsNamed? ms

/-- Reads the fields of a node that are given in order. -/
def partsPlaced? (names : List String) : List Datum → Option (List Part)
  | [] => some []
  | d :: ds =>
    match names with
    | [] => none
    | name :: names => do
      let part ← part? name d
      let parts ← partsPlaced? names ds
      return part :: parts

/-- Reads one field of a node. -/
def part? (name : String) : Datum → Option Part
  | .list items =>
    if name = "children" then (ofData? items).map .children
    else if name = "start" then (Position.ofDatum? (.list items)).map .start
    else if name = "end" then (Position.ofDatum? (.list items)).map .stop
    else none
  | d =>
    if name = "type" then d.toText?.map .kind
    else if name = "text" then d.toText?.map .text
    else if name = "start" then (Position.ofDatum? d).map .start
    else if name = "end" then (Position.ofDatum? d).map .stop
    else if name = "fields" then (fieldsOfDatum? d).map .fields
    else none

/-- Reads several trees. -/
def ofData? : List Datum → Option (List Tree)
  | [] => some []
  | d :: ds => do
    let t ← ofDatum? d
    let ts ← ofData? ds
    return t :: ts

end

/-! ### The limit on nesting -/

mutual

/-- How deep the lists and records of a node are nested. Members that are passed over do not count;
below a position or a table of fields there is nothing to nest. -/
def nesting : Datum → Nat
  | .record members => nestingNamed members + 1
  | .list items => nestingPlaced fieldNames items + 1
  | _ => 0

/-- The nesting of fields that are given by name. -/
def nestingNamed : List (String × Datum) → Nat
  | [] => 0
  | (name, d) :: ms => max (nestingPart name d) (nestingNamed ms)

/-- The nesting of fields that are given in order. -/
def nestingPlaced (names : List String) : List Datum → Nat
  | [] => 0
  | d :: ds => max (nestingPart (names.headD "") d) (nestingPlaced names.tail ds)

/-- The nesting of one field. -/
def nestingPart (name : String) : Datum → Nat
  | .list items =>
    if name = "children" then nestingAll items + 1
    else if fieldNames.contains name then 1
    else 0
  | .record _ => if fieldNames.contains name then 1 else 0
  | _ => 0

/-- The nesting of several nodes. -/
def nestingAll : List Datum → Nat
  | [] => 0
  | d :: ds => max (nesting d) (nestingAll ds)

end

/-- Reads the text of a tree, in which at most 127 lists and records may lie in one another. -/
def ofJson? (text : String) : Option Tree :=
  (Json.read? text).bind fun d => if nesting d ≤ 127 then ofDatum? d else none

end Tree

end Arbor
