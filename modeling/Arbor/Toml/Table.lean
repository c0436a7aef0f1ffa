import Arbor.Datum

/-!
The tables of a TOML document while it is being read. A table may be named by a header, by a key
with dots, or only as part of a longer name, and that decides where it may be added to: a header may
name a table only once, and keys with dots may not reach into a table that has a header of its own.
-/

namespace Arbor.Toml

/-- How a table came into being. -/
inductive Form where
  /-- By the header of a table that lies in it. -/
  | implied
  /-- By a key with dots. -/
  | dotted
  /-- By a header of its own. -/
  | headed
  deriving DecidableEq, Repr

/-- What a key can stand for. -/
inductive Item where
  /-- A value that is complete. -/
  | value (d : Datum)
  | table (form : Form) (members : List (String × Item))
  /-- Tables under one header in double brackets, the last one first. -/
  | tables (rows : List (List (String × Item)))

/-- The keys of a table and what they stand for. -/
abbrev Members := List (String × Item)

namespace Members

/-- The members with another item under a key that they have. -/
def replace (ms : Members) (key : String) (item : Item) : Members :=
  ms.map fun m => if m.1 == key then (key, item) else m

/-- Changes the table at the end of a path, given how a table starts that is not there yet. The path
leads through the last of several tables, and through no complete value. Keys with dots may not lead
into a table with a header. -/
def modify (fresh : Form) (edit : Form → Members → Option Members) (form : Form) :
    List String → Members → Option Members
  | [], ms => edit form ms
  | key :: path, ms =>
    match ms.lookup key with
    | none => (modify fresh edit fresh path []).map fun sub => ms ++ [(key, .table fresh sub)]
    | some (.table f sub) =>
      if fresh = .dotted && f = .headed then none
      else (modify fresh edit f path sub).map fun sub => ms.replace key (.table f sub)
    | some (.tables (row :: rows)) =>
      (modify fresh edit .headed path row).map fun row => ms.replace key (.tables (row :: rows))
    | some _ => none

/-- Adds a value under a key, which may not be there yet. The last table that a key with dots leads
through may not have come about in another way. -/
def define (form : Form) (path : List String) (d : Datum) (ms : Members) : Option Members :=
  match path.getLast? with
  | none => none
  | some key =>
    let within := path.dropLast
    let add (form : Form) (ms : Members) : Option Members :=
      if (form = .dotted) == within.isEmpty || (ms.lookup key).isSome then none
      else some (ms ++ [(key, .value d)])
    modify .dotted add form within ms

/-- Adds a table with a header. One that is implied by other headers may be there. -/
def openTable (path : List String) (ms : Members) : Option Members :=
  match path.getLast? with
  | none => none
  | some key =>
    let add (_ : Form) (ms : Members) : Option Members :=
      match ms.lookup key with
      | none => some (ms ++ [(key, .table .headed [])])
      | some (.table .implied sub) => some (ms.replace key (.table .headed sub))
      | some _ => none
    modify .implied add .headed path.dropLast ms

/-- Adds one more of several tables under one header. -/
def openRow (path : List String) (ms : Members) : Option Members :=
  match path.getLast? with
  | none => none
  | some key =>
    let add (_ : Form) (ms : Members) : Option Members :=
      match ms.lookup key with
      | none => some (ms ++ [(key, .tables [[]])])
      | some (.tables rows) => some (ms.replace key (.tables ([] :: rows)))
      | some _ => none
    modify .implied add .headed path.dropLast ms

/-- Adds a value to the table whose header came last. -/
def defineIn (header path : List String) (d : Datum) (ms : Members) : Option Members :=
  modify .implied (fun form ms => define form path d ms) .headed header ms

end Members

mutual

/-- What an item comes to. -/
def Item.toDatum : Item → Datum
  | .value d => d
  | .table _ members => .record (membersToData members)
  | .tables rows => .sequence (rowsToData rows).reverse

/-- What the members of a table come to. -/
def membersToData : List (String × Item) → List (String × Datum)
  | [] => []
  | (key, item) :: ms => (key, item.toDatum) :: membersToData ms

/-- What several tables come to. -/
def rowsToData : List (List (String × Item)) → List Datum
  | [] => []
  | row :: rows => .record (membersToData row) :: rowsToData rows

end

end Arbor.Toml
