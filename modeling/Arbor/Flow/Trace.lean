import Arbor.Flow.Graph
import Arbor.Flow.Scopes

/-!
The trace of a walk over a program: what the walk came across, in the order in which it did. The
trace names variables as the program does; `Ledger.ofTrace` plays it back and finds out which
variable each name stands for at that moment, and so which reads and writes there are.
-/

namespace Arbor.Flow

/-- What a walk comes across. -/
inductive Event where
  /-- A scope, which gets the next number. -/
  | opened (kind : ScopeKind) (parent : Option Nat)
  | declared (scope : Nat) (name : Node) (binding : Binding)
  | read (scope : Nat) (name : Node)
  | written (scope : Nat) (name : Node)
  /-- A loop that seems to have no end. -/
  | endless (loop : Node)
  /-- The use of a value that may be absent. -/
  | nullish (use : Node)
  /-- The end of a function, or of the program, with its graph. -/
  | finished (function : Option Node) (graph : Graph)

/-- A name where it is used. -/
structure Access where
  name : String
  span : Span
  deriving DecidableEq, Inhabited, Repr

/-- The use of a name by a node. -/
def Access.of (n : Node) : Access := ⟨n.text, n.span⟩

/-- The scopes and variables so far, and the uses of variables in their order. -/
structure Ledger where
  scopes : Scopes
  reads : Array Access
  writes : Array Access
  /-- The uses of variables of an enclosing function. -/
  captures : Array Access
  /-- The reads of variables that have no value yet. -/
  uninitialized : Array Access
  deriving Inhabited

namespace Ledger

/-- Nothing has happened. -/
def empty : Ledger := ⟨.empty, #[], #[], #[], #[]⟩

/-- Notes a declaration, which is a write if it comes with a value. -/
def declare (l : Ledger) (scope : Nat) (name : Node) (binding : Binding) : Ledger :=
  { l with
    scopes := l.scopes.declare scope name.text name.span binding
    writes := if binding == .initialized then l.writes.push (.of name) else l.writes }

/-- Notes a read. A name that stands for no variable is passed over. -/
def read (l : Ledger) (scope : Nat) (name : Node) : Ledger :=
  match l.scopes.resolve? scope name.text with
  | none => l
  | some r =>
    match l.scopes.vars[r.var]? with
    | none => l
    | some v =>
      { l with
        scopes := l.scopes.markRead r name.span
        reads := l.reads.push (.of name)
        captures := if r.crossedFunction then l.captures.push (.of name) else l.captures
        uninitialized :=
          if v.initialized then l.uninitialized else l.uninitialized.push (.of name) }

/-- Notes a write, also of a name that stands for no variable. -/
def write (l : Ledger) (scope : Nat) (name : Node) : Ledger :=
  match l.scopes.resolve? scope name.text with
  | none => { l with writes := l.writes.push (.of name) }
  | some r =>
    { l with
      scopes := l.scopes.markWritten r name.span
      writes := l.writes.push (.of name)
      captures := if r.crossedFunction then l.captures.push (.of name) else l.captures }

/-- Notes an event. -/
def record (l : Ledger) : Event → Ledger
  | .opened kind parent => { l with scopes := l.scopes.push kind parent }
  | .declared scope name binding => l.declare scope name binding
  | .read scope name => l.read scope name
  | .written scope name => l.write scope name
  | .endless _ | .nullish _ | .finished _ _ => l

/-- Plays a trace back. -/
def ofTrace (trace : Array Event) : Ledger :=
  trace.foldl record empty

end Ledger

end Arbor.Flow
