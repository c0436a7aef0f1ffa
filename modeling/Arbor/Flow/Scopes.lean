import Arbor.Table
import Arbor.Span
import Arbor.Chain

/-!
Scopes and variables of the flow analysis. Scopes are numbered in the order in which they are
opened, and so are variables; a scope knows the scope around it and the variables that it declares.
-/

namespace Arbor.Flow

/-- What opens a scope. -/
inductive ScopeKind where
  | program
  | function
  | loop
  | switch
  | catchClause
  deriving DecidableEq, Inhabited, Repr

/-- How a declaration gives its variable a value. -/
inductive Binding where
  /-- With a value, which counts as the first write. -/
  | initialized
  /-- Without a value, until the first write. -/
  | uninitialized
  /-- By other means: parameters, and the names of functions and classes. -/
  | implicit
  deriving DecidableEq, Inhabited, Repr

/-- A scope. -/
structure Scope where
  kind : ScopeKind
  parent : Option Nat
  /-- The variable last declared under each name. -/
  names : Table Nat
  deriving Inhabited

/-- What is known of a variable. -/
structure Variable where
  name : String
  scope : Nat
  initialized : Bool
  read : Bool
  written : Bool
  /-- Whether a function inside the one that owns the variable uses it. -/
  captured : Bool
  declaration : Span
  reads : Array Span
  writes : Array Span
  /-- Whether the variable counts as unused when it is never read. -/
  reportable : Bool
  deriving Inhabited

/-- All scopes and variables. -/
structure Scopes where
  scopes : Array Scope
  vars : Array Variable
  deriving Inhabited

/-- A variable that a name stands for. -/
structure Resolved where
  var : Nat
  /-- Whether the variable belongs to an enclosing function. -/
  crossedFunction : Bool
  deriving DecidableEq, Repr

namespace Scopes

/-- No scopes. -/
def empty : Scopes := ⟨#[], #[]⟩

/-- Opens a scope, whose number is the number of scopes so far. -/
def push (s : Scopes) (kind : ScopeKind) (parent : Option Nat) : Scopes :=
  { s with scopes := s.scopes.push ⟨kind, parent, ∅⟩ }

/-- A variable as it is declared. -/
def newVariable (scope : Nat) (name : String) (span : Span) (binding : Binding) : Variable where
  name := name
  scope := scope
  initialized := binding != .uninitialized
  read := false
  written := binding == .initialized
  captured := false
  declaration := span
  reads := #[]
  writes := if binding == .initialized then #[span] else #[]
  reportable := binding != .implicit

/-- Declares a variable in a scope, if there is such a scope. A name that the scope declares already
stands for the new variable from then on. -/
def declare (s : Scopes) (scope : Nat) (name : String) (span : Span) (binding : Binding) : Scopes :=
  if scope < s.scopes.size then
    { scopes := s.scopes.modify scope fun f =>
        { f with names := f.names.insert name s.vars.size }
      vars := s.vars.push (newVariable scope name span binding) }
  else s

/-- The variable in the innermost of some scopes that declares the name. -/
def lookup? (name : String) : Bool → List Scope → Option Resolved
  | _, [] => none
  | crossed, f :: fs =>
    match f.names.get? name with
    | some v => some ⟨v, crossed⟩
    | none => lookup? name (crossed || f.kind == .function) fs

/-- The variable that a name stands for in a scope. -/
def resolve? (s : Scopes) (scope : Nat) (name : String) : Option Resolved :=
  lookup? name false (chain s.scopes (·.parent) scope)

/-- Notes that a variable is read. -/
def markRead (s : Scopes) (r : Resolved) (span : Span) : Scopes :=
  { s with
    vars := s.vars.modify r.var fun v =>
      { v with
        read := true, reads := v.reads.push span, captured := v.captured || r.crossedFunction } }

/-- Notes that a variable is written. -/
def markWritten (s : Scopes) (r : Resolved) (span : Span) : Scopes :=
  { s with
    vars := s.vars.modify r.var fun v =>
      { v with
        written := true, initialized := true, writes := v.writes.push span
        captured := v.captured || r.crossedFunction } }

/-- The names of the variables that were given a value which nothing reads, in the order of their
declarations. -/
def unused (s : Scopes) : List String :=
  (s.vars.toList.filter fun v => v.reportable && v.written && !v.read).map (·.name)

end Scopes

end Arbor.Flow
