import Arbor.Node
import Arbor.Chain
import Arbor.Text.CharSet

/-!
The model of the names in a program: a tree of scopes, the symbols that each scope declares, and the
places where the program uses them. Scopes and symbols are numbered in the order in which they are
made and refer to each other by number; scope 0 is the global scope, around all others.
-/

namespace Arbor.Symbols

/-- What opens a scope. -/
inductive ScopeKind where
  | global
  | function
  | block
  | classDef
  | loop
  | conditional
  | switch
  | catchClause
  deriving DecidableEq, Inhabited, Repr

/-- What a symbol stands for. -/
inductive SymbolKind where
  | var
  | function
  | parameter
  | classDef
  | method
  | property
  | interface
  | type
  | enum
  | enumMember
  | module
  deriving DecidableEq, Inhabited, Repr

/-- Who may use the member of a class. -/
inductive Visibility where
  | unmarked
  | everyone
  | ownClass
  | subclasses
  deriving DecidableEq, Inhabited, Repr

/-- The visibility that a modifier gives, with or without blanks around it. -/
def Visibility.ofModifier (text : String) : Visibility :=
  match trim text with
  | "public" => everyone
  | "private" => ownClass
  | "protected" => subclasses
  | _ => unmarked

/-- Whether a use of a symbol reads or writes it. -/
inductive UseKind where
  | read
  | write
  deriving DecidableEq, Inhabited, Repr

/-- A use of a symbol. -/
structure Use where
  span : Span
  kind : UseKind
  deriving DecidableEq, Inhabited, Repr

/-- A declared name. -/
structure Symbol where
  name : String
  kind : SymbolKind
  span : Span
  /-- The number of the scope that declares the symbol. -/
  scope : Nat
  visibility : Visibility
  exported : Bool
  imported : Bool
  /-- Whether the platform declares the symbol. -/
  builtin : Bool
  /-- The names of the parameters, for functions and methods. -/
  parameters : Option (List String)
  uses : Array Use
  deriving Inhabited

/-- A scope. -/
structure Scope where
  id : Nat
  kind : ScopeKind
  /-- The number of the scope around this one, which only the global scope lacks. -/
  parent : Option Nat
  children : Array Nat
  /-- The number of the symbol that each name stands for. -/
  symbols : Table Nat
  span : Span
  /-- How many scopes lie around this one. -/
  depth : Nat
  deriving Inhabited

/-- A use of a name that no scope around it declares. -/
structure Unresolved where
  name : String
  span : Span
  /-- The scope in which the name is used. -/
  scope : Nat
  deriving DecidableEq, Inhabited, Repr

/-- A declaration that hides one further out. -/
structure Shadowing where
  name : String
  /-- Where the name is declared again, and in which scope. -/
  span : Span
  scope : Nat
  /-- Where the hidden declaration stands, and in which scope. -/
  hiddenSpan : Span
  hiddenScope : Nat
  deriving DecidableEq, Inhabited, Repr

/-- Scopes, symbols, and what is to be said about them. -/
structure Model where
  scopes : Array Scope
  symbols : Array Symbol
  unresolved : Array Unresolved
  shadowings : Array Shadowing
  deriving Inhabited

namespace Model

/-- The model of an empty program: the global scope without symbols. -/
def start (span : Span) : Model :=
  ⟨#[⟨0, .global, none, #[], ∅, span, 0⟩], #[], #[], #[]⟩

/-- The number of the global scope. -/
def globalScope : Nat := 0

/-- The scopes from one outward, up to the global scope. -/
def chain (m : Model) (scope : Nat) : List Scope :=
  Arbor.chain m.scopes (·.parent) scope

/-- The number of the symbol that a name stands for in a scope: that of the innermost scope around
it which declares the name. -/
def resolveId? (m : Model) (name : String) (scope : Nat) : Option Nat :=
  (m.chain scope).findSome? (·.symbols.get? name)

/-- The symbol that a name stands for in a scope. -/
def resolve? (m : Model) (name : String) (scope : Nat) : Option Symbol :=
  (m.resolveId? name scope).bind (m.symbols[·]?)

/-- The names seen so far, and one more entry if it is new and its symbol is there. -/
def see (m : Model) (seen : Table Nat) (e : String × Nat) : Table Nat :=
  if e.2 < m.symbols.size && !seen.contains e.1 then seen.insert e.1 e.2 else seen

/-- The symbols that can be named in a scope. Inner declarations hide outer ones. -/
def visible (m : Model) (scope : Nat) : Table Nat :=
  (m.chain scope).foldl (fun seen s => s.symbols.entries.foldl m.see seen) ∅

/-- The innermost scope at a position. Of scopes at one depth the last counts. -/
def scopeAt? (m : Model) (p : Position) : Option Scope :=
  m.scopes.foldl
    (fun best s =>
      if s.span.contains p && best.all (·.depth ≤ s.depth) then some s else best)
    none

/-- The numbers of the symbols with a name, in any scope. -/
def named (m : Model) (name : String) : List Nat :=
  (m.symbols.toList.zipIdx.filter (·.1.name == name)).map (·.2)

end Model

end Arbor.Symbols
