/-!
Where building stands: the scope in which names are declared and looked up, and the points to which
jumps lead.
-/

namespace Arbor.Flow

/-- The scope and the jump targets at some place of a program. -/
structure Context where
  scope : Nat
  /-- Where `continue` leads. -/
  loopEntry : Option Nat
  /-- Where `break` leads out of the innermost loop. -/
  loopExit : Option Nat
  /-- Where `break` leads out of a switch inside that loop. -/
  switchExit : Option Nat
  deriving DecidableEq, Inhabited, Repr

namespace Context

/-- The start of a program or of the body of a function, where no jump has a target. -/
def root (scope : Nat) : Context := ⟨scope, none, none, none⟩

/-- The same place in another scope. -/
def withScope (c : Context) (scope : Nat) : Context :=
  { c with scope := scope }

/-- The body of a loop, which takes over `break` from a switch around it. -/
def inLoop (c : Context) (scope head exit : Nat) : Context :=
  { c with scope := scope, loopEntry := some head, loopExit := some exit, switchExit := none }

/-- The cases of a switch, which take over `break` only. -/
def inSwitch (c : Context) (scope exit : Nat) : Context :=
  { c with scope := scope, switchExit := some exit }

/-- Where `break` leads. -/
def breakTarget? (c : Context) : Option Nat :=
  c.switchExit.or c.loopExit

end Context

end Arbor.Flow
