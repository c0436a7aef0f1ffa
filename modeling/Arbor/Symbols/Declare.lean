import Arbor.Symbols.Outline
import Arbor.Symbols.Options

/-!
From outlines to scopes and symbols. Going through an outline opens its scopes and puts its
declarations into them. A name that a scope declares again stands for the later declaration, which
takes over the number of the earlier.
-/

namespace Arbor.Symbols

/-- Whether a symbol lives among the names that hide one another. Members of classes and `this` do
not. -/
def Symbol.isLexical (s : Symbol) : Bool :=
  (s.kind == .var || s.kind == .function || s.kind == .parameter || s.kind == .classDef)
    && s.name != "this"

/-- The symbol that a declaration puts into a scope. It is exported if the scope exports its
declarations. -/
def Declaration.symbol (x : Declaration) (scope : Nat) (exports : Option Nat) : Symbol where
  name := x.name
  kind := x.kind
  span := x.span
  scope := scope
  visibility := x.visibility
  exported := exports == some scope
  imported := x.imported
  builtin := false
  parameters := x.parameters
  uses := #[]

namespace Model

/-- The symbol of a name that the platform declares. -/
def platformSymbol (name : String) : Symbol where
  name := name
  kind := .var
  span := .zero
  scope := globalScope
  visibility := .unmarked
  exported := false
  imported := false
  builtin := true
  parameters := none
  uses := #[]

/-- The declaration that a new symbol of a scope hides, if there is one. -/
def shadowing? (m : Model) (s : Symbol) : Option Shadowing := do
  if s.builtin || !s.isLexical then none
  else
    let parent ← (← m.scopes[s.scope]?).parent
    let hidden ← m.resolve? s.name parent
    if hidden.builtin || hidden.scope == s.scope then none
    else some ⟨s.name, s.span, s.scope, hidden.span, hidden.scope⟩

/-- Puts a symbol into its scope. -/
def place (m : Model) (s : Symbol) : Model :=
  match m.scopes[s.scope]? with
  | none => m
  | some scope =>
    match scope.symbols.get? s.name with
    | some id => { m with symbols := m.symbols.setIfInBounds id s }
    | none =>
      { m with
        symbols := m.symbols.push s
        scopes := m.scopes.modify s.scope fun f =>
          { f with symbols := f.symbols.insert s.name m.symbols.size } }

/-- Adds a symbol, and notes what it hides if that is wanted. -/
def insert (o : Options) (m : Model) (s : Symbol) : Model :=
  let found := if o.shadowing then (m.shadowing? s).toArray else #[]
  { m with shadowings := m.shadowings ++ found }.place s

/-- Opens a scope inside another. -/
def openScope (m : Model) (kind : ScopeKind) (parent depth : Nat) (span : Span) : Model :=
  let id := m.scopes.size
  { m with
    scopes := (m.scopes.push ⟨id, kind, some parent, #[], ∅, span, depth⟩).modify parent fun f =>
      { f with children := f.children.push id } }

/-- Marks a name of a scope as exported, if the scope declares it. -/
def exportName (scope : Nat) (m : Model) (name : String) : Model :=
  match m.scopes[scope]?.bind (·.symbols.get? name) with
  | some id => { m with symbols := m.symbols.modify id fun s => { s with exported := true } }
  | none => m

end Model

/-- The model so far, and what the nodes of the tree have to do with it. -/
structure Draft where
  model : Model
  /-- The scopes that nodes open, the latest first. -/
  scopeOf : List (Nat × Nat)
  /-- The nodes that spell declared names. -/
  declared : List Nat
  /-- The nodes whose scopes lie too deep. -/
  truncated : List Nat
  deriving Inhabited

namespace Draft

/-- The draft before the first declaration. The root belongs to the global scope. -/
def start (root : Node) : Draft :=
  ⟨.start root.span, [(root.number, Model.globalScope)], [], []⟩

/-- Adds a declaration to a scope. -/
def declare (o : Options) (scope : Nat) (exports : Option Nat) (d : Draft) (x : Declaration) :
    Draft :=
  { d with
    declared := (x.node.map (·.number)).toList ++ d.declared
    model := d.model.insert o (x.symbol scope exports) }

/-- Adds the names that the platform declares to the global scope. -/
def declareBuiltins (o : Options) (d : Draft) : Draft :=
  if o.includeBuiltins then
    { d with
      model := o.builtins.foldl (fun m name => m.insert o (Model.platformSymbol name)) d.model }
  else d

/-- Opens a scope for a node inside another and gives its number, unless it would lie too deep. -/
def openScope (o : Options) (kind : ScopeKind) (parent : Nat) (owner : Node) (d : Draft) :
    Option Nat × Draft :=
  match d.model.scopes[parent]? with
  | none => (none, d)
  | some around =>
    if o.maxDepth < around.depth + 1 then
      (none, { d with truncated := owner.number :: d.truncated })
    else
      let id := d.model.scopes.size
      (some id, { d with
        model := d.model.openScope kind parent (around.depth + 1) owner.span
        scopeOf := (owner.number, id) :: d.scopeOf })

mutual

/-- Goes through an item of an outline in a scope with another around it. Declarations in the scope
`exports` are exported. -/
def run (o : Options) (scope around : Nat) (exports : Option Nat) : Outline → Draft → Draft
  | .node _ inner, d => runAll o scope around exports inner d
  | .declare x, d => d.declare o scope exports x
  | .declareOutside x, d => d.declare o around exports x
  | .scope kind owner inner, d =>
    match d.openScope o kind scope owner with
    | (some id, d) => runAll o id scope exports inner d
    | (none, d) => d
  | .exporting inner, d => runAll o scope around (some scope) inner d
  | .exportNames names, d => { d with model := names.foldl (Model.exportName scope) d.model }

/-- Goes through items one after the other. -/
def runAll (o : Options) (scope around : Nat) (exports : Option Nat) :
    List Outline → Draft → Draft
  | [], d => d
  | x :: xs, d => runAll o scope around exports xs (run o scope around exports x d)

end

/-- The draft of a program with all its declarations. -/
def ofRoot (o : Options) (root : Node) : Draft :=
  runAll o Model.globalScope Model.globalScope none (outline root)
    ((Draft.start root).declareBuiltins o)

end Draft

end Arbor.Symbols
