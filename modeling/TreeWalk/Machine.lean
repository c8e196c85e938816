import TreeWalk.Value

/-! # Scopes and machines

Names are bound in scopes. A scope may have a parent, which is searched for the names that the
scope itself does not bind. Functions hold scopes and scopes hold functions, so scopes are
numbered cells of one machine, and all who know the number of a scope see what is bound in it
later.
-/

namespace TreeWalk

/-- The names of one scope with their values, each name once. -/
abbrev Bindings := List (String × Value)

/-- Bind a name, in place of an earlier binding of it if there is one. -/
def Bindings.insert (name : String) (value : Value) : Bindings → Bindings
  | [] => [(name, value)]
  | (other, old) :: rest =>
      if other = name then (name, value) :: rest
      else (other, old) :: Bindings.insert name value rest

structure Scope where
  bindings : Bindings := []
  parent : Option ScopeId := none

instance : Inhabited Scope := ⟨{}⟩

/-- The state that evaluation reads and changes. -/
structure Machine where
  /-- All scopes ever created, by number. -/
  scopes : Array Scope := #[]
  /-- The cell of the next created value. -/
  nextCell : CellId := 0
  /-- How many function calls are running. -/
  depth : Nat := 0

namespace Machine

def newScope (m : Machine) (parent : Option ScopeId) : ScopeId × Machine :=
  (m.scopes.size, { m with scopes := m.scopes.push { parent } })

/-- Take a cell for a created value. -/
def newCell (m : Machine) : CellId × Machine := (m.nextCell, { m with nextCell := m.nextCell + 1 })

/-- Bind a name in one scope. No other scope changes. -/
def bind (m : Machine) (scope : ScopeId) (name : String) (value : Value) : Machine :=
  { m with scopes := m.scopes.modify scope fun s =>
      { s with bindings := Bindings.insert name value s.bindings } }

def bindAll (m : Machine) (scope : ScopeId) : List (String × Value) → Machine
  | [] => m
  | (name, value) :: rest => (m.bind scope name value).bindAll scope rest

def parent? (m : Machine) (scope : ScopeId) : Option ScopeId := m.scopes[scope]?.bind Scope.parent

/-- Search a scope and at most `steps` of its ancestors for a name. -/
def lookupWithin (m : Machine) (name : String) : (steps : Nat) → ScopeId → Option Value
  | 0, scope => m.scopes[scope]?.bind fun s => s.bindings.lookup name
  | steps + 1, scope =>
      match m.scopes[scope]? with
      | none => none
      | some s =>
          match s.bindings.lookup name with
          | some value => some value
          | none =>
              match s.parent with
              | none => none
              | some parent => m.lookupWithin name steps parent

/-- The value of a name in a scope: that of the innermost scope that binds it. A chain of parents
    without a cycle is no longer than the number of scopes. -/
def lookup (m : Machine) (scope : ScopeId) (name : String) : Option Value :=
  m.lookupWithin name m.scopes.size scope

/-- The names that a scope itself binds, in alphabetical order of their characters. -/
def names (m : Machine) (scope : ScopeId) : List String :=
  let bound := (m.scopes[scope]?.getD {}).bindings.map Prod.fst
  bound.mergeSort fun a b => !decide (b < a)

/-- The text that shows which names a scope binds and whether it has a parent. -/
def scopeListing (m : Machine) (scope : ScopeId) : String :=
  "Environment \x7b bindings: " ++ listedNames (m.names scope) ++
    ", enclosed: " ++ boolText (m.parent? scope).isSome ++ " \x7d"

end Machine

end TreeWalk
