import Hoist.Diagnostic

/-! Lexical scopes: a tree whose root is always open, and which forgets no scope. -/
namespace Hoist

structure Scope where
  parent : Option ScopeId
  names : List (String × SymbolId) := []
  deriving DecidableEq, Repr

structure Resolver where
  scopes : Table .scope Scope
  /-- The open scopes below the root, innermost first. -/
  entered : List ScopeId
  symbols : Symbols
  deriving DecidableEq, Repr

/-- What became of a declaration. -/
inductive Declared
  | fresh (symbol : SymbolId)
  | duplicate (existing : SymbolId)
  deriving DecidableEq, Repr

namespace Resolver

def root : ScopeId := ⟨0⟩

/-- An open root scope without any name. -/
def init : Resolver :=
  { scopes := Table.empty.push { parent := none }, entered := [], symbols := .empty }

def current (r : Resolver) : ScopeId := r.entered.headD root

def enter (r : Resolver) : ScopeId × Resolver :=
  let id := r.scopes.nextId
  (id, { r with
    scopes := r.scopes.push { parent := some r.current }
    entered := id :: r.entered })

/-- The root scope cannot be left. -/
def leave (r : Resolver) : Option ScopeId × Resolver :=
  match r.entered with
  | [] => (none, r)
  | id :: rest => (some id, { r with entered := rest })

/-- The symbol that the current scope itself binds to a name. -/
def bound? (r : Resolver) (name : String) : Option SymbolId := do
  (← r.scopes[r.current]?).names.lookup name

/-- Adds a symbol that no name leads to. -/
def hide (r : Resolver) (sig : Signature) : SymbolId × Resolver :=
  (r.symbols.nextId, { r with symbols := r.symbols.push (sig.symbol r.symbols.nextId) })

def bind (r : Resolver) (name : String) (s : SymbolId) : Resolver :=
  { r with scopes := r.scopes.modify r.current fun scope =>
      { scope with names := (name, s) :: scope.names } }

def declare (r : Resolver) (sig : Signature) : Declared × Resolver :=
  match r.bound? sig.name.name with
  | some existing => (.duplicate existing, r)
  | none =>
    let (s, r) := r.hide sig
    (.fresh s, r.bind sig.name.name s)

/-- Searches `scope` and at most `depth` scopes in all, going outwards. -/
def findFrom (r : Resolver) (name : String) : (depth : Nat) → (scope : ScopeId) → Option SymbolId
  | 0, _ => none
  | depth + 1, scope => do
    let entry ← r.scopes[scope]?
    match entry.names.lookup name with
    | some s => some s
    | none => findFrom r name depth (← entry.parent)

/-- A parent is older than its children, so no search visits more scopes than there are. -/
def find? (r : Resolver) (name : String) : Option SymbolId :=
  r.findFrom name r.scopes.size r.current

def define (r : Resolver) (s : SymbolId) (n : NodeId) : Resolver :=
  { r with symbols := r.symbols.define s n }

/-- Points at an earlier declaration, if it has a place in the source. -/
def previous (r : Resolver) (existing : SymbolId) : List Diagnostic :=
  match r.symbols[existing]? with
  | some { kind, span := some span, .. } => [.previous kind span]
  | _ => []

/-- Declares a name and reports a duplicate, which still gets a symbol of its own. -/
def introduce (r : Resolver) (sig : Signature) : (SymbolId × List Diagnostic) × Resolver :=
  match r.declare sig with
  | (.fresh s, r) => ((s, []), r)
  | (.duplicate existing, r) =>
    let (s, after) := r.hide sig
    ((s, .duplicate sig :: r.previous existing), after)

def introduceAll (r : Resolver) : List Signature → (List SymbolId × List Diagnostic) × Resolver
  | [] => (([], []), r)
  | sig :: rest =>
    let ((s, found), r) := r.introduce sig
    let ((ss, more), r) := r.introduceAll rest
    ((s :: ss, found ++ more), r)

end Resolver
end Hoist
