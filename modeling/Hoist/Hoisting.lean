import Hoist.Event
import Hoist.Move
import Hoist.Program.Check
import Hoist.Program.Order

/-! Hoisting: types that stand in another type move to the end of the module around both. -/
namespace Hoist

structure HoistOptions where
  enumeration : Enumeration := .tree
  verifyInput : Bool := true
  verifyOutput : Bool := true
  deriving DecidableEq, Repr

def HoistOptions.unchecked (options : HoistOptions) : HoistOptions :=
  { options with verifyInput := false, verifyOutput := false }

inductive HoistError
  | plan (error : PlanError)
  | link (error : LinkError)
  | verification (stage : Stage) (violations : List Violation)
  deriving DecidableEq, Repr

def HoistError.message : HoistError → String
  | plan error => error.message
  | link error => error.message
  | verification stage violations =>
    stage.text ++ " verification failed with " ++ toString violations.length ++ " violation(s)"

structure Report where
  /-- How many nodes were looked at, repetitions included. -/
  scanned : Nat
  moves : List Move
  deriving DecidableEq, Repr

def Report.symbols (r : Report) : List SymbolId := r.moves.map Move.symbol

def Report.isNoop (r : Report) : Bool := r.moves.isEmpty

/-- A program under work and what has been logged about it. -/
structure Session where
  program : Program
  log : List Entry := []
  deriving DecidableEq, Repr

/-- Steps of a run. What a step did before it failed stays done, and stays in the log. -/
abbrev Pass := EStateM HoistError Session

namespace Pass

def emit (events : List Event) : Pass Unit :=
  modify fun s => { s with log := s.log ++ events.map fun event => { event } }

/-- Makes an edit of the program a step of the run. -/
def edit {α : Type} (x : Edit α) : Pass α := fun s =>
  match x.run s.program with
  | .ok a program => .ok a { s with program }
  | .error e program => .error (.link e) { s with program }

/-- What is logged about a node that turns out to define a nested type. -/
def sighting? (p : Program) (n : NodeId) : Option Event := do
  let inner ← p.nested? n
  let outer ← p.symbols[← p.outer? inner]?
  return .found inner outer.id (p.symbols.name inner)

def nested? (n : NodeId) : Pass (Option SymbolId) := do
  let p := (← get).program
  emit (sighting? p n).toList
  return p.nested? n

def discover (nodes : List NodeId) : Pass Discovery := do
  let p := (← get).program
  emit (nodes.filterMap (sighting? p))
  return p.discover nodes

def plan (types : Discovery) : Pass (List Move) := do
  match (← get).program.plan types with
  | .ok moves => return moves
  | .error e => throw (.plan e)

def performAll : List Move → Pass Unit
  | [] => return ()
  | m :: rest => do
    edit m.perform
    let symbols := (← get).program.symbols
    emit [.moved m.symbol (symbols.name m.symbol) (symbols.name m.module)]
    performAll rest

def checkFlat : Pass (List Violation) := do
  let p := (← get).program
  emit (p.nodes.ids.filterMap (sighting? p))
  return p.checkFlat

/-- Ends the run if there is anything wrong. -/
def require (stage : Stage) (violations : List Violation) : Pass Unit := do
  unless violations.isEmpty do
    emit (violations.map (.violated stage))
    throw (.verification stage violations)

/-- Hoists the nested types that an enumeration of nodes hits. -/
def hoist (options : HoistOptions) (nodes : List NodeId) : Pass Report := do
  if options.verifyInput then
    require .input (← get).program.check
  let moves ← plan (← discover nodes)
  performAll moves
  if options.verifyOutput then
    require .output (← checkFlat)
  emit [.hoisted nodes.length moves.length]
  return { scanned := nodes.length, moves }

end Pass

/-- How a run ended. The program is what the run left behind, also after a failure. -/
structure Outcome where
  result : Except HoistError Report
  program : Program
  log : List Entry

namespace Program

/-- The enumeration may repeat nodes and name unknown ones; a type still moves once. -/
def hoistNodes (p : Program) (options : HoistOptions) (nodes : List NodeId) : Outcome :=
  let finish (result : Except HoistError Report) (s : Session) : Outcome :=
    { result, program := s.program, log := s.log.map (.within (.pass options.enumeration)) }
  match (Pass.hoist options nodes).run { program := p } with
  | .ok report s => finish (.ok report) s
  | .error e s => finish (.error e) s

def enumerate (p : Program) : Enumeration → List NodeId
  | .tree => p.preorder
  | .allocation => p.nodes.ids

def hoist (p : Program) (options : HoistOptions := {}) : Outcome :=
  p.hoistNodes options (p.enumerate options.enumeration)

end Program
end Hoist
