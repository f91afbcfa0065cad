import Hoist.Diagnostic
import Hoist.Program.Violation

/-! Log events, and the activities during which they happen. -/
namespace Hoist

inductive Level
  | trace
  | debug
  | info
  | warn
  deriving DecidableEq, Repr

def Level.text : Level → String
  | trace => "TRACE"
  | debug => "DEBUG"
  | info => "INFO"
  | warn => "WARN"

/-- The order in which the nodes of a program are looked at. -/
inductive Enumeration
  | tree
  | allocation
  deriving DecidableEq, Repr

def Enumeration.text : Enumeration → String
  | tree => "Tree"
  | allocation => "Allocation"

/-- Which side of the pass a check stands on. -/
inductive Stage
  | input
  | output
  deriving DecidableEq, Repr

def Stage.all : List Stage := [.input, .output]

def Stage.text : Stage → String
  | input => "input"
  | output => "output"

inductive Event
  | lowered (nodes symbols diagnostics : Nat)
  | diagnosed (diagnostic : Diagnostic)
  | found (inner outer : SymbolId) (name : String)
  | moved (symbol : SymbolId) (name module : String)
  | violated (stage : Stage) (violation : Violation)
  | hoisted (scanned moves : Nat)
  deriving DecidableEq, Repr

namespace Event

def level : Event → Level
  | lowered .. | moved .. => .debug
  | found .. => .trace
  | hoisted .. => .info
  | diagnosed .. | violated .. => .warn

def message : Event → String
  | lowered .. => "lowered program"
  | diagnosed .. => "semantic diagnostic"
  | found .. => "found nested type"
  | moved .. => "moved nested type to module level"
  | violated .. => "tree invariant violated"
  | hoisted .. => "flattened nested types"

def fields : Event → List (String × String)
  | lowered nodes symbols diagnostics =>
    [("nodes", toString nodes), ("symbols", toString symbols),
      ("diagnostics", toString diagnostics)]
  | diagnosed d => [("diagnostic", d.text)]
  | found inner outer name => [("inner", inner.text), ("outer", outer.text), ("name", name)]
  | moved s name module => [("symbol", s.text), ("name", name), ("module", module)]
  | violated stage v => [("stage", stage.text), ("violation", v.message)]
  | hoisted scanned moves => [("scanned", toString scanned), ("relocated", toString moves)]

end Event

/-- A stretch of work that groups the events inside it. -/
inductive Activity
  | lowering (modules : Nat)
  | hoisting
  | pass (enumeration : Enumeration)
  deriving DecidableEq, Repr

namespace Activity

def name : Activity → String
  | lowering _ => "pipeline.lower"
  | hoisting => "pipeline.flatten"
  | pass _ => "pass.flatten_classes"

def fields : Activity → List (String × String)
  | lowering modules => [("modules", toString modules)]
  | hoisting => []
  | pass enumeration => [("order", enumeration.text)]

end Activity

/-- An event and the activities under way at that moment, outermost first. -/
structure Entry where
  event : Event
  during : List Activity := []
  deriving DecidableEq, Repr

def Entry.within (a : Activity) (entry : Entry) : Entry :=
  { entry with during := a :: entry.during }

end Hoist
