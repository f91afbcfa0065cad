import Hoist.Hoisting
import Hoist.Lowered

/-! From a source tree to a flat program: lowering, then hoisting unless a diagnostic forbids it. -/
namespace Hoist

structure CompileOptions where
  hoist : HoistOptions := {}
  /-- Go on when lowering reports something. -/
  allowDiagnostics : Bool := false
  deriving DecidableEq, Repr

inductive CompileError
  | lowering (error : LinkError)
  | diagnostics (found : List Diagnostic)
  | hoisting (error : HoistError)
  deriving DecidableEq, Repr

namespace CompileError

def message : CompileError → String
  | lowering error => "lowering produced a malformed tree: " ++ error.message
  | diagnostics found => "semantic analysis reported " ++ toString found.length ++ " problem(s)"
  | hoisting error => "flattening failed: " ++ error.message

def reported : CompileError → List Diagnostic
  | diagnostics found => found
  | _ => []

end CompileError

structure Compiled where
  program : Program
  diagnostics : List Diagnostic
  report : Report
  deriving DecidableEq, Repr

structure Compilation where
  result : Except CompileError Compiled
  log : List Entry

namespace Lowered

/-- What is logged once lowering is over. -/
def log (l : Lowered) (modules : Nat) : List Entry :=
  { event := l.event, during := [.lowering modules] } ::
    l.diagnostics.map fun d => { event := .diagnosed d }

def compile (l : Lowered) (options : CompileOptions) : Compilation :=
  if !l.diagnostics.isEmpty && !options.allowDiagnostics then
    { result := .error (.diagnostics l.diagnostics), log := [] }
  else
    let run := l.program.hoist options.hoist
    let log := run.log.map (.within .hoisting)
    match run.result with
    | .ok report => { result := .ok ⟨run.program, l.diagnostics, report⟩, log }
    | .error e => { result := .error (.hoisting e), log }

end Lowered

def Source.Program.compile (source : Source.Program) (options : CompileOptions := {}) :
    Compilation :=
  match source.lower with
  | .error e => { result := .error (.lowering e), log := [] }
  | .ok lowered =>
    let rest := lowered.compile options
    { rest with log := lowered.log source.modules.length ++ rest.log }

end Hoist
