import Hoist.Event
import Hoist.Program.Edit
import Hoist.Resolved

/-! Lowering: storing resolved trees in a program, node by node and block by block. -/
namespace Hoist

namespace Edit

/-- Adds the node that defines a symbol. -/
def define (s : SymbolId) (kind : NodeKind) (span : Option Span) : Edit NodeId := do
  let n ← newNode { kind, span }
  modify fun p => { p with symbols := p.symbols.define s n }
  return n

mutual

/-- Adds the nodes of a tree and returns its root. What has a body comes before what stands below
it, and anything else after it. -/
def plant : Tree → Edit NodeId
  | .module s span contents => do
    let body ← newBlock
    let n ← define s (.module s body) span
    own body n
    plantBody body contents
    return n
  | .typeDef s span aggregate contents => do
    let body ← newBlock
    let n ← define s (.typeDef s aggregate body) span
    own body n
    plantBody body contents
    return n
  | .function s span params result contents => do
    let body ← newBlock
    let n ← define s (.function s [] none body) span
    own body n
    let params ← plantAll params
    let result ← plantOption result
    modify (·.setKind n (.function s params result body))
    plantBody body contents
    return n
  | .field s span type => do define s (.field s (← plant type)) span
  | .param s span type => do define s (.param s (← plantOption type)) span
  | .binding s span type value => do
    define s (.binding s (← plantOption type) (← plantOption value)) span
  | .builtinType type => newNode { kind := .builtinType type }
  | .typeRef name span s => newNode { kind := .typeRef name s, span }
  | .ident name span s => newNode { kind := .ident name s, span }
  | .literal value => newNode { kind := .literal value }
  | .call callee args => do newNode { kind := .call (← plant callee) (← plantAll args) }
  | .new type args => do newNode { kind := .new (← plant type) (← plantAll args) }
  | .ret value => do newNode { kind := .ret (← plantOption value) }

def plantOption : Option Tree → Edit (Option NodeId)
  | none => return none
  | some t => return some (← plant t)

def plantAll : List Tree → Edit (List NodeId)
  | [] => return []
  | t :: rest => return (← plant t) :: (← plantAll rest)

def plantBody (b : BlockId) : List Tree → Edit Unit
  | [] => return ()
  | t :: rest => do
    append b (← plant t)
    plantBody b rest

end

end Edit

/-- Stores the trees and makes their roots those of the program. -/
def Resolved.build (r : Resolved) : Except LinkError Program :=
  match (Edit.plantAll r.modules).run { Program.empty with symbols := r.symbols } with
  | .ok roots p => .ok { p with roots }
  | .error e _ => .error e

structure Lowered where
  program : Program
  diagnostics : List Diagnostic
  deriving DecidableEq, Repr

def Lowered.event (l : Lowered) : Event :=
  .lowered l.program.nodes.size l.program.symbols.size l.diagnostics.length

/-- Lowers a whole source tree. Trouble with names is reported and does not stop it. -/
def Source.Program.lower (source : Source.Program) : Except LinkError Lowered := do
  let resolved := source.resolve
  return { program := ← resolved.build, diagnostics := resolved.diagnostics }

end Hoist
