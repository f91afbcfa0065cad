import Hoist.Discovery
import Hoist.Program.Edit

/-! Moves: taking the definition of a nested type to the end of its module's body. -/
namespace Hoist

structure Move where
  symbol : SymbolId
  definition : NodeId
  /-- The block that holds the definition while the move is planned. -/
  source : BlockId
  module : SymbolId
  target : BlockId
  deriving DecidableEq, Repr

/-- Why a type has nowhere to go. -/
inductive PlanError
  | missingDefinition (symbol : SymbolId) (name : String)
  | detachedDefinition (symbol : SymbolId) (name : String)
  | unrootedType (symbol : SymbolId) (name : String)
  | missingModuleBody (module : SymbolId)
  deriving DecidableEq, Repr

def PlanError.message : PlanError → String
  | missingDefinition s name => "type `" ++ name ++ "` (" ++ s.text ++ ") has no definition node"
  | detachedDefinition s name =>
    "definition of type `" ++ name ++ "` (" ++ s.text ++ ") is not held by any block"
  | unrootedType s name => "type `" ++ name ++ "` (" ++ s.text ++ ") is not enclosed by any module"
  | missingModuleBody m => "module " ++ m.text ++ " has no body block"

namespace Program

variable (p : Program)

def planMove (s : SymbolId) : Except PlanError Move := do
  let name := p.symbols.name s
  let some definition := p.definition? s | throw (.missingDefinition s name)
  let some source := p.block? definition | throw (.detachedDefinition s name)
  let some module := p.module? s | throw (.unrootedType s name)
  let some target := p.moduleBody? module | throw (.missingModuleBody module)
  return { symbol := s, definition, source, module, target }

/-- Plans every move on the program as it stands, up to the first type that has nowhere to go. -/
def plan (types : Discovery) : Except PlanError (List Move) :=
  types.order.mapM p.planMove

end Program

def Move.perform (m : Move) : Edit Unit := do
  let _ ← Edit.detach m.definition
  Edit.append m.target m.definition

end Hoist
