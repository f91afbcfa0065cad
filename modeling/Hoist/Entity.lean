/-! Identifiers: positions in the tables of a program, told apart by what they name. -/
namespace Hoist

/-- What an identifier names. -/
inductive Entity
  | symbol
  | scope
  | node
  | block
  deriving DecidableEq, Repr

def Entity.label : Entity → String
  | .symbol => "SymbolId"
  | .scope => "ScopeId"
  | .node => "HirNodeId"
  | .block => "HirBlockId"

/-- A position in a table of entities. Nothing promises that the table is that long. -/
@[ext] structure EntityId (e : Entity) where
  index : Nat
  deriving DecidableEq, Repr

abbrev SymbolId := EntityId .symbol
abbrev ScopeId := EntityId .scope
abbrev NodeId := EntityId .node
abbrev BlockId := EntityId .block

def EntityId.text {e : Entity} (i : EntityId e) : String :=
  e.label ++ "(" ++ toString i.index ++ ")"

def EntityId.optionText {e : Entity} : Option (EntityId e) → String
  | some i => "Some(" ++ i.text ++ ")"
  | none => "None"

end Hoist
