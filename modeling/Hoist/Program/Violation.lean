import Hoist.Node

/-! What can be wrong with a program, each finding with the identifiers that show it. -/
namespace Hoist

inductive Violation
  | missingSymbol (node : NodeId) (symbol : SymbolId)
  | definitionMismatch (node : NodeId) (symbol : SymbolId) (recorded : Option NodeId)
  | danglingDefinition (symbol : SymbolId) (node : NodeId)
  | notAType (node : NodeId) (symbol : SymbolId)
  | brokenLink (block : BlockId) (node : NodeId) (actual : Link)
  | unknownMember (block : BlockId) (node : NodeId)
  | cyclicBlock (block : BlockId)
  | tailMismatch (block : BlockId) (recorded actual : Option NodeId)
  | lengthMismatch (block : BlockId) (recorded actual : Nat)
  | strayNode (node : NodeId) (block : BlockId)
  | unrootedType (symbol : SymbolId)
  | nestedType (symbol : SymbolId)
  deriving DecidableEq, Repr

def Violation.message : Violation → String
  | missingSymbol n s => "node " ++ n.text ++ " declares unknown symbol " ++ s.text
  | definitionMismatch n s recorded =>
    "node " ++ n.text ++ " declares " ++ s.text ++ ", whose definition is " ++
      EntityId.optionText recorded
  | danglingDefinition s n =>
    "symbol " ++ s.text ++ " names " ++ n.text ++ " as definition, which does not declare it"
  | notAType n s => "type definition " ++ n.text ++ " is backed by non-type symbol " ++ s.text
  | brokenLink b n actual =>
    "node " ++ n.text ++ " is listed in " ++ b.text ++ " but linked as " ++ actual.text
  | unknownMember b n => "block " ++ b.text ++ " lists unknown node " ++ n.text
  | cyclicBlock b => "block " ++ b.text ++ " loops back on itself"
  | tailMismatch b recorded actual =>
    "block " ++ b.text ++ " records tail " ++ EntityId.optionText recorded ++ " but ends at " ++
      EntityId.optionText actual
  | lengthMismatch b recorded actual =>
    "block " ++ b.text ++ " records " ++ toString recorded ++ " nodes but holds " ++ toString actual
  | strayNode n b => "node " ++ n.text ++ " claims block " ++ b.text ++ " but is not in its list"
  | unrootedType s => "type " ++ s.text ++ " is not enclosed by any module"
  | nestedType s => "type " ++ s.text ++ " is still nested inside another type"

end Hoist
