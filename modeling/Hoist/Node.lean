import Hoist.Source
import Hoist.Entity

/-! Nodes and the blocks that hold them: lists threaded through the links of their nodes. -/
namespace Hoist

inductive Literal
  | int (value : Int)
  | string (value : String)
  | bool (value : Bool)
  deriving DecidableEq, Repr

inductive NodeKind
  | module (symbol : SymbolId) (body : BlockId)
  | typeDef (symbol : SymbolId) (aggregate : Source.Aggregate) (body : BlockId)
  | function (symbol : SymbolId) (params : List NodeId) (result : Option NodeId) (body : BlockId)
  | field (symbol : SymbolId) (type : NodeId)
  | param (symbol : SymbolId) (type : Option NodeId)
  | binding (symbol : SymbolId) (type value : Option NodeId)
  | builtinType (type : Source.Builtin)
  | typeRef (name : String) (symbol : Option SymbolId)
  | ident (name : String) (symbol : Option SymbolId)
  | literal (value : Literal)
  | call (callee : NodeId) (args : List NodeId)
  | new (type : NodeId) (args : List NodeId)
  | ret (value : Option NodeId)
  deriving DecidableEq, Repr

/-- A node's place in a block: the block and its neighbours there. -/
structure Link where
  block : Option BlockId := none
  prev : Option NodeId := none
  next : Option NodeId := none
  deriving DecidableEq, Repr

def Link.text (l : Link) : String :=
  "BlockLink \x7b block: " ++ EntityId.optionText l.block ++
    ", prev: " ++ EntityId.optionText l.prev ++
    ", next: " ++ EntityId.optionText l.next ++ " \x7d"

structure Node where
  kind : NodeKind
  span : Option Span := none
  link : Link := {}
  deriving DecidableEq, Repr

/-- The ends of a list of nodes, its recorded length, and the node whose body it is. -/
structure Block where
  owner : Option NodeId := none
  head : Option NodeId := none
  tail : Option NodeId := none
  length : Nat := 0
  deriving DecidableEq, Repr

def Block.isEmpty (b : Block) : Bool := b.length == 0

namespace NodeKind

def declared? : NodeKind → Option SymbolId
  | module s _ | typeDef s _ _ | function s _ _ _ | field s _ | param s _ | binding s _ _ => some s
  | _ => none

def body? : NodeKind → Option BlockId
  | module _ b | typeDef _ _ b | function _ _ _ b => some b
  | _ => none

/-- The nodes that a node refers to directly, in source order. -/
def operands : NodeKind → List NodeId
  | function _ params result _ => params ++ result.toList
  | field _ type => [type]
  | param _ type => type.toList
  | binding _ type value => type.toList ++ value.toList
  | call callee args => callee :: args
  | new type args => type :: args
  | ret value => value.toList
  | _ => []

/-- The symbol that a type definition defines. -/
def typeDef? : NodeKind → Option SymbolId
  | typeDef s _ _ => some s
  | _ => none

end NodeKind
end Hoist
