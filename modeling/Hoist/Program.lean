import Hoist.Node
import Hoist.Symbol

/-! Programs: tables of nodes, blocks and symbols, and what one can ask of any such tables. -/
namespace Hoist

@[ext] structure Program where
  nodes : Table .node Node
  blocks : Table .block Block
  symbols : Symbols
  /-- The nodes of the top-level modules, in source order. -/
  roots : List NodeId
  deriving DecidableEq, Repr

namespace Program

def empty : Program := ⟨.empty, .empty, .empty, []⟩

variable (p : Program)

def hasNode (n : NodeId) : Bool := p.nodes[n]?.isSome

def kind? (n : NodeId) : Option NodeKind := p.nodes[n]?.map Node.kind

def link? (n : NodeId) : Option Link := p.nodes[n]?.map Node.link

/-- The symbol that a node declares. -/
def declared? (n : NodeId) : Option SymbolId := do (← p.kind? n).declared?

/-- The node after this one in its block. -/
def next? (n : NodeId) : Option NodeId := do (← p.link? n).next

/-- At most `room` nodes, from `cursor` on along the next links. An unknown node is the last. -/
def chain : (room : Nat) → (cursor : Option NodeId) → List NodeId
  | 0, _ => []
  | _, none => []
  | room + 1, some n => n :: chain room (p.next? n)

/-- The nodes of a block in order. A list that loops is cut after as many nodes as there are. -/
def members (b : BlockId) : List NodeId :=
  p.chain p.nodes.size (do (← p.blocks[b]?).head)

/-- The block that holds a node. -/
def block? (n : NodeId) : Option BlockId := do (← p.link? n).block

/-- The node whose body holds a node. -/
def parent? (n : NodeId) : Option NodeId := do (← p.blocks[← p.block? n]?).owner

/-- The symbol of the declaration whose body holds a node. -/
def within? (n : NodeId) : Option SymbolId := do p.declared? (← p.parent? n)

def definition? (s : SymbolId) : Option NodeId := do (← p.symbols[s]?).definition

/-- The symbol of the declaration around a symbol's definition. -/
def outer? (s : SymbolId) : Option SymbolId := do p.within? (← p.definition? s)

def isType (s : SymbolId) : Bool := p.symbols[s]?.any (·.kind.isType)

/-- The first module among `s` and what lies around it, if one of the first `depth` is. -/
def moduleFrom : (depth : Nat) → (s : SymbolId) → Option SymbolId
  | 0, _ => none
  | depth + 1, s => do
    if (← p.symbols[s]?).kind.isModule then some s else moduleFrom depth (← p.outer? s)

/-- The innermost module around a symbol's definition. -/
def module? (s : SymbolId) : Option SymbolId := do
  p.moduleFrom (p.symbols.size + 1) (← p.outer? s)

/-- The body of a module, if a module node defines it. -/
def moduleBody? (m : SymbolId) : Option BlockId := do
  match ← p.kind? (← p.definition? m) with
  | .module _ body => some body
  | _ => none

/-- The symbol of a type definition that stands directly in another type. -/
def nested? (n : NodeId) : Option SymbolId := do
  let s ← (← p.kind? n).typeDef?
  if p.isType s && p.isType (← p.outer? s) then some s else none

end Program
end Hoist
