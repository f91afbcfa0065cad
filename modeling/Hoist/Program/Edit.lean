import Hoist.Program

/-! Edits: moving nodes between blocks. What an edit wrote before it failed stays written. -/
namespace Hoist

inductive LinkError
  | unknownNode (node : NodeId)
  | unknownBlock (block : BlockId)
  | alreadyLinked (node : NodeId) (block : BlockId)
  deriving DecidableEq, Repr

def LinkError.message : LinkError → String
  | unknownNode n => "unknown node " ++ n.text
  | unknownBlock b => "unknown block " ++ b.text
  | alreadyLinked n b => "node " ++ n.text ++ " is already linked into block " ++ b.text

abbrev Edit := EStateM LinkError Program

namespace Program

def addNode (p : Program) (node : Node) : Program := { p with nodes := p.nodes.push node }

def addBlock (p : Program) : Program := { p with blocks := p.blocks.push {} }

def relink (p : Program) (n : NodeId) (f : Link → Link) : Program :=
  { p with nodes := p.nodes.modify n fun node => { node with link := f node.link } }

def reshape (p : Program) (b : BlockId) (f : Block → Block) : Program :=
  { p with blocks := p.blocks.modify b f }

def setKind (p : Program) (n : NodeId) (kind : NodeKind) : Program :=
  { p with nodes := p.nodes.modify n fun node => { node with kind } }

end Program

namespace Edit

def newNode (node : Node) : Edit NodeId :=
  modifyGet fun p => (p.nodes.nextId, p.addNode node)

def newBlock : Edit BlockId :=
  modifyGet fun p => (p.blocks.nextId, p.addBlock)

def node (n : NodeId) : Edit Node := fun p =>
  match p.nodes[n]? with
  | some node => .ok node p
  | none => .error (.unknownNode n) p

def block (b : BlockId) : Edit Block := fun p =>
  match p.blocks[b]? with
  | some block => .ok block p
  | none => .error (.unknownBlock b) p

def relink (n : NodeId) (f : Link → Link) : Edit Unit := do
  let _ ← node n
  modify fun p => p.relink n f

def reshape (b : BlockId) (f : Block → Block) : Edit Unit := do
  let _ ← block b
  modify fun p => p.reshape b f

/-- Makes a node the owner of a block. Whether there is such a node is not looked at. -/
def own (b : BlockId) (n : NodeId) : Edit Unit :=
  reshape b fun block => { block with owner := some n }

/-- Makes `next` follow `prev`, or open the block if nothing precedes it. -/
def joinNext (b : BlockId) (prev next : Option NodeId) : Edit Unit :=
  match prev with
  | some n => relink n fun link => { link with next }
  | none => reshape b fun block => { block with head := next }

/-- Makes `prev` precede `next`, or close the block if nothing follows it. -/
def joinPrev (b : BlockId) (prev next : Option NodeId) : Edit Unit :=
  match next with
  | some n => relink n fun link => { link with prev }
  | none => reshape b fun block => { block with tail := prev }

/-- Puts a node that is in no block at the end of a block. -/
def append (b : BlockId) (n : NodeId) : Edit Unit := do
  match (← node n).link.block with
  | some current => throw (.alreadyLinked n current)
  | none =>
    let tail := (← block b).tail
    tail.forM fun last => relink last fun link => { link with next := some n }
    relink n fun _ => { block := some b, prev := tail, next := none }
    reshape b fun block =>
      { block with head := block.head.or (some n), tail := some n, length := block.length + 1 }

/-- Takes a node out of its block and says which block that was. -/
def detach (n : NodeId) : Edit (Option BlockId) := do
  let link := (← node n).link
  match link.block with
  | none => pure none
  | some b =>
    joinNext b link.prev link.next
    joinPrev b link.prev link.next
    reshape b fun block => { block with length := block.length - 1 }
    relink n fun _ => {}
    pure (some b)

end Edit
end Hoist
