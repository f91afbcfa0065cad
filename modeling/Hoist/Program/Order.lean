import Hoist.Program

/-! Pre-order: a node, then its operands, then the nodes of its body. -/
namespace Hoist.Program

variable (p : Program)

/-- The nodes below a node; identifiers of no node are left out. -/
def children (n : NodeId) : List NodeId :=
  match p.kind? n with
  | some kind => (kind.operands ++ (kind.body?.map p.members).getD []).filter p.hasNode
  | none => []

/-- Visits at most `room` nodes; `pending` holds those whose turn is still to come. -/
def preorderFrom : (room : Nat) → (pending : List NodeId) → List NodeId
  | 0, _ => []
  | _, [] => []
  | room + 1, n :: pending => n :: preorderFrom room (p.children n ++ pending)

/-- The nodes below the roots. One entry more than there are nodes gives a repetition away. -/
def preorder : List NodeId :=
  p.preorderFrom (p.nodes.size + 1) (p.roots.filter p.hasNode)

/-- The symbols of the type definitions below the roots, in ascending order. -/
def typeSymbols : List SymbolId :=
  let found := p.preorder.filterMap fun n => do (← p.kind? n).typeDef?
  found.eraseDups.mergeSort fun s t => s.index ≤ t.index

end Hoist.Program
