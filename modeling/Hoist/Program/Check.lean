import Hoist.Program
import Hoist.Program.Violation

/-! The invariants of a program, and everything that breaks them. -/
namespace Hoist

/-- The block in whose list each node was met last, newest first. -/
abbrev Listed := List (NodeId × BlockId)

/-- What following the list of one block has shown. -/
structure Listing where
  violations : List Violation
  listed : Listed
  count : Nat
  last : Option NodeId
  /-- Whether the list was followed to its end. -/
  ended : Bool
  deriving DecidableEq, Repr

namespace Program

variable (p : Program)

def checkDeclaration (n : NodeId) (node : Node) : List Violation :=
  match node.kind.declared? with
  | none => []
  | some s =>
    match p.symbols[s]? with
    | none => [.missingSymbol n s]
    | some symbol =>
      (if symbol.definition = some n then [] else [.definitionMismatch n s symbol.definition]) ++
      (if node.kind.typeDef?.isSome && !symbol.kind.isType then [.notAType n s] else [])

def checkDefinition (symbol : Symbol) : List Violation :=
  match symbol.definition with
  | none => []
  | some n => if p.declared? n = some symbol.id then [] else [.danglingDefinition symbol.id n]

def checkDefinitions : List Violation :=
  p.nodes.toAssoc.flatMap (fun (n, node) => p.checkDeclaration n node) ++
  p.symbols.toList.flatMap p.checkDefinition

/-- Follows the list of block `b` from `cursor`, which should come after `prev`. It stops at a node
that is unknown or was met before, also in another block, and after `room` members. -/
def follow (b : BlockId) :
    (room : Nat) → (cursor prev : Option NodeId) → (listed : Listed) → Listing
  | _, none, prev, listed =>
    { violations := [], listed, count := 0, last := prev, ended := true }
  | 0, some _, prev, listed =>
    { violations := [.cyclicBlock b], listed, count := 0, last := prev, ended := false }
  | room + 1, some n, prev, listed =>
    let met := (n, b) :: listed
    if (listed.lookup n).isSome then
      { violations := [.cyclicBlock b], listed := met, count := 0, last := prev, ended := false }
    else
      match p.link? n with
      | none =>
        { violations := [.unknownMember b n], listed := met, count := 0, last := prev,
          ended := false }
      | some link =>
        let rest := follow b room link.next (some n) met
        let broken := if link.block = some b ∧ link.prev = prev then [] else [.brokenLink b n link]
        { rest with violations := broken ++ rest.violations, count := rest.count + 1 }

/-- Compares what a block records with its list, which is followed after those in `listed`. -/
def checkBlock (b : BlockId) (block : Block) (listed : Listed) : List Violation × Listed :=
  let found := p.follow b p.nodes.size block.head none listed
  let tail :=
    if block.tail ≠ found.last ∧ found.ended then [.tailMismatch b block.tail found.last] else []
  let length :=
    if block.length ≠ found.count then [.lengthMismatch b block.length found.count] else []
  (found.violations ++ tail ++ length, found.listed)

def checkLists : List (BlockId × Block) → Listed → List Violation × Listed
  | [], listed => ([], listed)
  | (b, block) :: rest, listed =>
    let (found, listed) := p.checkBlock b block listed
    let (more, listed) := checkLists rest listed
    (found ++ more, listed)

/-- A node that names a block must have been met there last. -/
def checkStray (listed : Listed) (n : NodeId) (node : Node) : List Violation :=
  match node.link.block with
  | none => []
  | some b => if listed.lookup n = some b then [] else [.strayNode n b]

def checkBlocks : List Violation :=
  let (found, listed) := p.checkLists p.blocks.toAssoc []
  found ++ p.nodes.toAssoc.flatMap fun (n, node) => checkStray listed n node

def checkRoot (symbol : Symbol) : List Violation :=
  if symbol.kind.isType ∧ symbol.definition.isSome ∧ p.module? symbol.id = none then
    [.unrootedType symbol.id]
  else []

def checkRooting : List Violation := p.symbols.toList.flatMap p.checkRoot

def check : List Violation := p.checkDefinitions ++ p.checkBlocks ++ p.checkRooting

/-- Beside all invariants, no type may be left inside another. -/
def checkFlat : List Violation :=
  p.check ++ (p.nodes.ids.filterMap p.nested?).map .nestedType

end Program
end Hoist
