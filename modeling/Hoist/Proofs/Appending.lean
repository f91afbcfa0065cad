import Hoist.Proofs.PlainLists

/-! Putting a node at the end of a block, on any program, writes everything or nothing. -/
namespace Hoist

namespace Program

/-- Why a node cannot be put at the end of a block. Each reason presupposes that those before it do
not apply. -/
inductive Declines (p : Program) (b : BlockId) (n : NodeId) : LinkError → Prop
  | unknownNode (hn : p.nodes[n]? = none) : Declines p b n (.unknownNode n)
  | alreadyLinked {node : Node} {c : BlockId} (hn : p.nodes[n]? = some node)
    (hc : node.link.block = some c) : Declines p b n (.alreadyLinked n c)
  | unknownBlock {node : Node} (hn : p.nodes[n]? = some node) (hfree : node.link.block = none)
    (hb : p.blocks[b]? = none) : Declines p b n (.unknownBlock b)
  | unknownTail {node : Node} {e : Block} {last : NodeId} (hn : p.nodes[n]? = some node)
    (hfree : node.link.block = none) (hb : p.blocks[b]? = some e) (htail : e.tail = some last)
    (hlast : p.nodes[last]? = none) : Declines p b n (.unknownNode last)

/-- The node that has been last so far, if there is one, gets a successor. -/
def succeed (p : Program) (tail : Option NodeId) (n : NodeId) : Program :=
  match tail with
  | none => p
  | some last => p.relink last fun link => { link with next := some n }

/-- What is written when node `n` comes to the end of block `b`, which ended in `tail`. -/
def extend (p : Program) (b : BlockId) (tail : Option NodeId) (n : NodeId) : Program :=
  let q := (p.succeed tail n).relink n fun _ => { block := some b, prev := tail, next := none }
  q.reshape b fun e =>
    { e with head := e.head.or (some n), tail := some n, length := e.length + 1 }

theorem relinked_succeed (p : Program) (tail : Option NodeId) (n : NodeId) :
    p.Relinked (p.succeed tail n) := by
  cases tail with
  | none => exact .refl p
  | some last => exact relinked_relink p last fun link => { link with next := some n }

@[simp] theorem blocks_succeed (p : Program) (tail : Option NodeId) (n : NodeId) :
    (p.succeed tail n).blocks = p.blocks := by
  cases tail <;> rfl

theorem link?_succeed (p : Program) (tail : Option NodeId) (n m : NodeId) :
    (p.succeed tail n).link? m =
      if tail = some m then (p.link? m).map fun link => { link with next := some n }
      else p.link? m := by
  cases tail with
  | none => simp [succeed]
  | some last => simp [succeed, link?_relink]

theorem relinked_extend (p : Program) (b : BlockId) (tail : Option NodeId) (n : NodeId) :
    p.Relinked (p.extend b tail n) :=
  (p.relinked_succeed tail n).trans <|
    (relinked_relink _ n _).trans (relinked_reshape _ b _ fun _ => rfl)

theorem blocks_extend (p : Program) (b c : BlockId) (tail : Option NodeId) (n : NodeId) :
    (p.extend b tail n).blocks[c]? =
      if b = c then p.blocks[c]?.map fun e =>
        { e with head := e.head.or (some n), tail := some n, length := e.length + 1 }
      else p.blocks[c]? := by
  simp [extend, blocks_reshape]

/-- If the node itself was recorded as the last one, its own link is the one that counts. -/
theorem link?_extend (p : Program) (b : BlockId) (tail : Option NodeId) (n m : NodeId) :
    (p.extend b tail n).link? m =
      if n = m then (p.link? m).map fun _ => ⟨some b, tail, none⟩
      else (p.succeed tail n).link? m := by
  simp only [extend, link?_reshape, link?_relink]
  split
  · rw [link?_succeed]
    split
    · rw [Option.map_map]
      rfl
    · rfl
  · rfl

end Program

namespace Edit

open Program

variable {p : Program} {b : BlockId} {n last : NodeId} {node : Node} {e : Block}

theorem append_unknownTail (hn : p.nodes[n]? = some node) (hfree : node.link.block = none)
    (hb : p.blocks[b]? = some e) (htail : e.tail = some last) (hlast : p.nodes[last]? = none) :
    append b n p = .error (.unknownNode last) p := by
  have hrelink : relink last (fun link => { link with next := some n }) p =
      .error (.unknownNode last) p := bind_error (node_error hlast)
  rw [append, bind_ok (node_ok hn)]
  simp only [hfree]
  rw [bind_ok (block_ok hb), htail]
  exact bind_error hrelink

theorem append_extend (hn : p.nodes[n]? = some node) (hfree : node.link.block = none)
    (hb : p.blocks[b]? = some e) (htail : ∀ last, e.tail = some last → p.hasNode last) :
    append b n p = .ok () (p.extend b e.tail n) := by
  have hsucceed : (e.tail.forM fun last => relink last fun link => { link with next := some n }) p =
      .ok () (p.succeed e.tail n) := by
    cases ht : e.tail with
    | none => rfl
    | some last =>
      obtain ⟨tailNode, hlast⟩ := Option.isSome_iff_exists.1 (htail last ht)
      exact relink_ok hlast _
  obtain ⟨node', hn'⟩ : ∃ node', (p.succeed e.tail n).nodes[n]? = some node' := by
    have hcontent := (p.relinked_succeed e.tail n).content n
    have hsome := congrArg Option.isSome hcontent
    simpa [content?, hn, Option.isSome_iff_exists] using hsome
  rw [append, bind_ok (node_ok hn)]
  simp only [hfree]
  rw [bind_ok (block_ok hb), bind_ok hsucceed, bind_ok (relink_ok hn' _)]
  exact reshape_ok (by simpa using hb) _

end Edit

namespace Program

variable {p : Program} {b : BlockId} {n : NodeId} {err : LinkError}

theorem Declines.append_eq (h : p.Declines b n err) : Edit.append b n p = .error err p := by
  cases h with
  | unknownNode hn => exact Edit.append_unknownNode hn
  | alreadyLinked hn hc => exact Edit.append_alreadyLinked (by simp [block?, link?, hn, hc])
  | unknownBlock hn hfree hb => exact Edit.append_unknownBlock hn hfree hb
  | unknownTail hn hfree hb htail hlast => exact Edit.append_unknownTail hn hfree hb htail hlast

/-- Either there is a reason against it, or the node comes to the end of the block. -/
theorem append_cases (p : Program) (b : BlockId) (n : NodeId) :
    (∃ err, p.Declines b n err) ∨
      ∃ e, p.hasNode n ∧ p.blocks[b]? = some e ∧
        Edit.append b n p = .ok () (p.extend b e.tail n) := by
  cases hn : p.nodes[n]? with
  | none => exact .inl ⟨_, .unknownNode hn⟩
  | some node =>
    cases hfree : node.link.block with
    | some c => exact .inl ⟨_, .alreadyLinked hn hfree⟩
    | none =>
      cases hb : p.blocks[b]? with
      | none => exact .inl ⟨_, .unknownBlock hn hfree hb⟩
      | some e =>
        by_cases htail : ∀ last, e.tail = some last → p.hasNode last
        · exact .inr ⟨e, by simp [hasNode, hn], rfl, Edit.append_extend hn hfree hb htail⟩
        · push Not at htail
          obtain ⟨last, hlast, hmissing⟩ := htail
          refine .inl ⟨_, .unknownTail hn hfree hb hlast ?_⟩
          simpa [hasNode] using hmissing

/-- A node is refused for the first reason that applies, and then nothing has been written.
Otherwise it becomes the last node of the block, after the one that was recorded as the last. -/
theorem append_atomic (p : Program) (b : BlockId) (n : NodeId) :
    (∀ err q, Edit.append b n p = .error err q ↔ p.Declines b n err ∧ q = p) ∧
    ∀ q, Edit.append b n p = .ok () q → ∃ e, p.blocks[b]? = some e ∧ p.Relinked q ∧
      (∀ m, q.link? m =
        if n = m then some ⟨some b, e.tail, none⟩
        else if e.tail = some m then (p.link? m).map fun link => { link with next := some n }
        else p.link? m) ∧
      ∀ c, q.blocks[c]? =
        if b = c then some
          { e with head := e.head.or (some n), tail := some n, length := e.length + 1 }
        else p.blocks[c]? := by
  rcases p.append_cases b n with ⟨reason, hreason⟩ | ⟨e, hn, hb, hrun⟩
  · have hrun := hreason.append_eq
    refine ⟨fun err q => ⟨fun h => ?_, fun ⟨h, hq⟩ => hq ▸ h.append_eq⟩, fun q h => ?_⟩
    · rw [hrun] at h
      cases h
      exact ⟨hreason, rfl⟩
    · rw [hrun] at h
      cases h
  · refine ⟨fun err q => ⟨fun h => ?_, fun ⟨h, _⟩ => ?_⟩, fun q h => ?_⟩
    · rw [hrun] at h
      cases h
    · rw [h.append_eq] at hrun
      cases hrun
    · rw [hrun] at h
      cases h
      refine ⟨e, hb, p.relinked_extend b e.tail n, fun m => ?_, fun c => ?_⟩
      · rw [link?_extend, link?_succeed]
        split
        · next hm =>
          subst hm
          obtain ⟨node, hnode⟩ := Option.isSome_iff_exists.1 hn
          simp [link?, hnode]
        · rfl
      · rw [blocks_extend]
        split
        · next hc =>
          rw [← hc, hb]
          rfl
        · rfl

/-- Two nodes in no block, and two blocks whose records make no sense: the first one ends in a node
that is not in it and has no beginning, the second one ends in a node that does not exist. -/
def strayEnds : Program where
  nodes := ⟨#[{ kind := .literal (.int 0) }, { kind := .literal (.int 1) }]⟩
  blocks := ⟨#[{ tail := some ⟨0⟩, length := 7 }, { tail := some ⟨9⟩ }]⟩
  symbols := .empty
  roots := []

/-- The node that the first block ends in comes after itself there; the second block refuses it. -/
theorem append_atomic_strayEnds :
    Edit.append ⟨1⟩ ⟨0⟩ strayEnds = .error (.unknownNode ⟨9⟩) strayEnds ∧
    ∃ q, Edit.append ⟨0⟩ ⟨0⟩ strayEnds = .ok () q ∧
      q.link? ⟨0⟩ = some ⟨some ⟨0⟩, some ⟨0⟩, none⟩ ∧ q.link? ⟨1⟩ = strayEnds.link? ⟨1⟩ ∧
      q.blocks[(⟨0⟩ : BlockId)]? = some ⟨none, some ⟨0⟩, some ⟨0⟩, 8⟩ := by
  have hreason : strayEnds.Declines ⟨1⟩ ⟨0⟩ (.unknownNode ⟨9⟩) := .unknownTail rfl rfl rfl rfl rfl
  refine ⟨((strayEnds.append_atomic ⟨1⟩ ⟨0⟩).1 _ _).2 ⟨hreason, rfl⟩, ?_⟩
  have hrun : Edit.append ⟨0⟩ ⟨0⟩ strayEnds = .ok () (strayEnds.extend ⟨0⟩ (some ⟨0⟩) ⟨0⟩) :=
    Edit.append_extend (e := ⟨none, none, some ⟨0⟩, 7⟩) rfl rfl rfl (by decide)
  obtain ⟨e, he, -, hlink, hblocks⟩ := (strayEnds.append_atomic ⟨0⟩ ⟨0⟩).2 _ hrun
  obtain rfl : ⟨none, none, some ⟨0⟩, 7⟩ = e := Option.some.inj he
  exact ⟨_, hrun, hlink ⟨0⟩, hlink ⟨1⟩, hblocks ⟨0⟩⟩

end Program
end Hoist
