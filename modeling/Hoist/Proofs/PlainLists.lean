import Hoist.Proofs.Growth
import Hoist.Proofs.Moving

/-! The lists of a program answer every call as plain lists would. -/
namespace Hoist

/-- A call on a program under construction. A new node is in no block yet. -/
inductive Call
  | newNode (node : Node) (free : node.link.block = none)
  | newBlock
  | own (b : BlockId) (n : NodeId)
  | append (b : BlockId) (n : NodeId)
  | detach (n : NodeId)

/-- What a call that succeeds returns. -/
inductive Reply
  | node (n : NodeId)
  | block (b : BlockId)
  | done
  | left (b : Option BlockId)
  deriving DecidableEq, Repr

namespace Call

def perform : Call → Edit Reply
  | newNode node _ => return .node (← Edit.newNode node)
  | newBlock => return .block (← Edit.newBlock)
  | own b n => do
    Edit.own b n
    return .done
  | append b n => do
    Edit.append b n
    return .done
  | detach n => return .left (← Edit.detach n)

end Call

/-- The program after a call is what the call left behind, also if it failed. -/
def Program.respond (p : Program) (c : Call) : Except LinkError Reply × Program :=
  match c.perform p with
  | .ok reply q => (.ok reply, q)
  | .error e q => (.error e, q)

/-- Blocks as plain lists, and how many nodes there are to put into them. -/
structure PlainLists where
  nodes : Nat := 0
  lists : Table .block (List NodeId) := .empty
  deriving DecidableEq, Repr

namespace PlainLists

variable (m : PlainLists)

/-- The block whose list holds a node. -/
def holder? (n : NodeId) : Option BlockId :=
  (m.lists.toAssoc.find? fun entry => n ∈ entry.2).map Prod.fst

def answer : Call → Except LinkError (Reply × PlainLists)
  | .newNode _ _ => .ok (.node ⟨m.nodes⟩, { m with nodes := m.nodes + 1 })
  | .newBlock => .ok (.block m.lists.nextId, { m with lists := m.lists.push [] })
  | .own b _ => if (m.lists[b]?).isSome then .ok (.done, m) else .error (.unknownBlock b)
  | .append b n =>
    if m.nodes ≤ n.index then .error (.unknownNode n)
    else
      match m.holder? n with
      | some c => .error (.alreadyLinked n c)
      | none =>
        if (m.lists[b]?).isSome then
          .ok (.done, { m with lists := m.lists.modify b (· ++ [n]) })
        else .error (.unknownBlock b)
  | .detach n =>
    if m.nodes ≤ n.index then .error (.unknownNode n)
    else
      match m.holder? n with
      | some b => .ok (.left (some b), { m with lists := m.lists.modify b (·.erase n) })
      | none => .ok (.left none, m)

/-- A call that fails changes nothing. -/
def respond (c : Call) : Except LinkError Reply × PlainLists :=
  match m.answer c with
  | .ok (reply, m) => (.ok reply, m)
  | .error e => (.error e, m)

end PlainLists

namespace Edit

variable {p : Program} {b c : BlockId} {n : NodeId}

theorem node_error (h : p.nodes[n]? = none) : Edit.node n p = .error (.unknownNode n) p := by
  simp [Edit.node, h]

theorem block_error (h : p.blocks[b]? = none) : Edit.block b p = .error (.unknownBlock b) p := by
  simp [Edit.block, h]

theorem own_error (h : p.blocks[b]? = none) : own b n p = .error (.unknownBlock b) p := by
  rw [own, Edit.reshape, bind_error (block_error h)]

theorem append_unknownNode (h : p.nodes[n]? = none) :
    append b n p = .error (.unknownNode n) p := by
  rw [append, bind_error (node_error h)]

theorem append_alreadyLinked (h : p.block? n = some c) :
    append b n p = .error (.alreadyLinked n c) p := by
  obtain ⟨link, hl, hc⟩ := Option.bind_eq_some_iff.1 h
  obtain ⟨node, hn, rfl⟩ := Option.map_eq_some_iff.1 hl
  rw [append, bind_ok (node_ok hn)]
  simp only [hc]
  rfl

theorem append_unknownBlock {node : Node} (hn : p.nodes[n]? = some node)
    (hfree : node.link.block = none) (hb : p.blocks[b]? = none) :
    append b n p = .error (.unknownBlock b) p := by
  rw [append, bind_ok (node_ok hn)]
  simp only [hfree]
  rw [bind_error (block_error hb)]

theorem detach_unknownNode (h : p.nodes[n]? = none) :
    detach n p = .error (.unknownNode n) p := by
  rw [detach, bind_error (node_error h)]

end Edit

namespace Program

variable {p q : Program} {m : PlainLists} {b : BlockId} {n : NodeId}

theorem linked_addNode (hp : p.Linked) {node : Node} (hfree : node.link.block = none) :
    (p.addNode node).Linked ∧ ∀ b, (p.addNode node).members b = p.members b := by
  have hlink : ∀ n, (p.addNode node).link? n =
      if n = p.nodes.nextId then some node.link else p.link? n := by
    intro n
    simp only [link?, addNode, Table.getElem?_push]
    split <;> rfl
  refine hp.of_agree (fun n => ?_) (fun n b hn => ?_) (fun b e h => h) fun b e he hb => ?_
  · simp only [block?, hlink]
    split
    · next h => simp [h, hfree, link?]
    · rfl
  · rw [hlink, if_neg (Table.ne_nextId (lt_size_of_block? hn))]
  · change p.blocks[b]? = some e at he
    simp [hb] at he

theorem linked_addBlock (hp : p.Linked) :
    p.addBlock.Linked ∧ ∀ b, p.addBlock.members b = p.members b := by
  have hblocks : ∀ b, p.addBlock.blocks[b]? =
      if b = p.blocks.nextId then some {} else p.blocks[b]? := Table.getElem?_push _ _
  refine hp.of_agree (fun _ => rfl) (fun _ _ _ => rfl) (fun b e he => ?_) fun b e he hb => ?_
  · rw [hblocks, if_neg (Table.ne_nextId (Table.lt_size_of_getElem? he)), he]
  · rw [hblocks] at he
    split at he
    · obtain rfl := Option.some.inj he
      simp
    · simp [hb] at he

/-- Who owns a block does not matter to its list. -/
theorem linked_own (hp : p.Linked) (b : BlockId) (o : Option NodeId) :
    (p.reshape b fun e => { e with owner := o }).Linked ∧
      ∀ c, (p.reshape b fun e => { e with owner := o }).members c = p.members c := by
  have hsome : ∀ c : BlockId, ((p.reshape b fun e => { e with owner := o }).blocks[c]?).isSome =
      (p.blocks[c]?).isSome := by
    intro c
    rw [blocks_reshape]
    split <;> simp
  have hlists : ∀ c : BlockId, (p.blocks[c]?).isSome →
      (p.reshape b fun e => { e with owner := o }).Lists c (p.members c) := by
    intro c hc
    obtain ⟨hnd, hseg, owner, hrec⟩ := hp.lists c hc
    refine ⟨hnd, (segment_congr fun n _ => link?_reshape p b _ n).2 hseg,
      if b = c then o else owner, ?_⟩
    rw [blocks_reshape, hrec]
    split <;> simp
  refine ⟨.of_lists p.members (fun c hc => hlists c (hsome c ▸ hc)) fun n c hn => ?_, fun c => ?_⟩
  · rw [hsome]
    exact hp.held n c hn
  · cases hc : p.blocks[c]? with
    | some e => exact (hlists c (by simp [hc])).members_eq
    | none =>
      have hnone := hsome c
      rw [hc] at hnone
      rw [members_of_none hc, members_of_none (by simpa using hnone)]

/-- The blocks of the program are lists, namely those of the plain model. -/
structure Refines (p : Program) (m : PlainLists) : Prop where
  linked : p.Linked
  nodes : p.nodes.size = m.nodes
  lists : ∀ b, m.lists[b]? = (p.blocks[b]?).map fun _ => p.members b

theorem refines_empty : Program.empty.Refines {} where
  linked := ⟨by simp [Program.empty], by simp [Program.empty, block?, link?]⟩
  nodes := rfl
  lists b := by simp [Program.empty]

section Refines

variable (h : p.Refines m)

include h

theorem Refines.isSome_lists (b : BlockId) : (m.lists[b]?).isSome = (p.blocks[b]?).isSome := by
  simp [h.lists]

theorem Refines.getElem?_nodes : p.nodes[n]? = none ↔ m.nodes ≤ n.index := by
  rw [Table.getElem?_eq_none_iff, h.nodes]

/-- A node's link names the block whose list holds it. -/
theorem Refines.holder?_eq (n : NodeId) : m.holder? n = p.block? n := by
  cases hf : m.lists.toAssoc.find? fun entry => n ∈ entry.2 with
  | none =>
    cases hb : p.block? n with
    | none => simp [PlainLists.holder?, hf]
    | some b =>
      obtain ⟨hsome, hmem⟩ := h.linked.held n b hb
      obtain ⟨e, he⟩ := Option.isSome_iff_exists.1 hsome
      have hentry : (b, p.members b) ∈ m.lists.toAssoc := by
        rw [Table.mem_toAssoc, h.lists, he]
        rfl
      simpa [hmem] using List.find?_eq_none.1 hf _ hentry
  | some entry =>
    obtain ⟨b, l⟩ := entry
    have hn : n ∈ l := by simpa using List.find?_some hf
    have hl := Table.mem_toAssoc.1 (List.mem_of_find?_eq_some hf)
    rw [h.lists] at hl
    obtain ⟨e, _, rfl⟩ := Option.map_eq_some_iff.1 hl
    simp [PlainLists.holder?, hf, h.linked.mem_members.1 hn]

/-- Changing one list of the program and of the model in the same way. -/
theorem Refines.rearranged {f : List NodeId → List NodeId}
    (hq : p.Rearranged q fun c => if c = b then f (p.members b) else p.members c) :
    q.Refines { m with lists := m.lists.modify b f } where
  linked := hq.linked
  nodes := by rw [hq.relinked.nodes_size, h.nodes]
  lists c := by
    have hsome := hq.relinked.isSome_block c
    rw [Table.getElem?_modify, h.lists, hq.members]
    by_cases hcb : b = c
    · subst hcb
      cases hp : p.blocks[b]? <;> cases hqb : q.blocks[b]? <;> simp_all
    · rw [if_neg hcb, if_neg (Ne.symm hcb)]
      cases hp : p.blocks[c]? <;> cases hqc : q.blocks[c]? <;> simp_all

theorem Refines.newNode {node : Node} (hfree : node.link.block = none) :
    (p.addNode node).Refines { m with nodes := m.nodes + 1 } where
  linked := (linked_addNode h.linked hfree).1
  nodes := by simp [addNode, h.nodes]
  lists b := by
    rw [h.lists, (linked_addNode h.linked hfree).2]
    rfl

theorem Refines.nextId_lists : m.lists.nextId = p.blocks.nextId := by
  rw [Table.nextId, Table.nextId, Table.size_eq_of_isSome h.isSome_lists]

theorem Refines.newBlock : p.addBlock.Refines { m with lists := m.lists.push [] } where
  linked := (linked_addBlock h.linked).1
  nodes := h.nodes
  lists b := by
    have hblocks : p.addBlock.blocks[b]? =
        if b = p.blocks.nextId then some {} else p.blocks[b]? := Table.getElem?_push ..
    rw [(linked_addBlock h.linked).2, Table.getElem?_push, h.nextId_lists, hblocks, h.lists]
    split
    · next hb => rw [hb, members_of_none (Table.getElem?_nextId _)]; rfl
    · rfl

theorem Refines.own (b : BlockId) (o : Option NodeId) :
    (p.reshape b fun e => { e with owner := o }).Refines m where
  linked := (linked_own h.linked b o).1
  nodes := h.nodes
  lists c := by
    rw [h.lists, (linked_own h.linked b o).2, blocks_reshape]
    split <;> simp [Function.comp_def]

end Refines

/-- The program answers a call as the plain lists do, and its lists are theirs afterwards. If the
call fails, the program is left as it was. -/
def Answers (p : Program) (m : PlainLists) (c : Call) : Prop :=
  match m.answer c with
  | .ok (reply, m') => ∃ q, c.perform p = .ok reply q ∧ q.Refines m'
  | .error e => c.perform p = .error e p

theorem answers_ok {c : Call} {reply : Reply} {m' : PlainLists}
    (hm : m.answer c = .ok (reply, m')) (hp : c.perform p = .ok reply q) (hq : q.Refines m') :
    p.Answers m c := by
  simp only [Answers, hm]
  exact ⟨q, hp, hq⟩

theorem answers_error {c : Call} {e : LinkError} (hm : m.answer c = .error e)
    (hp : c.perform p = .error e p) : p.Answers m c := by
  simp only [Answers, hm]
  exact hp

theorem Refines.answers_own (h : p.Refines m) (b : BlockId) (n : NodeId) :
    p.Answers m (.own b n) := by
  cases hb : p.blocks[b]? with
  | none =>
    refine answers_error ?_ (bind_error (Edit.own_error hb))
    simp [PlainLists.answer, h.isSome_lists, hb]
  | some e =>
    refine answers_ok ?_ (bind_ok (Edit.reshape_ok hb _)) (h.own b (some n))
    simp [PlainLists.answer, h.isSome_lists, hb]

theorem Refines.answers_append (h : p.Refines m) (b : BlockId) (n : NodeId) :
    p.Answers m (.append b n) := by
  have hholder := h.holder?_eq n
  cases hn : p.nodes[n]? with
  | none =>
    refine answers_error ?_ (bind_error (Edit.append_unknownNode hn))
    simp [PlainLists.answer, h.getElem?_nodes.1 hn]
  | some node =>
    have hm : ¬ m.nodes ≤ n.index := by simp [← h.getElem?_nodes, hn]
    cases hblock : p.block? n with
    | some c =>
      refine answers_error ?_ (bind_error (Edit.append_alreadyLinked hblock))
      simp [PlainLists.answer, hm, hholder, hblock]
    | none =>
      cases hb : p.blocks[b]? with
      | none =>
        have hfree : node.link.block = none := by simpa [block?, link?, hn] using hblock
        refine answers_error ?_ (bind_error (Edit.append_unknownBlock hn hfree hb))
        simp [PlainLists.answer, hm, hholder, hblock, h.isSome_lists, hb]
      | some e =>
        obtain ⟨q, hrun, hq⟩ := h.linked.append_ok (b := b) hblock (Table.lt_size_of_getElem? hn)
          (by simp [hb])
        refine answers_ok ?_ (bind_ok hrun) (h.rearranged (f := (· ++ [n])) hq)
        simp [PlainLists.answer, hm, hholder, hblock, h.isSome_lists, hb]

theorem Refines.answers_detach (h : p.Refines m) (n : NodeId) : p.Answers m (.detach n) := by
  have hholder := h.holder?_eq n
  cases hn : p.nodes[n]? with
  | none =>
    refine answers_error ?_ (bind_error (Edit.detach_unknownNode hn))
    simp [PlainLists.answer, h.getElem?_nodes.1 hn]
  | some node =>
    have hm : ¬ m.nodes ≤ n.index := by simp [← h.getElem?_nodes, hn]
    cases hblock : p.block? n with
    | none =>
      have hrun := Linked.detach_free hblock (Table.lt_size_of_getElem? hn)
      refine answers_ok ?_ (bind_ok hrun) h
      simp [PlainLists.answer, hm, hholder, hblock]
    | some b =>
      obtain ⟨q, hrun, _, hq⟩ := h.linked.detach_ok hblock
      -- the other lists do not hold the node, so taking it out of all of them changes only one
      have hone : p.Rearranged q fun c => if c = b then (p.members b).erase n else p.members c := by
        refine ⟨hq.relinked, hq.linked, fun c => ?_⟩
        rw [hq.members]
        split
        · next hc => rw [hc]
        · next hc =>
          refine List.erase_of_not_mem fun hmem => hc ?_
          simpa [hblock] using (h.linked.mem_members.1 hmem).symm
      refine answers_ok ?_ (bind_ok hrun) (h.rearranged (f := (·.erase n)) hone)
      simp [PlainLists.answer, hm, hholder, hblock]

theorem Refines.answers (h : p.Refines m) (c : Call) : p.Answers m c := by
  cases c with
  | newNode node free =>
    refine answers_ok ?_ rfl (h.newNode free)
    simp [PlainLists.answer, Table.nextId, h.nodes]
  | newBlock =>
    refine answers_ok ?_ rfl h.newBlock
    simp [PlainLists.answer, h.nextId_lists]
  | own b n => exact h.answers_own b n
  | append b n => exact h.answers_append b n
  | detach n => exact h.answers_detach n

/-- One call: the same answer, and lists that are still the same. -/
theorem Refines.respond (h : p.Refines m) (c : Call) :
    (p.respond c).1 = (m.respond c).1 ∧ (p.respond c).2.Refines (m.respond c).2 := by
  have hc := h.answers c
  simp only [Answers] at hc
  simp only [Program.respond, PlainLists.respond]
  split at hc
  · obtain ⟨q, hrun, hq⟩ := hc
    simp [hrun, hq]
  · simp [hc, h]

theorem Refines.eq_of_error (h : p.Refines m) {c : Call} {e : LinkError}
    (hc : (p.respond c).1 = .error e) : (p.respond c).2 = p := by
  have hans := h.answers c
  simp only [Answers] at hans
  split at hans
  · obtain ⟨q, hrun, _⟩ := hans
    simp [Program.respond, hrun] at hc
  · simp [Program.respond, hans]

/-- Whatever calls are made on an empty program, it gives the answers of the plain lists and lists
what they list, its links are in order, and the next call that fails changes nothing. -/
theorem run_calls_refines (calls : List Call) :
    ∃ answers p m, answerAll Program.respond .empty calls = (answers, p) ∧
      answerAll PlainLists.respond {} calls = (answers, m) ∧ p.checkBlocks = [] ∧
      (∀ b, p.members b = (m.lists[b]?).getD []) ∧
      ∀ c e, (p.respond c).1 = .error e → (p.respond c).2 = p := by
  obtain ⟨hanswers, hr⟩ := answerAll_related (fun _ _ c h => h.respond c) refines_empty calls
  refine ⟨_, _, _, rfl, Prod.ext hanswers.symm rfl, checkBlocks_eq_nil_iff.2 hr.linked, fun b => ?_,
    fun c e => hr.eq_of_error⟩
  rw [hr.lists]
  cases hb : (answerAll Program.respond .empty calls).2.blocks[b]? with
  | none => simp [members_of_none hb]
  | some e => rfl

end Program
end Hoist
