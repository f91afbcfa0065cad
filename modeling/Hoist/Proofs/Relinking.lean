import Hoist.Proofs.Links
import Hoist.Proofs.Sequencing

/-! What the edits do to the lists of a linked program. -/
namespace Hoist

/-- What a node says, apart from its place. -/
def Node.content (node : Node) : NodeKind × Option Span := (node.kind, node.span)

namespace Program

variable {p q r : Program} {b c : BlockId} {n m : NodeId} {l l₁ l₂ : List NodeId}

def content? (p : Program) (n : NodeId) : Option (NodeKind × Option Span) :=
  p.nodes[n]?.map Node.content

/-- The owner that a block records, if there is such a block. -/
def owner? (p : Program) (b : BlockId) : Option (Option NodeId) := p.blocks[b]?.map Block.owner

/-- The two programs differ in their lists only. -/
structure Relinked (p q : Program) : Prop where
  content : ∀ n, q.content? n = p.content? n
  owner : ∀ b, q.owner? b = p.owner? b
  symbols : q.symbols = p.symbols
  roots : q.roots = p.roots

theorem Relinked.refl (p : Program) : p.Relinked p := ⟨fun _ => rfl, fun _ => rfl, rfl, rfl⟩

theorem Relinked.trans (h : p.Relinked q) (h' : q.Relinked r) : p.Relinked r where
  content n := (h'.content n).trans (h.content n)
  owner b := (h'.owner b).trans (h.owner b)
  symbols := h'.symbols.trans h.symbols
  roots := h'.roots.trans h.roots

theorem kind?_eq_content? (p : Program) (n : NodeId) : p.kind? n = (p.content? n).map Prod.fst := by
  simp [kind?, content?, Function.comp_def, Node.content]

theorem isSome_block (p : Program) (b : BlockId) : (p.blocks[b]?).isSome = (p.owner? b).isSome := by
  simp [owner?]

theorem Relinked.kind? (h : p.Relinked q) (n : NodeId) : q.kind? n = p.kind? n := by
  rw [kind?_eq_content?, h.content, kind?_eq_content?]

theorem Relinked.declared? (h : p.Relinked q) (n : NodeId) : q.declared? n = p.declared? n := by
  simp only [Program.declared?, h.kind?]

theorem Relinked.isSome_block (h : p.Relinked q) (b : BlockId) :
    (q.blocks[b]?).isSome = (p.blocks[b]?).isSome := by
  rw [Program.isSome_block, h.owner, Program.isSome_block]

theorem Relinked.definition? (h : p.Relinked q) (s : SymbolId) :
    q.definition? s = p.definition? s := by
  simp only [Program.definition?, h.symbols]

theorem Relinked.isType (h : p.Relinked q) (s : SymbolId) : q.isType s = p.isType s := by
  simp only [Program.isType, h.symbols]

theorem Relinked.nodes_size (h : p.Relinked q) : q.nodes.size = p.nodes.size := by
  apply Table.size_eq_of_isSome
  intro n
  have hn := congrArg Option.isSome (h.content n)
  simpa [content?] using hn

theorem nodes_relink (p : Program) (n m : NodeId) (f : Link → Link) :
    (p.relink n f).nodes[m]? =
      if n = m then p.nodes[m]?.map fun node => { node with link := f node.link }
      else p.nodes[m]? := Table.getElem?_modify ..

theorem link?_relink (p : Program) (n m : NodeId) (f : Link → Link) :
    (p.relink n f).link? m = if n = m then (p.link? m).map f else p.link? m := by
  rw [link?, nodes_relink]
  split <;> simp [link?, Function.comp_def]

@[simp] theorem blocks_relink (p : Program) (n : NodeId) (f : Link → Link) :
    (p.relink n f).blocks = p.blocks := rfl

theorem relinked_relink (p : Program) (n : NodeId) (f : Link → Link) :
    p.Relinked (p.relink n f) where
  content m := by
    rw [content?, nodes_relink]
    split
    · rw [Option.map_map]
      rfl
    · rfl
  owner _ := rfl
  symbols := rfl
  roots := rfl

theorem blocks_reshape (p : Program) (b c : BlockId) (f : Block → Block) :
    (p.reshape b f).blocks[c]? = if b = c then p.blocks[c]?.map f else p.blocks[c]? :=
  Table.getElem?_modify ..

@[simp] theorem link?_reshape (p : Program) (b : BlockId) (f : Block → Block) (n : NodeId) :
    (p.reshape b f).link? n = p.link? n := rfl

theorem relinked_reshape (p : Program) (b : BlockId) (f : Block → Block)
    (hf : ∀ e, (f e).owner = e.owner) : p.Relinked (p.reshape b f) where
  content _ := rfl
  owner c := by
    rw [owner?, blocks_reshape]
    split <;> simp [owner?, Function.comp_def, hf]
  symbols := rfl
  roots := rfl

end Program

namespace Edit

open Program

variable {α β : Type} {p q : Program} {b : BlockId} {n : NodeId}

theorem node_ok {node : Node} (h : p.nodes[n]? = some node) : Edit.node n p = .ok node p := by
  simp [Edit.node, h]

theorem block_ok {e : Block} (h : p.blocks[b]? = some e) : Edit.block b p = .ok e p := by
  simp [Edit.block, h]

theorem relink_ok {node : Node} (h : p.nodes[n]? = some node) (f : Link → Link) :
    Edit.relink n f p = .ok () (p.relink n f) := by
  rw [Edit.relink, bind_ok (node_ok h)]
  rfl

theorem reshape_ok {e : Block} (h : p.blocks[b]? = some e) (f : Block → Block) :
    Edit.reshape b f p = .ok () (p.reshape b f) := by
  rw [Edit.reshape, bind_ok (block_ok h)]
  rfl

/-- Everything but the links of the nodes in `l` and the list that block `b` records is kept. -/
structure Local (p q : Program) (b : BlockId) (l : List NodeId) : Prop where
  relinked : p.Relinked q
  link : ∀ m, m ∉ l → q.link? m = p.link? m
  blocks : ∀ c, c ≠ b → q.blocks[c]? = p.blocks[c]?

theorem Local.trans {r : Program} {l₁ l₂ : List NodeId} (h : Local p q b l₁)
    (h' : Local q r b l₂) : Local p r b (l₁ ++ l₂) where
  relinked := h.relinked.trans h'.relinked
  link m hm := by
    rw [List.mem_append, not_or] at hm
    rw [h'.link m hm.2, h.link m hm.1]
  blocks c hc := (h'.blocks c hc).trans (h.blocks c hc)

theorem local_relink (p : Program) (b : BlockId) (n : NodeId) (f : Link → Link) :
    Local p (p.relink n f) b [n] where
  relinked := relinked_relink p n f
  link m hm := by
    rw [link?_relink, if_neg fun h => hm (by simp [h])]
  blocks _ _ := rfl

theorem local_reshape (p : Program) (b : BlockId) (f : Block → Block)
    (hf : ∀ e, (f e).owner = e.owner) : Local p (p.reshape b f) b [] where
  relinked := relinked_reshape p b f hf
  link _ _ := rfl
  blocks c hc := by rw [blocks_reshape, if_neg hc.symm]

theorem exists_node {link : Link} (h : p.link? n = some link) : ∃ node, p.nodes[n]? = some node :=
  (Option.map_eq_some_iff.1 h).imp fun _ h => h.1

/-- Only the last node of a list says what follows the list. -/
theorem relink_last {init : List NodeId} {last : NodeId} {old : Option NodeId}
    (next : Option NodeId) (hs : p.Segment b none (init ++ [last]) old)
    (hl : (init ++ [last]).Nodup) :
    ∃ q, relink last (fun link => { link with next }) p = .ok () q ∧
      Local p q b (init ++ [last]) ∧ q.Segment b none (init ++ [last]) next ∧
      q.blocks = p.blocks := by
  obtain ⟨hinit, hlast⟩ := segment_append.1 hs
  have hn := (segment_cons.1 hlast).1
  have hm : last ∉ init := fun h => (List.nodup_append.1 hl).2.2 last h last (by simp) rfl
  obtain ⟨node, hnode⟩ := exists_node hn
  have hloc := local_relink p b last fun link => { link with next }
  refine ⟨_, relink_ok hnode _, ⟨hloc.relinked, ?_, hloc.blocks⟩, ?_, rfl⟩
  · exact fun m hm => hloc.link m fun h => hm (by simp_all)
  · refine segment_append.2 ⟨(segment_congr fun m hmem => ?_).2 hinit, ?_⟩
    · exact hloc.link m fun h => hm (by simp_all)
    · simp [segment_cons, link?_relink, hn]

/-- Whatever followed `l`, now `next` does. -/
theorem joinNext_ok {l : List NodeId} {old tail owner : Option NodeId} {k : Nat}
    (next : Option NodeId) (hs : p.Segment b none l old) (hl : l.Nodup)
    (hb : p.blocks[b]? = some ⟨owner, l.head?.or old, tail, k⟩) :
    ∃ q, joinNext b l.getLast? next p = .ok () q ∧ Local p q b l ∧ q.Segment b none l next ∧
      q.blocks[b]? = some ⟨owner, l.head?.or next, tail, k⟩ := by
  obtain rfl | ⟨init, last, rfl⟩ := l.eq_nil_or_concat'
  · refine ⟨_, reshape_ok hb _, local_reshape p b _ fun _ => rfl, segment_nil, ?_⟩
    simp [blocks_reshape, hb]
  · obtain ⟨q, hrun, hloc, hseg, hblocks⟩ := relink_last next hs hl
    refine ⟨q, by simpa [joinNext] using hrun, hloc, hseg, ?_⟩
    rw [hblocks, hb]
    cases init <;> simp

/-- Whatever preceded `l`, now `prev` does. -/
theorem joinPrev_ok {l : List NodeId} {old head owner : Option NodeId} {k : Nat}
    (prev : Option NodeId) (hs : p.Segment b old l none) (hl : l.Nodup)
    (hb : p.blocks[b]? = some ⟨owner, head, l.getLast?.or old, k⟩) :
    ∃ q, joinPrev b prev l.head? p = .ok () q ∧ Local p q b l ∧ q.Segment b prev l none ∧
      q.blocks[b]? = some ⟨owner, head, l.getLast?.or prev, k⟩ := by
  cases l with
  | nil =>
    refine ⟨_, reshape_ok hb _, local_reshape p b _ fun _ => rfl, segment_nil, ?_⟩
    simp [blocks_reshape, hb]
  | cons first rest =>
    obtain ⟨hn, hrest⟩ := segment_cons.1 hs
    obtain ⟨node, hnode⟩ := exists_node hn
    have hloc := local_relink p b first fun link => { link with prev }
    refine ⟨_, relink_ok hnode _, ⟨hloc.relinked, ?_, hloc.blocks⟩, ?_, ?_⟩
    · exact fun m hm => hloc.link m fun h => hm (by simp_all)
    · refine segment_cons.2 ⟨by simp [link?_relink, hn], (segment_congr fun m hmem => ?_).2 hrest⟩
      exact hloc.link m fun h => (List.nodup_cons.1 hl).1 (by simp_all)
    · simpa [List.getLast?_cons] using hb

theorem follow_ok {l : List NodeId} {old : Option NodeId} (hs : p.Segment b none l old)
    (hl : l.Nodup) :
    ∃ q, (l.getLast?.forM fun last => relink last fun link => { link with next := some n }) p =
        .ok () q ∧
      Local p q b l ∧ q.Segment b none l (some n) ∧ q.blocks = p.blocks := by
  obtain rfl | ⟨init, last, rfl⟩ := l.eq_nil_or_concat'
  · exact ⟨p, rfl, ⟨.refl p, fun _ _ => rfl, fun _ _ => rfl⟩, segment_nil, rfl⟩
  · obtain ⟨q, hrun, hq⟩ := relink_last (some n) hs hl
    exact ⟨q, by simpa using hrun, hq⟩

theorem append_lists {l : List NodeId} {link : Link} (hl : p.Lists b l) (hn : p.link? n = some link)
    (hfree : link.block = none) :
    ∃ q, append b n p = .ok () q ∧ Local p q b (l ++ [n]) ∧ q.Lists b (l ++ [n]) := by
  obtain ⟨owner, hblock⟩ := hl.block
  have hnl : n ∉ l := fun h => by simpa [block?, hn, hfree] using hl.block?_eq h
  obtain ⟨q₁, h₁, hloc₁, hseg₁, hblocks₁⟩ := follow_ok (n := n) hl.segment hl.nodup
  have hn₁ : q₁.link? n = some link := by rw [hloc₁.link n hnl, hn]
  obtain ⟨node, hnode⟩ := exists_node hn
  obtain ⟨node₁, hnode₁⟩ := exists_node hn₁
  let q₂ := q₁.relink n fun _ => { block := some b, prev := l.getLast?, next := none }
  have hblock₂ : q₂.blocks[b]? = some ⟨owner, l.head?, l.getLast?, l.length⟩ := by
    simpa [q₂, hblocks₁] using hblock
  let q := q₂.reshape b fun block =>
    { block with head := block.head.or (some n), tail := some n, length := block.length + 1 }
  have hloc : Local q₂ q b [] := local_reshape q₂ b _ fun _ => rfl
  have hrun : append b n p = .ok () q := by
    have hlink : node.link.block = none := by simp_all [link?]
    rw [append, bind_ok (node_ok hnode)]
    simp only [hlink]
    rw [bind_ok (block_ok hblock), bind_ok h₁, bind_ok (relink_ok hnode₁ _)]
    exact reshape_ok hblock₂ _
  refine ⟨q, hrun, by simpa using (hloc₁.trans (local_relink q₁ b n _)).trans hloc, ?_, ?_,
    owner, ?_⟩
  · refine List.nodup_append.2 ⟨hl.nodup, by simp, ?_⟩
    rintro m hm _ hmn rfl
    simp_all
  · refine segment_append.2 ⟨(segment_congr fun m hm => ?_).2 hseg₁, ?_⟩
    · rw [link?_reshape, link?_relink, if_neg]
      exact fun h => hnl (h ▸ hm)
    · simp [segment_cons, link?_relink, q, q₂, hn₁]
  · simp [q, blocks_reshape, hblock₂]

theorem detach_lists {l₁ l₂ : List NodeId} (hl : p.Lists b (l₁ ++ n :: l₂)) :
    ∃ q, detach n p = .ok (some b) q ∧ Local p q b (l₁ ++ n :: l₂) ∧ q.Lists b (l₁ ++ l₂) ∧
      q.link? n = some {} := by
  obtain ⟨owner, hblock⟩ := hl.block
  obtain ⟨hseg₁, hseg⟩ := segment_append.1 hl.segment
  obtain ⟨hn, hseg₂⟩ := segment_cons.1 hseg
  obtain ⟨hnd₁, hnd, hdisj⟩ := List.nodup_append.1 hl.nodup
  obtain ⟨hn₂, hnd₂⟩ := List.nodup_cons.1 hnd
  have hn₁ : n ∉ l₁ := fun h => hdisj n h n (by simp) rfl
  obtain ⟨node, hnode⟩ := exists_node hn
  obtain ⟨q₁, h₁, hloc₁, hl₁, hb₁⟩ := joinNext_ok l₂.head? hseg₁ hnd₁
    (by simpa using hblock)
  obtain ⟨q₂, h₂, hloc₂, hl₂, hb₂⟩ := joinPrev_ok (p := q₁) l₁.getLast?
    ((segment_congr fun m hm => hloc₁.link m fun h => hdisj m h m (by simp [hm]) rfl).2 hseg₂) hnd₂
    (by simpa [List.getLast?_append, List.getLast?_cons] using hb₁)
  have hne : ∀ m, m ∈ l₁ ++ l₂ → n ≠ m := by
    rintro m hm rfl
    simp_all
  have hn' : q₂.link? n = some ⟨some b, l₁.getLast?, l₂.head?⟩ := by
    rw [hloc₂.link n hn₂, hloc₁.link n hn₁, hn]
    simp
  obtain ⟨node', hnode'⟩ := exists_node hn'
  let q₃ := q₂.reshape b fun block => { block with length := block.length - 1 }
  have hrun : detach n p = .ok (some b) (q₃.relink n fun _ => {}) := by
    have hlink : node.link = ⟨some b, l₁.getLast?, l₂.head?⟩ := by simp_all [link?]
    rw [detach, bind_ok (node_ok hnode)]
    simp only [hlink]
    rw [bind_ok h₁, bind_ok h₂, bind_ok (reshape_ok hb₂ _), bind_ok (relink_ok (p := q₃) hnode' _)]
    rfl
  have hloc₃ : Local q₂ q₃ b [] := local_reshape q₂ b _ fun _ => rfl
  have hloc := ((hloc₁.trans hloc₂).trans hloc₃).trans (local_relink q₃ b n fun _ => {})
  refine ⟨_, hrun, ⟨hloc.relinked, fun m hm => hloc.link m ?_, hloc.blocks⟩,
    ⟨?_, ?_, owner, ?_⟩, ?_⟩
  · simp_all
  · exact List.nodup_append.2 ⟨hnd₁, hnd₂, fun m hm m' hm' => hdisj m hm m' (by simp [hm'])⟩
  · have hkeep : ∀ m ∈ l₁ ++ l₂, (q₃.relink n fun _ => {}).link? m = q₂.link? m := by
      intro m hm
      rw [link?_relink, if_neg (hne m hm)]
      rfl
    refine (segment_congr hkeep).2 (segment_append.2 ⟨?_, by simpa using hl₂⟩)
    refine (segment_congr fun m hm => hloc₂.link m ?_).2 (by simpa using hl₁)
    exact fun h => hdisj m hm m (by simp [h]) rfl
  · simp [q₃, blocks_reshape, hb₂, List.head?_append, List.getLast?_append]
  · simp [link?_relink, q₃, hn']

end Edit

namespace Program

variable {p q r : Program} {b c : BlockId} {n m : NodeId} {l l' : List NodeId}

/-- `q` is `p` with other lists, namely `f`. -/
structure Rearranged (p q : Program) (f : BlockId → List NodeId) : Prop where
  relinked : p.Relinked q
  linked : q.Linked
  members : ∀ c, q.members c = f c

/-- Rewriting the links of the nodes of one list, and of free nodes, rearranges that list only. -/
theorem Linked.rearranged (hp : p.Linked) (hloc : Edit.Local p q b l) (hl : q.Lists b l')
    (hsub : ∀ m ∈ p.members b, m ∈ l)
    (hold : ∀ m ∈ l, p.block? m = some b ∨ p.block? m = none)
    (hnew : ∀ m ∈ l, m ∉ l' → q.block? m = none) :
    p.Rearranged q fun c => if c = b then l' else p.members c := by
  have hlink : ∀ m, m ∉ l → q.block? m = p.block? m := by
    intro m hm
    simp only [block?, hloc.link m hm]
  have hlists : ∀ c, (q.blocks[c]?).isSome → q.Lists c (if c = b then l' else p.members c) := by
    intro c hc
    split
    · next h => exact h ▸ hl
    · next h =>
      rw [hloc.relinked.isSome_block] at hc
      have hpc := hp.lists c hc
      refine ⟨hpc.nodup, (segment_congr fun m hm => ?_).2 hpc.segment, ?_⟩
      · apply hloc.link
        intro hml
        have hmc := hpc.block?_eq hm
        obtain hmb | hmb := hold m hml <;> simp_all
      · rw [hloc.blocks c h]
        exact hpc.block
  have hheld : ∀ m c, q.block? m = some c →
      (q.blocks[c]?).isSome ∧ m ∈ if c = b then l' else p.members c := by
    intro m c hm
    by_cases hml : m ∈ l
    · by_cases hm' : m ∈ l'
      · obtain rfl : b = c := by simpa [hl.block?_eq hm'] using hm
        simpa [hm'] using hl.isSome
      · simp [hnew m hml hm'] at hm
    · rw [hlink m hml] at hm
      obtain ⟨hc, hmem⟩ := hp.held m c hm
      have hne : c ≠ b := fun h => hml (hsub m (h ▸ hmem))
      rw [hloc.relinked.isSome_block, if_neg hne]
      exact ⟨hc, hmem⟩
  have hq := Linked.of_lists _ hlists hheld
  refine ⟨hloc.relinked, hq, fun c => ?_⟩
  cases hc : q.blocks[c]? with
  | some e => exact (hlists c (by simp [hc])).members_eq
  | none =>
    have hcb : c ≠ b := by
      intro h
      have := hl.isSome
      simp [← h, hc] at this
    have hpc : p.blocks[c]? = none := by rw [← hloc.blocks c hcb, hc]
    rw [members_of_none hc, if_neg hcb, members_of_none hpc]

/-- A free node can always be put at the end of a list. -/
theorem Linked.append_ok (hp : p.Linked) (hn : p.block? n = none) (hs : n.index < p.nodes.size)
    (hb : (p.blocks[b]?).isSome) :
    ∃ q, Edit.append b n p = .ok () q ∧
      p.Rearranged q fun c => if c = b then p.members b ++ [n] else p.members c := by
  have hl := hp.lists b hb
  obtain ⟨link, hlink⟩ : ∃ link, p.link? n = some link := by
    cases h : p.nodes[n]? with
    | some node => exact ⟨node.link, by simp [link?, h]⟩
    | none => exact absurd (Table.getElem?_eq_none_iff.1 h) (by omega)
  have hfree : link.block = none := by simpa [block?, hlink] using hn
  obtain ⟨q, hrun, hloc, hq⟩ := Edit.append_lists hl hlink hfree
  refine ⟨q, hrun, hp.rearranged hloc hq (by simp_all) ?_ fun m hm hm' => absurd hm hm'⟩
  intro m hm
  obtain hm | hm := List.mem_append.1 hm
  · exact .inl (hl.block?_eq hm)
  · obtain rfl := List.mem_singleton.1 hm
    exact .inr hn

theorem Linked.detach_ok (hp : p.Linked) (hn : p.block? n = some b) :
    ∃ q, Edit.detach n p = .ok (some b) q ∧ q.block? n = none ∧
      p.Rearranged q fun c => (p.members c).erase n := by
  obtain ⟨hb, hmem⟩ := hp.held n b hn
  have hl := hp.lists b hb
  obtain ⟨l₁, l₂, heq⟩ := List.append_of_mem hmem
  have hn₁ : n ∉ l₁ := fun h => by
    have := hl.nodup
    rw [heq] at this
    exact (List.nodup_append.1 this).2.2 n h n (by simp) rfl
  rw [heq] at hl
  obtain ⟨q, hrun, hloc, hq, hfree⟩ := Edit.detach_lists hl
  have hre := hp.rearranged hloc hq (by simp [heq]) (fun m hm => .inl (hl.block?_eq hm)) (by
    intro m hm hm'
    obtain rfl : m = n := by simp_all
    simp [block?, hfree])
  refine ⟨q, hrun, by simp [block?, hfree], hre.relinked, hre.linked, fun c => ?_⟩
  rw [hre.members]
  split
  · next h => rw [h, heq, List.erase_append_right _ hn₁, List.erase_cons_head]
  · next h =>
    refine (List.erase_of_not_mem fun hc => h ?_).symm
    simpa [hn] using (hp.mem_members.1 hc).symm

end Program
end Hoist
