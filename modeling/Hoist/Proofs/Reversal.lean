import Hoist.Proofs.Performing

/-! Edits that take each other back, and edits whose order does not matter. -/
namespace Hoist.Program

variable {p q r : Program} {b : BlockId} {m n : NodeId} {l l' : List NodeId}
  {prev next : Option NodeId}

theorem Relinked.symm (h : p.Relinked q) : q.Relinked p where
  content n := (h.content n).symm
  owner b := (h.owner b).symm
  symbols := h.symbols.symm
  roots := h.roots.symm

/-- The place of a node in a list decides its link. -/
theorem Segment.link?_eq (hp : p.Segment b prev l next) (hq : q.Segment b prev l next)
    (hn : n ∈ l) : q.link? n = p.link? n := by
  induction l generalizing prev with
  | nil => simp at hn
  | cons m l ih =>
    obtain ⟨hpm, hpl⟩ := segment_cons.1 hp
    obtain ⟨hqm, hql⟩ := segment_cons.1 hq
    rcases List.mem_cons.1 hn with rfl | hn
    · rw [hpm, hqm]
    · exact ih hpl hql hn

theorem Relinked.nodes_eq (h : p.Relinked q) (hlink : q.link? n = p.link? n) :
    q.nodes[n]? = p.nodes[n]? := by
  have hcontent := h.content n
  simp only [content?, link?] at hcontent hlink
  cases hp : p.nodes[n]? with
  | none => simpa [hp] using hcontent
  | some node =>
    cases hq : q.nodes[n]? with
    | none => simp [hp, hq] at hcontent
    | some node' =>
      obtain ⟨kind, span, link⟩ := node
      obtain ⟨kind', span', link'⟩ := node'
      simp_all [Node.content]

theorem Relinked.blocks_eq (h : p.Relinked q) (hp : p.Lists b l) (hq : q.Lists b l) :
    q.blocks[b]? = p.blocks[b]? := by
  obtain ⟨owner, hpb⟩ := hp.block
  obtain ⟨owner', hqb⟩ := hq.block
  have howner := h.owner b
  simp_all [owner?]

/-- A node that is in the same lists names the same block. -/
theorem Linked.block?_congr (hp : p.Linked) (hq : q.Linked)
    (h : ∀ b, n ∈ q.members b ↔ n ∈ p.members b) : q.block? n = p.block? n := by
  apply Option.ext
  intro b
  rw [← hq.mem_members, ← hp.mem_members]
  exact h b

/-- Lists and loose links decide the program. -/
theorem Rearranged.eq (h : p.Rearranged q p.members) (hp : p.Linked)
    (hloose : ∀ n, p.block? n = none → q.block? n = none → q.link? n = p.link? n) : q = p := by
  have hlists : ∀ b, (p.blocks[b]?).isSome → q.Lists b (p.members b) := by
    intro b hb
    rw [← h.members b]
    apply h.linked.lists
    rw [h.relinked.isSome_block]
    exact hb
  apply Program.ext
  · apply Table.ext_getElem?
    intro n
    apply h.relinked.nodes_eq
    cases hn : p.block? n with
    | none =>
      have hq := hp.block?_congr (n := n) h.linked fun b => by rw [h.members]
      exact hloose n hn (hq.trans hn)
    | some b =>
      obtain ⟨hb, hmem⟩ := hp.held n b hn
      exact (hp.lists b hb).segment.link?_eq (hlists b hb).segment hmem
  · apply Table.ext_getElem?
    intro b
    cases hb : p.blocks[b]? with
    | none =>
      have hsome := h.relinked.isSome_block b
      simpa [hb] using hsome
    | some e =>
      rw [← hb]
      exact h.relinked.blocks_eq (hp.lists b (by simp [hb])) (hlists b (by simp [hb]))
  · exact h.relinked.symbols
  · exact h.relinked.roots

/-- `q` is `p` after the nodes of `l` have left their lists. Those that were in a list have an empty
link now, and the nodes that were in none have kept theirs. -/
structure Without (p : Program) (l : List NodeId) (q : Program) : Prop where
  rearranged : p.Rearranged q fun c => (p.members c).filter (· ∉ l)
  loose : ∀ n, q.block? n = none → q.link? n = if p.block? n = none then p.link? n else some {}

theorem Without.linked (h : p.Without l q) : q.Linked := h.rearranged.linked

theorem Without.mem_members (h : p.Without l q) :
    n ∈ q.members b ↔ n ∈ p.members b ∧ n ∉ l := by
  rw [h.rearranged.members]
  simp

theorem Without.block?_eq (h : p.Without l q) (hp : p.Linked) (hn : n ∉ l) :
    q.block? n = p.block? n := by
  apply hp.block?_congr h.linked
  intro b
  simp [h.mem_members, hn]

/-- Taking nodes out of lists puts none into a list. -/
theorem Without.block?_eq_none (h : p.Without l q) (hp : p.Linked) (hn : p.block? n = none) :
    q.block? n = none := by
  rw [← hn]
  apply hp.block?_congr h.linked
  intro b
  simp [h.mem_members, hp.mem_members, hn]

theorem Without.trans (h : p.Without l q) (h' : q.Without l' r) (hp : p.Linked) :
    p.Without (l ++ l') r where
  rearranged := by
    refine ⟨(h.rearranged.trans h'.rearranged).relinked, h'.linked, fun c => ?_⟩
    rw [h'.rearranged.members, h.rearranged.members, List.filter_filter]
    apply List.filter_congr
    intro k _
    simp [Bool.and_comm]
  loose n hn := by
    rw [h'.loose n hn]
    by_cases hq : q.block? n = none
    · rw [if_pos hq, h.loose n hq]
    · have hpn : p.block? n ≠ none := fun hpn => hq (h.block?_eq_none hp hpn)
      rw [if_neg hq, if_neg hpn]

/-- It does not matter in which order the nodes have left. -/
theorem Without.unique (h : p.Without l q) (h' : p.Without l' r) (hl : ∀ n, n ∈ l ↔ n ∈ l') :
    q = r := by
  have hmembers : ∀ b, q.members b = r.members b := by
    intro b
    rw [h.rearranged.members, h'.rearranged.members]
    apply List.filter_congr
    intro n _
    simp [hl n]
  have hrelinked := h'.rearranged.relinked.symm.trans h.rearranged.relinked
  apply Rearranged.eq ⟨hrelinked, h.linked, hmembers⟩ h'.linked
  intro n hr hq
  rw [h.loose n hq, h'.loose n hr]

/-- A node that exists can leave its list, and the answer says which list that was. -/
theorem Linked.detach_without (hp : p.Linked) (hn : p.hasNode n) :
    ∃ q, Edit.detach n p = .ok (p.block? n) q ∧ p.Without [n] q := by
  have hsize := Table.lt_size_iff_isSome.2 hn
  obtain ⟨held, q, hrun, -, hq⟩ := hp.detach_rearranged hsize
  have hout : p.Rearranged q fun c => (p.members c).filter (· ∉ [n]) :=
    ⟨hq.relinked, hq.linked, fun c => by simpa using hq.members c⟩
  cases hb : p.block? n with
  | none =>
    have hsame := Linked.detach_free hb hsize
    rw [hrun] at hsame
    cases hsame
    exact ⟨p, hrun, hout, fun k hk => by rw [if_pos hk]⟩
  | some b =>
    -- only links of the list that the node leaves are written
    obtain ⟨hsome, hmem⟩ := hp.held n b hb
    obtain ⟨l₁, l₂, heq⟩ := List.append_of_mem hmem
    have hlists := hp.lists b hsome
    rw [heq] at hlists
    obtain ⟨q', hrun', hlocal, -, hempty⟩ := Edit.detach_lists hlists
    rw [hrun] at hrun'
    cases hrun'
    refine ⟨q, hrun, hout, fun k hk => ?_⟩
    by_cases hkn : k = n
    · subst hkn
      rw [hempty, if_neg (by simp [hb])]
    · have hkfree : p.block? k = none := by
        rw [← hk]
        apply hq.linked.block?_congr hp
        intro c
        simp [hq.members, hkn]
      have hkl : k ∉ l₁ ++ n :: l₂ := by
        intro hkl
        rw [hlists.block?_eq hkl] at hkfree
        simp at hkfree
      rw [if_pos hkfree]
      exact hlocal.link k hkl

/-- A loose node that exists can join a list, and the other loose nodes keep their links. -/
theorem Linked.append_loose (hp : p.Linked) (hn : p.block? n = none) (hs : p.hasNode n)
    (hb : (p.blocks[b]?).isSome) :
    ∃ q, Edit.append b n p = .ok () q ∧
      (p.Rearranged q fun c => if c = b then p.members b ++ [n] else p.members c) ∧
      ∀ m, q.block? m = none → q.link? m = p.link? m := by
  obtain ⟨node, hnode⟩ := Option.isSome_iff_exists.1 hs
  have hlink : p.link? n = some node.link := by simp [link?, hnode]
  have hfree : node.link.block = none := by simpa [block?, hlink] using hn
  obtain ⟨q, hrun, hq⟩ := hp.append_ok hn (Table.lt_size_of_getElem? hnode) hb
  obtain ⟨q', hrun', hlocal, hlists⟩ := Edit.append_lists (hp.lists b hb) hlink hfree
  rw [hrun] at hrun'
  cases hrun'
  refine ⟨q, hrun, hq, fun m hm => hlocal.link m ?_⟩
  intro hmem
  rw [hlists.block?_eq hmem] at hm
  simp at hm

/-- A node that has just joined a list can leave it again as if nothing had been. -/
theorem Linked.detach_append (hp : p.Linked) (hn : p.link? n = some {})
    (hb : (p.blocks[b]?).isSome) :
    ∃ q, Edit.append b n p = .ok () q ∧ Edit.detach n q = .ok (some b) p := by
  obtain ⟨node, hnode⟩ := Edit.exists_node hn
  have hpn : p.hasNode n := by simp [hasNode, hnode]
  have hfree : p.block? n = none := by simp [block?, hn]
  obtain ⟨q, happend, hq, hkept⟩ := hp.append_loose hfree hpn hb
  have hblock : q.block? n = some b := by
    apply hq.linked.mem_members.1
    rw [hq.members]
    simp
  obtain ⟨r, hdetach, hr⟩ := hq.linked.detach_without (by rwa [hq.relinked.hasNode])
  have hmembers : ∀ c, r.members c = p.members c := by
    intro c
    have hnc : ∀ k ∈ p.members c, k ≠ n := by
      rintro k hk rfl
      simp [hp.mem_members.1 hk] at hfree
    rw [hr.rearranged.members, hq.members]
    by_cases hc : c = b
    · subst hc
      simpa [List.filter_append] using hnc
    · simpa [hc] using hnc
  have hsame : r = p := by
    apply Rearranged.eq ⟨(hq.trans hr.rearranged).relinked, hr.linked, hmembers⟩ hp
    intro m _ hrm
    rw [hr.loose m hrm]
    by_cases hmn : m = n
    · subst hmn
      rw [if_neg (by simp [hblock]), hn]
    · have hqm : q.block? m = none := by
        rw [← hrm]
        exact (hr.block?_eq hq.linked (by simpa using hmn)).symm
      rw [if_pos hqm, hkept m hqm]
  rw [hblock, hsame] at hdetach
  exact ⟨q, happend, hdetach⟩

/-- The last node of a list can leave it and join it again as if nothing had been. -/
theorem Linked.append_detach (hp : p.Linked) (hn : (p.members b).getLast? = some n) :
    ∃ q, Edit.detach n p = .ok (some b) q ∧ Edit.append b n q = .ok () p := by
  obtain ⟨l, hl⟩ := List.getLast?_eq_some_iff.1 hn
  have hblock : p.block? n = some b := hp.mem_members.1 (by simp [hl])
  have hb := (hp.held n b hblock).1
  have hpn : p.hasNode n := Table.lt_size_iff_isSome.1 (lt_size_of_block? hblock)
  obtain ⟨q, hdetach, hq⟩ := hp.detach_without hpn
  have hfree : q.block? n = none := by
    cases hc : q.block? n with
    | none => rfl
    | some c => simpa using (hq.mem_members.1 (hq.linked.mem_members.2 hc)).2
  obtain ⟨r, happend, hr, hkept⟩ := hq.linked.append_loose hfree
    (by rwa [hq.rearranged.relinked.hasNode]) (by rwa [hq.rearranged.relinked.isSome_block])
  have hmembers : ∀ c, r.members c = p.members c := by
    intro c
    rw [hr.members]
    split
    · next hc =>
      have hnd := hp.nodup_members b
      rw [hl] at hnd
      have hnl : ∀ k ∈ l, k ≠ n := fun k hk => (List.nodup_append.1 hnd).2.2 k hk n (by simp)
      rw [hc, hq.rearranged.members, hl]
      simpa [List.filter_append] using hnl
    · next hc =>
      rw [hq.rearranged.members]
      simp only [List.filter_eq_self]
      intro k hk
      have hkn : k ≠ n := by
        rintro rfl
        exact hc (by simpa [hblock] using (hp.mem_members.1 hk).symm)
      simpa using hkn
  have hsame : r = p := by
    apply Rearranged.eq ⟨(hq.rearranged.trans hr).relinked, hr.linked, hmembers⟩ hp
    intro m hm hrm
    rw [hkept m hrm, hq.loose m (hq.block?_eq_none hp hm), if_pos hm]
  rw [hblock] at hdetach
  rw [hsame] at happend
  exact ⟨q, hdetach, happend⟩

/-- Two nodes can leave their lists in either order. -/
theorem Linked.detach_comm (hp : p.Linked) (hmn : m ≠ n) (hm : p.hasNode m) (hn : p.hasNode n) :
    ∃ q r s, (Edit.detach m p = .ok (p.block? m) q ∧ Edit.detach n q = .ok (p.block? n) s) ∧
      Edit.detach n p = .ok (p.block? n) r ∧ Edit.detach m r = .ok (p.block? m) s := by
  obtain ⟨q, hmp, hq⟩ := hp.detach_without hm
  obtain ⟨r, hnp, hr⟩ := hp.detach_without hn
  obtain ⟨s, hnq, hs⟩ := hq.linked.detach_without (n := n)
    (by rwa [hq.rearranged.relinked.hasNode])
  obtain ⟨t, hmr, ht⟩ := hr.linked.detach_without (n := m)
    (by rwa [hr.rearranged.relinked.hasNode])
  have hst : s = t := (hq.trans hs hp).unique (hr.trans ht hp) fun k => by simp [or_comm]
  rw [hq.block?_eq hp (by simpa using hmn.symm)] at hnq
  rw [hr.block?_eq hp (by simpa using hmn), ← hst] at hmr
  exact ⟨q, r, s, ⟨hmp, hnq⟩, hnp, hmr⟩

/-- In a program whose blocks are lists, putting a node into a block and taking it out again takes
nothing along, nor does the reverse at the end of a list. Of two nodes either can leave first. -/
theorem links_reversible (p : Program) (hp : p.checkBlocks = []) :
    (∀ b n, (p.blocks[b]?).isSome → p.link? n = some {} →
      ∃ q, Edit.append b n p = .ok () q ∧ Edit.detach n q = .ok (some b) p) ∧
    (∀ b n, (p.members b).getLast? = some n →
      ∃ q, Edit.detach n p = .ok (some b) q ∧ Edit.append b n q = .ok () p) ∧
    ∀ m n, m ≠ n → p.hasNode m → p.hasNode n →
      ∃ q r s, (Edit.detach m p = .ok (p.block? m) q ∧ Edit.detach n q = .ok (p.block? n) s) ∧
        Edit.detach n p = .ok (p.block? n) r ∧ Edit.detach m r = .ok (p.block? m) s := by
  have hlinked := checkBlocks_eq_nil_iff.1 hp
  refine ⟨fun b n hb hn => ?_, fun b n hn => ?_, fun m n hmn hm hn => ?_⟩
  · exact hlinked.detach_append hn hb
  · exact hlinked.append_detach hn
  · exact hlinked.detach_comm hmn hm hn

/-- A block of three nodes, a block of one, and a node in no block. -/
def rowOfThree : Program where
  nodes := ⟨#[
    { kind := .literal (.int 0), link := ⟨some ⟨0⟩, none, some ⟨1⟩⟩ },
    { kind := .literal (.int 1), link := ⟨some ⟨0⟩, some ⟨0⟩, some ⟨2⟩⟩ },
    { kind := .literal (.int 2), link := ⟨some ⟨0⟩, some ⟨1⟩, none⟩ },
    { kind := .literal (.int 3), link := ⟨some ⟨1⟩, none, none⟩ },
    { kind := .literal (.int 4) }]⟩
  blocks := ⟨#[
    { head := some ⟨0⟩, tail := some ⟨2⟩, length := 3 },
    { head := some ⟨3⟩, tail := some ⟨3⟩, length := 1 }]⟩
  symbols := .empty
  roots := []

/-- The loose node joins the row, the last of the row leaves it, and two neighbours leave it. -/
theorem links_reversible_rowOfThree :
    rowOfThree.checkBlocks = [] ∧
    (∃ q, Edit.append ⟨0⟩ ⟨4⟩ rowOfThree = .ok () q ∧
      Edit.detach ⟨4⟩ q = .ok (some ⟨0⟩) rowOfThree) ∧
    (∃ q, Edit.detach ⟨2⟩ rowOfThree = .ok (some ⟨0⟩) q ∧
      Edit.append ⟨0⟩ ⟨2⟩ q = .ok () rowOfThree) ∧
    ∃ q r s, (Edit.detach ⟨0⟩ rowOfThree = .ok (some ⟨0⟩) q ∧
        Edit.detach ⟨1⟩ q = .ok (some ⟨0⟩) s) ∧
      Edit.detach ⟨1⟩ rowOfThree = .ok (some ⟨0⟩) r ∧ Edit.detach ⟨0⟩ r = .ok (some ⟨0⟩) s := by
  have hcheck : rowOfThree.checkBlocks = [] := by decide
  obtain ⟨hjoin, hleave, hcomm⟩ := links_reversible rowOfThree hcheck
  exact ⟨hcheck, hjoin ⟨0⟩ ⟨4⟩ (by decide) (by decide), hleave ⟨0⟩ ⟨2⟩ (by decide),
    hcomm ⟨0⟩ ⟨1⟩ (by decide) (by decide) (by decide)⟩

end Hoist.Program
