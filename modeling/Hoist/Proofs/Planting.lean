import Mathlib.Data.List.Range
import Hoist.Proofs.Growth
import Hoist.Proofs.Stored

/-! Storing trees in a program: it grows by exactly their nodes, and no step can fail. -/
namespace Hoist

/-- Counting in two goes. -/
theorem range'_append_range' {a b c : Nat} (hab : a ≤ b) (hbc : b ≤ c) :
    List.range' a (b - a) ++ List.range' b (c - b) = List.range' a (c - a) := by
  obtain ⟨m, rfl⟩ := Nat.exists_eq_add_of_le hab
  obtain ⟨n, rfl⟩ := Nat.exists_eq_add_of_le hbc
  have hsub : a + m + n - a = m + n := by omega
  rw [Nat.add_sub_cancel_left, Nat.add_sub_cancel_left, hsub, List.range'_append_1]

namespace Program

variable {p q r : Program} {n : NodeId} {b : BlockId} {k : NodeKind} {t : Tree} {ts us : List Tree}
  {ns ms ids js : List NodeId} {f g : BlockId → List NodeId} {s : SymbolId}

/-- Whether a node has a body. -/
def hasBody (p : Program) (n : NodeId) : Bool := (p.kind? n).any (·.body?.isSome)

/-- `q` is `p` with the trees `ts` stored in it at the nodes `ns`. The nodes of the trees are `ids`
in pre-order, where those that have bodies stand in the order in which they were added. -/
structure Planted (p q : Program) (ts : List Tree) (ns ids : List NodeId)
    (f : BlockId → List NodeId) : Prop extends p.Grows q f where
  formed : q.Formed
  stores : q.Stores ts ns ids
  fresh : (ids.map EntityId.index).Perm (List.range' p.nodes.size (q.nodes.size - p.nodes.size))
  ordered : (ids.filter q.hasBody).Pairwise (·.index < ·.index)
  kept : ∀ s : SymbolId, s ∉ Tree.symbolsAll ts → q.symbols[s]? = p.symbols[s]?
  defined : ∀ n ∈ ids, ∀ s, q.declared? n = some s → q.definition? s = some n

theorem Planted.mem_ids (h : Planted p q ts ns ids f) :
    n ∈ ids ↔ p.nodes.size ≤ n.index ∧ n.index < q.nodes.size := by
  have hle := h.nodes_le
  have hmem : n ∈ ids ↔ n.index ∈ ids.map EntityId.index := by
    refine ⟨List.mem_map_of_mem, fun hn => ?_⟩
    obtain ⟨m, hm, heq⟩ := List.mem_map.1 hn
    exact EntityId.ext heq ▸ hm
  rw [hmem, h.fresh.mem_iff, List.mem_range'_1]
  omega

theorem planted_nil (hp : p.Formed) : Planted p p [] [] [] fun _ => [] where
  toGrows := .refl p
  formed := hp
  stores := .nil
  fresh := by simp
  ordered := by simp
  kept _ _ := rfl
  defined := by simp

/-- The bodies of the new nodes are new blocks. -/
theorem Planted.body_fresh (hp : p.Formed) (h : Planted p q ts ns ids f) (hn : n ∈ ids)
    (hk : q.kind? n = some k) (hb : k.body? = some b) :
    p.blocks.size ≤ b.index ∧ b.index < q.blocks.size := by
  have ho := h.formed.bodies n k b hk hb
  refine ⟨?_, lt_size_of_owner? ho⟩
  by_contra hlt
  rw [h.owner b (by omega)] at ho
  obtain ⟨m, k', hm, hk', _⟩ := hp.blocks b _ ho
  obtain rfl := Option.some.inj hm
  have := lt_size_of_kind? hk'
  have := (h.mem_ids.1 hn).1
  omega

/-- What was stored stays stored while only older lists get longer. -/
theorem Planted.stores_of_grows (hp : p.Formed) (h : Planted p q ts ns ids f) (h' : q.Grows r g)
    (hg : ∀ b, p.blocks.size ≤ b.index → g b = []) : r.Stores ts ns ids := by
  refine h.stores.congr (fun n hn => h'.content n (h.mem_ids.1 hn).2) fun n hn k b hk hb => ?_
  obtain ⟨hge, hlt⟩ := h.body_fresh hp hn hk hb
  rw [h'.members b hlt, hg b hge, List.append_nil]

theorem hasBody_of_grows (h : p.Grows q f) (hn : n.index < p.nodes.size) :
    q.hasBody n = p.hasBody n := by
  rw [hasBody, h.kind? hn, hasBody]

theorem Planted.filter_hasBody (h : Planted p q ts ns ids f) (h' : q.Grows r g) :
    ids.filter r.hasBody = ids.filter q.hasBody :=
  List.filter_congr fun _ hn => hasBody_of_grows h' (h.mem_ids.1 hn).2

theorem declared?_of_grows (h : p.Grows q f) (hn : n.index < p.nodes.size) :
    q.declared? n = p.declared? n := by
  rw [declared?, h.kind? hn, declared?]

/-- First some trees, then some more. -/
theorem Planted.trans (hp : p.Formed) (h : Planted p q ts ns ids f) (h' : Planted q r us ms js g)
    (hg : ∀ b, p.blocks.size ≤ b.index → g b = [])
    (hs : ∀ s ∈ Tree.symbolsAll ts, s ∉ Tree.symbolsAll us) :
    Planted p r (ts ++ us) (ns ++ ms) (ids ++ js) fun b => f b ++ g b where
  toGrows := h.toGrows.trans h'.toGrows
  formed := h'.formed
  stores := (h.stores_of_grows hp h'.toGrows hg).append h'.stores
  fresh := by
    rw [List.map_append, ← range'_append_range' h.nodes_le h'.nodes_le]
    exact h.fresh.append h'.fresh
  ordered := by
    rw [List.filter_append, h.filter_hasBody h'.toGrows]
    refine List.pairwise_append.2 ⟨h.ordered, h'.ordered, fun n hn m hm => ?_⟩
    have := (h.mem_ids.1 (List.mem_filter.1 hn).1).2
    have := (h'.mem_ids.1 (List.mem_filter.1 hm).1).1
    omega
  kept s hs := by
    rw [Tree.symbolsAll_append, List.mem_append, not_or] at hs
    rw [h'.kept s hs.2, h.kept s hs.1]
  defined n hn s hd := by
    rcases List.mem_append.1 hn with hn | hn
    · rw [declared?_of_grows h'.toGrows (h.mem_ids.1 hn).2] at hd
      rw [definition?, h'.kept s (hs s (h.stores.mem_symbolsAll hn hd))]
      exact h.defined n hn s hd
    · exact h'.defined n hn s hd

theorem sprout_setKind (p : Program) {k k' : NodeKind} (span : Option Span)
    (hb : k'.body? = k.body?) (hd : k'.declared? = k.declared?) :
    (p.sprout k span).setKind p.nodes.nextId k' = p.sprout k' span := by
  simp [sprout, setKind, Table.push_modify, hb, hd]

/-- Changing an older node that keeps its body does not matter to what is planted. -/
theorem Planted.setKind {k' : NodeKind} (hp : p.Formed) (h : Planted p q ts ns ids f)
    (hn : p.kind? n = some k) (hb : k'.body? = k.body?) :
    Planted (p.setKind n k') (q.setKind n k') ts ns ids f := by
  have hlt := lt_size_of_kind? hn
  have hqn : q.kind? n = some k := by rw [h.kind? hlt, hn]
  have hmem := (linked_setKind h.formed.linked n k').2
  have hnot : ∀ m ∈ ids, n ≠ m := by
    rintro m hm rfl
    have := (h.mem_ids.1 hm).1
    omega
  have hcontent : ∀ m ∈ ids, (q.setKind n k').content? m = q.content? m := by
    intro m hm
    rw [content?_setKind, if_neg (hnot m hm)]
  have hkind : ∀ m ∈ ids, (q.setKind n k').kind? m = q.kind? m := by
    intro m hm
    rw [kind?_setKind, if_neg (hnot m hm)]
  refine ⟨⟨by simpa using h.nodes_le, h.blocks_le, ?_, ?_, h.owner, ?_, h.roots, h.bare⟩,
    formed_setKind h.formed hqn hb, ?_, by simpa using h.fresh, ?_, h.kept, ?_⟩
  · intro m hm
    rw [content?_setKind, content?_setKind, h.content m (by simpa using hm)]
  · intro m hm
    rw [block?_setKind, block?_setKind, h.block m (by simpa using hm)]
  · intro b hlt
    rw [hmem, (linked_setKind hp.linked n k').2, h.members b hlt]
  · exact h.stores.congr hcontent fun m _ _ b _ _ => hmem b
  · rw [List.filter_congr fun m hm => show (q.setKind n k').hasBody m = q.hasBody m by
      rw [hasBody, hkind m hm, hasBody]]
    exact h.ordered
  · intro m hm s hs
    exact h.defined m hm s (by rwa [declared?, hkind m hm] at hs)

/-- A function gets its operands after its node: the first kind gives way to the final one. -/
theorem Planted.setOperands {s : SymbolId} {span : Option Span} (hp : p.Formed)
    (h : Planted (p.sprout (.function s [] none p.blocks.nextId) span) q ts ns ids f)
    (params : List NodeId) (result : Option NodeId) :
    Planted (p.sprout (.function s params result p.blocks.nextId) span)
      (q.setKind p.nodes.nextId (.function s params result p.blocks.nextId)) ts ns ids f := by
  have hset : (p.sprout (.function s [] none p.blocks.nextId) span).setKind p.nodes.nextId
      (.function s params result p.blocks.nextId) =
        p.sprout (.function s params result p.blocks.nextId) span :=
    sprout_setKind p span rfl rfl
  rw [← hset]
  exact h.setKind (k := .function s [] none p.blocks.nextId)
    (formed_sprout hp (by simp [NodeKind.body?]) span) (by simp [kind?_sprout]) rfl

theorem declared?_eq_of_blank (hk : k.blank = t.blank) : k.declared? = t.declared? := by
  rw [Tree.declared?, ← hk, NodeKind.declared?_blank]

/-- After its operands, a tree without a body needs one more node. -/
theorem Planted.node (h : Planted p q t.operands k.operands ids fun _ => [])
    (hk : k.blank = t.blank) (hb : k.body? = none) (ht : t.contents = []) (hs : t.symbols.Nodup)
    (hsize : ∀ s ∈ t.symbols, s.index < p.symbols.size) :
    Planted p (q.sprout k t.span) [t] [q.nodes.nextId] (q.nodes.nextId :: ids) fun _ => [] := by
  have hgrow := grows_sprout h.formed.linked k t.span
  have hsym : t.symbols = t.declared?.toList ++ Tree.symbolsAll t.operands := by
    rw [Tree.symbols_eq, ht, Tree.symbolsAll_nil, List.append_nil]
  have hdecl := declared?_eq_of_blank hk
  have hnew : ¬ (q.sprout k t.span).hasBody q.nodes.nextId := by
    simp [hasBody, kind?_sprout, hb]
  refine ⟨h.toGrows.trans hgrow, formed_sprout h.formed (by simp [hb]) _, ?_, ?_, ?_, ?_, ?_⟩
  · have hops : (q.sprout k t.span).Stores t.operands k.operands ids :=
      h.stores.congr (fun n hn => hgrow.content n (h.mem_ids.1 hn).2)
        fun _ _ _ b _ _ => (linked_sprout h.formed.linked k t.span).2 b
    have hbody : (q.sprout k t.span).body k = [] := by simp [body, hb]
    have hinner : (q.sprout k t.span).Stores t.contents ((q.sprout k t.span).body k) [] := by
      rw [ht, hbody]
      exact .nil
    simpa using Stores.cons (by simp [content?_sprout]) hk hops hinner .nil
  · have hlast : List.range' q.nodes.size (q.nodes.size + 1 - q.nodes.size) = [q.nodes.size] := by
      simp
    rw [nodes_size_sprout, ← range'_append_range' h.nodes_le (Nat.le_succ _), hlast, List.map_cons]
    exact (List.Perm.cons _ h.fresh).trans (List.perm_append_singleton _ _).symm
  · rw [List.filter_cons_of_neg hnew, h.filter_hasBody hgrow]
    exact h.ordered
  · intro s hnot
    rw [Tree.symbolsAll_cons, Tree.symbolsAll_nil, List.append_nil, hsym, List.mem_append,
      not_or] at hnot
    rw [symbols_sprout_of_ne fun hd => hnot.1 (by simp [← hdecl, hd]), h.kept s hnot.2]
  · intro n hn s hd
    rw [hsym] at hs
    rcases List.mem_cons.1 hn with rfl | hn
    · have hks : k.declared? = some s := by simpa [Program.declared?, kind?_sprout] using hd
      refine definition?_sprout ?_ hks _
      rw [h.symbols_size]
      exact hsize s (by rw [hsym, ← hdecl, hks]; simp)
    · rw [declared?_of_grows hgrow (h.mem_ids.1 hn).2] at hd
      have hmem := h.stores.mem_symbolsAll hn hd
      have hne : k.declared? ≠ some s := by
        intro hks
        rw [hdecl] at hks
        exact (List.nodup_append.1 hs).2.2 s (by simp [hks]) s hmem rfl
      rw [definition?, symbols_sprout_of_ne hne]
      exact h.defined n hn s hd

/-- The body that a new node brings along lists what is put there later. -/
theorem Grows.body_sprout {span : Option Span} (h : (p.sprout k span).Grows q f) (hp : p.Linked)
    (hb : k.body? = some p.blocks.nextId) : q.body k = f p.blocks.nextId := by
  have hlt : p.blocks.nextId.index < (p.sprout k span).blocks.size := by
    simp [sprout, hb, Table.nextId]
  have hempty : (p.sprout k span).members p.blocks.nextId = [] := by
    rw [(linked_sprout hp k span).2, members_of_none (by simp)]
  simp [body, hb, h.members _ hlt, hempty]

/-- A tree with a body has its node first, then the nodes of its operands and of its body. -/
theorem Planted.close (hp : p.Formed) (hk : k.blank = t.blank)
    (hb : k.body? = some p.blocks.nextId)
    (h₁ : Planted (p.sprout k t.span) q t.operands k.operands ids fun _ => [])
    (h₂ : Planted q r t.contents ms js fun c => if c = p.blocks.nextId then ms else [])
    (hs : t.symbols.Nodup) (hsize : ∀ s ∈ t.symbols, s.index < p.symbols.size) :
    Planted p r [t] [p.nodes.nextId] (p.nodes.nextId :: (ids ++ js)) fun _ => [] := by
  have hgrow := grows_sprout hp.linked k t.span
  have hp₁ : (p.sprout k t.span).Formed := by
    refine formed_sprout hp (fun b hkb => ?_) _
    simpa [hb] using hkb.symm
  have hblocks : (p.sprout k t.span).blocks.size = p.blocks.size + 1 := by simp [sprout, hb]
  have hg : ∀ c : BlockId, (p.sprout k t.span).blocks.size ≤ c.index →
      (if c = p.blocks.nextId then ms else []) = [] := by
    intro c hc
    rw [if_neg]
    rintro rfl
    simp only [hblocks, Table.nextId] at hc
    omega
  obtain ⟨hs₀, hs₂, hdisj⟩ := List.nodup_append.1 (Tree.symbols_eq t ▸ hs)
  obtain ⟨-, -, hdisj₀⟩ := List.nodup_append.1 hs₀
  have h := h₁.trans hp₁ h₂ hg fun s hs₁ hs₂ => hdisj s (by simp [hs₁]) s hs₂ rfl
  have hdecl := declared?_eq_of_blank hk
  have hmem : ∀ n ∈ ids ++ js, p.nodes.size + 1 ≤ n.index := by
    intro n hn
    simpa using (h.mem_ids.1 hn).1
  refine ⟨(hgrow.trans h.toGrows).congr fun b hlt => ?_, h.formed, ?_, ?_, ?_, ?_, ?_⟩
  · simp [Table.ne_nextId hlt]
  · have hn : r.content? p.nodes.nextId = some (k, t.span) := by
      rw [h.content _ (by simp [Table.nextId]), content?_sprout, if_pos rfl]
    have hbody : r.body k = ms := by simpa using h.toGrows.body_sprout hp.linked hb
    have hops := h₁.stores_of_grows hp₁ h₂.toGrows hg
    simpa using Stores.cons hn hk hops (by rw [hbody]; exact h₂.stores) .nil
  · have hle : p.nodes.size + 1 ≤ r.nodes.size := by simpa using h.nodes_le
    have hfirst : List.range' p.nodes.size (p.nodes.size + 1 - p.nodes.size) = [p.nodes.size] := by
      simp
    rw [← range'_append_range' (Nat.le_succ _) hle, hfirst]
    exact List.Perm.cons _ (by simpa using h.fresh)
  · rw [List.filter_cons]
    split
    · refine List.pairwise_cons.2 ⟨fun n hn => ?_, h.ordered⟩
      exact hmem n (List.mem_filter.1 hn).1
    · exact h.ordered
  · intro s hnot
    rw [Tree.symbolsAll_cons, Tree.symbolsAll_nil, List.append_nil, Tree.symbols_eq] at hnot
    simp only [List.mem_append, not_or] at hnot
    rw [h.kept s (by simp [hnot])]
    exact symbols_sprout_of_ne (fun hd => hnot.1.1 (by simp [← hdecl, hd])) _
  · intro n hn s hd
    rcases List.mem_cons.1 hn with rfl | hn
    · have hks : k.declared? = some s := by
        rw [declared?_of_grows h.toGrows (by simp [Table.nextId])] at hd
        simpa [Program.declared?, kind?_sprout] using hd
      have hts : s ∈ t.declared?.toList := by simp [← hdecl, hks]
      rw [definition?, h.kept s]
      · exact definition?_sprout (hsize s (by rw [Tree.symbols_eq]; simp [hts])) hks _
      · rw [Tree.symbolsAll_append, List.mem_append, not_or]
        exact ⟨fun h => hdisj₀ s hts s h rfl, fun h => hdisj s (by simp [hts]) s h rfl⟩
    · exact h.defined n hn s hd

theorem Formed.relinked (h : p.Formed) (hre : p.Relinked q) (hl : q.Linked) : q.Formed where
  linked := hl
  bodies n k b hn hb := by
    rw [hre.owner]
    exact h.bodies n k b (by rwa [hre.kind?] at hn) hb
  blocks b o ho := by
    obtain ⟨n, k, hn, hk, hb⟩ := h.blocks b o (by rwa [hre.owner] at ho)
    exact ⟨n, k, hn, by rw [hre.kind?, hk], hb⟩

/-- Putting a newer node at the end of an older list. -/
theorem Grows.listed (h : p.Grows q fun _ => []) (hq : q.Linked) (hn : p.nodes.size ≤ n.index)
    (hb : b.index < p.blocks.size)
    (hr : q.Rearranged r fun c => if c = b then q.members b ++ [n] else q.members c) :
    p.Grows r fun c => if c = b then [n] else [] where
  nodes_le := by
    rw [hr.relinked.nodes_size]
    exact h.nodes_le
  blocks_le := by
    rw [Table.size_eq_of_isSome hr.relinked.isSome_block]
    exact h.blocks_le
  content m hm := by rw [hr.relinked.content, h.content m hm]
  block m hm := by
    have hne : m ≠ n := by
      rintro rfl
      omega
    rw [← h.block m hm]
    apply Option.ext
    intro c
    rw [← hr.linked.mem_members, ← hq.mem_members, hr.members]
    split
    · next hc => simp [hc, hne]
    · rfl
  owner c hc := by rw [hr.relinked.owner, h.owner c hc]
  members c hc := by
    rw [hr.members, h.members c hc, List.append_nil]
    split
    · next hcb => rw [hcb, h.members b hb, List.append_nil]
    · rw [List.append_nil]
  roots := by rw [hr.relinked.roots, h.roots]
  bare s := by rw [hr.relinked.symbols, h.bare]

/-- The node of a stored tree can be put at the end of an older list. -/
theorem Planted.append_ok (hp : p.Formed) (h : Planted p q [t] [n] ids fun _ => [])
    (hfree : q.block? n = none) (hb : b.index < p.blocks.size) :
    ∃ r, Edit.append b n q = .ok () r ∧
      Planted p r [t] [n] ids fun c => if c = b then [n] else [] := by
  have hn : n ∈ ids := h.stores.sublist.subset (by simp)
  have hbq : (q.blocks[b]?).isSome := Table.lt_size_iff_isSome.1 (Nat.lt_of_lt_of_le hb h.blocks_le)
  obtain ⟨r, hrun, hr⟩ := h.formed.linked.append_ok hfree (h.mem_ids.1 hn).2 hbq
  refine ⟨r, hrun, h.toGrows.listed h.formed.linked (h.mem_ids.1 hn).1 hb hr,
    h.formed.relinked hr.relinked hr.linked, ?_, ?_, ?_, ?_, ?_⟩
  · refine h.stores.congr (fun m _ => hr.relinked.content m) fun m hm k c hk hc => ?_
    have := (h.body_fresh hp hm hk hc).1
    rw [hr.members, if_neg]
    rintro rfl
    omega
  · rw [hr.relinked.nodes_size]
    exact h.fresh
  · rw [List.filter_congr fun m _ => show r.hasBody m = q.hasBody m by
      rw [hasBody, hr.relinked.kind?, hasBody]]
    exact h.ordered
  · intro s hs
    rw [hr.relinked.symbols, h.kept s hs]
  · intro m hm s hs
    rw [hr.relinked.definition?]
    exact h.defined m hm s (by rwa [hr.relinked.declared?] at hs)

/-- The trees declare different symbols, all of them known to the program. -/
structure Declarable (p : Program) (ts : List Tree) : Prop where
  nodup : (Tree.symbolsAll ts).Nodup
  known : ∀ s ∈ Tree.symbolsAll ts, s.index < p.symbols.size

theorem Declarable.append (h : p.Declarable (ts ++ us)) :
    p.Declarable ts ∧ p.Declarable us ∧ ∀ s ∈ Tree.symbolsAll ts, s ∉ Tree.symbolsAll us := by
  have hnd := h.nodup
  have hk := h.known
  rw [Tree.symbolsAll_append] at hnd hk
  obtain ⟨h₁, h₂, hd⟩ := List.nodup_append.1 hnd
  exact ⟨⟨h₁, fun s hs => hk s (by simp [hs])⟩, ⟨h₂, fun s hs => hk s (by simp [hs])⟩,
    fun s hs hs' => hd s hs s hs' rfl⟩

theorem Declarable.cons (h : p.Declarable (t :: ts)) :
    p.Declarable [t] ∧ p.Declarable ts ∧ ∀ s ∈ Tree.symbolsAll [t], s ∉ Tree.symbolsAll ts := by
  rw [← List.singleton_append] at h
  exact h.append

theorem Declarable.below (h : p.Declarable [t]) :
    p.Declarable t.operands ∧ p.Declarable t.contents := by
  have hnd := h.nodup
  have hk := h.known
  rw [Tree.symbolsAll_cons, Tree.symbolsAll_nil, List.append_nil, Tree.symbols_eq] at hnd hk
  obtain ⟨h₁, h₂, -⟩ := List.nodup_append.1 hnd
  exact ⟨⟨(List.nodup_append.1 h₁).2.1, fun s hs => hk s (by simp [hs])⟩,
    ⟨h₂, fun s hs => hk s (by simp [hs])⟩⟩

theorem Declarable.grows (h : p.Declarable ts) (hg : p.Grows q f) : q.Declarable ts :=
  ⟨h.nodup, fun s hs => hg.symbols_size ▸ h.known s hs⟩

end Program

namespace Edit

open Program

variable {p : Program} {k : NodeKind} {s : SymbolId} {span : Option Span} {t : Tree}

theorem newNode_eq (node : Node) (p : Program) :
    newNode node p = .ok p.nodes.nextId (p.addNode node) := rfl

theorem newBlock_eq (p : Program) : newBlock p = .ok p.blocks.nextId p.addBlock := rfl

theorem define_eq (s : SymbolId) (k : NodeKind) (span : Option Span) (p : Program) :
    define s k span p = .ok p.nodes.nextId
      ⟨p.nodes.push { kind := k, span }, p.blocks, p.symbols.define s p.nodes.nextId, p.roots⟩ :=
  rfl

theorem newNode_sprout (hd : k.declared? = none) (hb : k.body? = none) :
    newNode { kind := k, span } p = .ok p.nodes.nextId (p.sprout k span) := by
  simp [newNode_eq, sprout, hd, hb, addNode]

theorem define_sprout (hd : k.declared? = some s) (hb : k.body? = none) :
    define s k span p = .ok p.nodes.nextId (p.sprout k span) := by
  simp [define_eq, sprout, hd, hb]

/-- A declaration with a body is one more node that owns one more block. -/
theorem open_sprout {α : Type} {kind : BlockId → NodeKind} (f : BlockId → NodeId → Edit α)
    (hd : ∀ b, (kind b).declared? = some s) (hb : ∀ b, (kind b).body? = some b) :
    (do
      let body ← newBlock
      let n ← define s (kind body) span
      own body n
      f body n : Edit α) p =
    f p.blocks.nextId p.nodes.nextId (p.sprout (kind p.blocks.nextId) span) := by
  rw [bind_ok (newBlock_eq p), bind_ok (define_eq s _ span _), own,
    bind_ok (reshape_ok (e := {}) ?_ _)]
  · simp [sprout, hd, hb, addBlock, Program.reshape, Table.push_modify]
  · simp [addBlock, Table.getElem?_push]

/-- The last step for a tree without a body. -/
theorem exists_planted {q : Program} {ids : List NodeId} {x : Edit NodeId} (ht : p.Declarable [t])
    (h : Planted p q t.operands k.operands ids fun _ => []) (hk : k.blank = t.blank)
    (hb : k.body? = none) (hc : t.contents = [])
    (hx : x q = .ok q.nodes.nextId (q.sprout k t.span)) :
    ∃ n r js, x q = .ok n r ∧ Planted p r [t] [n] js (fun _ => []) ∧ r.block? n = none := by
  have hs : t.symbols.Nodup := by simpa using ht.nodup
  refine ⟨_, _, _, hx, h.node hk hb hc hs fun s hs => ht.known s (by simpa using hs), ?_⟩
  rw [block?_sprout, block?_nextId]

/-- Whatever program the block is in, the trees can be stored in its list. -/
def Plantable (b : BlockId) (ts : List Tree) : Prop :=
  ∀ p : Program, p.Formed → p.Declarable ts → b.index < p.blocks.size →
    ∃ q ns ids, plantBody b ts p = .ok () q ∧
      Planted p q ts ns ids fun c => if c = b then ns else []

/-- A tree with a body, once its operands are stored: what stands in the body comes last. -/
theorem exists_closed {q : Program} {ids : List NodeId} {x : Edit NodeId} (hp : p.Formed)
    (ht : p.Declarable [t]) (hk : k.blank = t.blank) (hb : k.body? = some p.blocks.nextId)
    (h : Planted (p.sprout k t.span) q t.operands k.operands ids fun _ => [])
    (hbody : Plantable p.blocks.nextId t.contents)
    (hx : ∀ r, plantBody p.blocks.nextId t.contents q = .ok () r → x p = .ok p.nodes.nextId r) :
    ∃ n r js, x p = .ok n r ∧ Planted p r [t] [n] js (fun _ => []) ∧ r.block? n = none := by
  have hs : t.symbols.Nodup := by simpa using ht.nodup
  have hsize : p.blocks.nextId.index < (p.sprout k t.span).blocks.size := by
    simp [sprout, hb, Table.nextId]
  obtain ⟨r, ms, js, hrun, hr⟩ := hbody q h.formed
    ((ht.below.2.grows (grows_sprout hp.linked k t.span)).grows h.toGrows)
    (Nat.lt_of_lt_of_le hsize h.blocks_le)
  refine ⟨_, _, _, hx r hrun, h.close hp hk hb hr hs fun s hs => ht.known s (by simpa using hs), ?_⟩
  rw [hr.block _ (Nat.lt_of_lt_of_le (by simp [Table.nextId]) h.nodes_le),
    h.block _ (by simp [Table.nextId]), block?_sprout, block?_nextId]

/-- A tree with a body and without operands. -/
theorem exists_closed_bare (kind : BlockId → NodeKind) (hp : p.Formed) (ht : p.Declarable [t])
    (hk : ∀ b, (kind b).blank = t.blank) (hd : ∀ b, (kind b).declared? = some s)
    (hb : ∀ b, (kind b).body? = some b) (ho : t.operands = [] ∧ ∀ b, (kind b).operands = [])
    (hbody : Plantable p.blocks.nextId t.contents) :
    ∃ n r js, (do
        let body ← newBlock
        let n ← define s (kind body) t.span
        own body n
        plantBody body t.contents
        return n : Edit NodeId) p = .ok n r ∧
      Planted p r [t] [n] js (fun _ => []) ∧ r.block? n = none := by
  have hp₁ := formed_sprout (k := kind p.blocks.nextId) hp (by simp [hb]) t.span
  have hnil : Planted (p.sprout (kind p.blocks.nextId) t.span)
      (p.sprout (kind p.blocks.nextId) t.span) t.operands (kind p.blocks.nextId).operands []
      fun _ => [] := by
    rw [ho.1, ho.2]
    exact planted_nil hp₁
  refine exists_closed hp ht (hk _) (hb _) hnil hbody fun r hrun => ?_
  rw [open_sprout _ hd hb, bind_ok hrun]
  rfl

mutual

/-- Storing a tree succeeds, and its node is free to be put into a list. -/
theorem plant_ok (t : Tree) (p : Program) (hp : p.Formed) (ht : p.Declarable [t]) :
    ∃ n q ids, plant t p = .ok n q ∧ Planted p q [t] [n] ids (fun _ => []) ∧ q.block? n = none := by
  have hops := ht.below.1
  cases t with
  | module s span contents =>
    rw [plant]
    exact exists_closed_bare (.module s) hp ht (fun _ => rfl) (fun _ => rfl) (fun _ => rfl)
      ⟨rfl, fun _ => rfl⟩ (plantBody_ok contents p.blocks.nextId)
  | typeDef s span aggregate contents =>
    rw [plant]
    exact exists_closed_bare (.typeDef s aggregate) hp ht (fun _ => rfl) (fun _ => rfl)
      (fun _ => rfl) ⟨rfl, fun _ => rfl⟩ (plantBody_ok contents p.blocks.nextId)
  | function s span params result contents =>
    have hp₁ := formed_sprout (k := .function s [] none p.blocks.nextId) hp
      (by simp [NodeKind.body?]) span
    have hg₁ := grows_sprout hp.linked (.function s [] none p.blocks.nextId) span
    obtain ⟨hparams, hresult, hd⟩ := Declarable.append hops
    obtain ⟨ns, q₁, ids, hrun₁, hq₁, -⟩ := plantAll_ok params _ hp₁ (hparams.grows hg₁)
    obtain ⟨m, q₂, js, hrun₂, hq₂⟩ := plantOption_ok result q₁ hq₁.formed
      ((hresult.grows hg₁).grows hq₁.toGrows)
    have hq := (hq₁.trans hp₁ hq₂ (fun _ _ => rfl) hd).setOperands hp ns m
    refine exists_closed hp ht ?_ rfl hq (plantBody_ok contents p.blocks.nextId) fun r hrun₃ => ?_
    · simp [NodeKind.blank, Tree.blank, hq₁.stores.map_const, hq₂.stores.optionMap_const]
    · rw [plant, open_sprout _ (fun _ => rfl) (fun _ => rfl), bind_ok hrun₁, bind_ok hrun₂]
      exact bind_ok hrun₃
  | field s span type =>
    obtain ⟨n, q, ids, hrun, hq, -⟩ := plant_ok type p hp hops
    rw [plant, bind_ok hrun]
    exact exists_planted (k := .field s n) ht hq rfl rfl rfl (define_sprout rfl rfl)
  | param s span type =>
    obtain ⟨m, q, ids, hrun, hq⟩ := plantOption_ok type p hp hops
    rw [plant, bind_ok hrun]
    refine exists_planted (k := .param s m) ht hq ?_ rfl rfl (define_sprout rfl rfl)
    simp [NodeKind.blank, Tree.blank, hq.stores.optionMap_const]
  | binding s span type value =>
    obtain ⟨htype, hvalue, hd⟩ := Declarable.append hops
    obtain ⟨m, q, ids, hrun, hq⟩ := plantOption_ok type p hp htype
    obtain ⟨m', q', js, hrun', hq'⟩ := plantOption_ok value q hq.formed (hvalue.grows hq.toGrows)
    rw [plant, bind_ok hrun, bind_ok hrun']
    refine exists_planted (k := .binding s m m') ht (hq.trans hp hq' (fun _ _ => rfl) hd) ?_ rfl rfl
      (define_sprout rfl rfl)
    simp [NodeKind.blank, Tree.blank, hq.stores.optionMap_const, hq'.stores.optionMap_const]
  | builtinType type =>
    rw [plant]
    exact exists_planted (k := .builtinType type) ht (planted_nil hp) rfl rfl rfl
      (newNode_sprout rfl rfl)
  | typeRef name span s =>
    rw [plant]
    exact exists_planted (k := .typeRef name s) ht (planted_nil hp) rfl rfl rfl
      (newNode_sprout rfl rfl)
  | ident name span s =>
    rw [plant]
    exact exists_planted (k := .ident name s) ht (planted_nil hp) rfl rfl rfl
      (newNode_sprout rfl rfl)
  | literal value =>
    rw [plant]
    exact exists_planted (k := .literal value) ht (planted_nil hp) rfl rfl rfl
      (newNode_sprout rfl rfl)
  | call callee args =>
    obtain ⟨hcallee, hargs, hd⟩ := hops.cons
    obtain ⟨n, q, ids, hrun, hq, -⟩ := plant_ok callee p hp hcallee
    obtain ⟨ns, r, js, hrun', hr, -⟩ := plantAll_ok args q hq.formed (hargs.grows hq.toGrows)
    rw [plant, bind_ok hrun, bind_ok hrun']
    refine exists_planted (k := .call n ns) ht (hq.trans hp hr (fun _ _ => rfl) hd) ?_ rfl rfl
      (newNode_sprout rfl rfl)
    simp [NodeKind.blank, Tree.blank, hr.stores.map_const]
  | new type args =>
    obtain ⟨htype, hargs, hd⟩ := hops.cons
    obtain ⟨n, q, ids, hrun, hq, -⟩ := plant_ok type p hp htype
    obtain ⟨ns, r, js, hrun', hr, -⟩ := plantAll_ok args q hq.formed (hargs.grows hq.toGrows)
    rw [plant, bind_ok hrun, bind_ok hrun']
    refine exists_planted (k := .new n ns) ht (hq.trans hp hr (fun _ _ => rfl) hd) ?_ rfl rfl
      (newNode_sprout rfl rfl)
    simp [NodeKind.blank, Tree.blank, hr.stores.map_const]
  | ret value =>
    obtain ⟨m, q, ids, hrun, hq⟩ := plantOption_ok value p hp hops
    rw [plant, bind_ok hrun]
    refine exists_planted (k := .ret m) ht hq ?_ rfl rfl (newNode_sprout rfl rfl)
    simp [NodeKind.blank, Tree.blank, hq.stores.optionMap_const]

theorem plantOption_ok (o : Option Tree) (p : Program) (hp : p.Formed)
    (ho : p.Declarable o.toList) :
    ∃ m q ids, plantOption o p = .ok m q ∧ Planted p q o.toList m.toList ids (fun _ => []) := by
  cases o with
  | none => exact ⟨none, p, [], rfl, planted_nil hp⟩
  | some t =>
    obtain ⟨n, q, ids, hrun, hq, -⟩ := plant_ok t p hp ho
    refine ⟨some n, q, ids, ?_, hq⟩
    rw [plantOption, bind_ok hrun]
    rfl

theorem plantAll_ok (ts : List Tree) (p : Program) (hp : p.Formed) (ht : p.Declarable ts) :
    ∃ ns q ids, plantAll ts p = .ok ns q ∧ Planted p q ts ns ids (fun _ => []) ∧
      ∀ n ∈ ns, q.block? n = none := by
  cases ts with
  | nil => exact ⟨[], p, [], rfl, planted_nil hp, by simp⟩
  | cons t ts =>
    obtain ⟨h₁, h₂, hd⟩ := ht.cons
    obtain ⟨n, q, ids, hrun, hq, hn⟩ := plant_ok t p hp h₁
    obtain ⟨ns, r, js, hrun', hr, hns⟩ := plantAll_ok ts q hq.formed (h₂.grows hq.toGrows)
    refine ⟨n :: ns, r, _, ?_, hq.trans hp hr (fun _ _ => rfl) hd, ?_⟩
    · rw [plantAll, bind_ok hrun, bind_ok hrun']
      rfl
    · intro m hm
      rcases List.mem_cons.1 hm with rfl | hm
      · rw [hr.block m (hq.mem_ids.1 (hq.stores.sublist.subset (by simp))).2, hn]
      · exact hns m hm

/-- What stands in a body is put into its list in order. -/
theorem plantBody_ok (ts : List Tree) (b : BlockId) : Plantable b ts := by
  intro p hp ht hb
  cases ts with
  | nil => exact ⟨p, [], [], rfl, by simpa using planted_nil hp⟩
  | cons t ts =>
    obtain ⟨h₁, h₂, hd⟩ := ht.cons
    obtain ⟨n, q, ids, hrun, hq, hn⟩ := plant_ok t p hp h₁
    obtain ⟨q', hrun', hq'⟩ := hq.append_ok hp hn hb
    obtain ⟨r, ns, js, hrun'', hr⟩ := plantBody_ok ts b q' hq'.formed (h₂.grows hq'.toGrows)
      (Nat.lt_of_lt_of_le hb hq'.blocks_le)
    have hall := hq'.trans hp hr (fun c hc => if_neg (by rintro rfl; omega)) hd
    refine ⟨r, n :: ns, ids ++ js, ?_, ?_⟩
    · rw [plantBody, bind_ok hrun, bind_ok hrun', hrun'']
    · have heq : (fun c => if c = b then n :: ns else []) =
          fun c => (if c = b then [n] else []) ++ if c = b then ns else [] := by
        funext c
        split <;> simp
      rw [heq]
      exact hall

end

end Edit
end Hoist
