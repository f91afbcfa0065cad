import Hoist.Lowered
import Hoist.Proofs.Checking

/-! Programs that grow: all stays as it was, but lists may get longer at their ends. -/
namespace Hoist

/-- A symbol without its definition. -/
def Symbol.bare (e : Symbol) : Symbol := { e with definition := none }

theorem Symbols.define_bare (t : Symbols) (s r : SymbolId) (n : NodeId) :
    ((t.define s n)[r]?).map Symbol.bare = (t[r]?).map Symbol.bare := by
  rw [Symbols.define, Table.getElem?_modify]
  split
  · rw [Option.map_map]
    rfl
  · rfl

namespace Program

variable {p q r : Program} {n m : NodeId} {b c : BlockId} {k : NodeKind} {span : Option Span}
  {f g : BlockId → List NodeId}

/-- Blocks are lists, each the body of the one node that owns it. -/
structure Formed (p : Program) : Prop where
  linked : p.Linked
  bodies : p.BodiesOwned
  blocks : ∀ b o, p.owner? b = some o → ∃ n k, o = some n ∧ p.kind? n = some k ∧ k.body? = some b

/-- All of `p` is still in `q`, where `f` says what was put at the end of its lists. -/
structure Grows (p q : Program) (f : BlockId → List NodeId) : Prop where
  nodes_le : p.nodes.size ≤ q.nodes.size
  blocks_le : p.blocks.size ≤ q.blocks.size
  content : ∀ n, n.index < p.nodes.size → q.content? n = p.content? n
  block : ∀ n, n.index < p.nodes.size → q.block? n = p.block? n
  owner : ∀ b, b.index < p.blocks.size → q.owner? b = p.owner? b
  members : ∀ b, b.index < p.blocks.size → q.members b = p.members b ++ f b
  roots : q.roots = p.roots
  bare : ∀ s : SymbolId, (q.symbols[s]?).map Symbol.bare = (p.symbols[s]?).map Symbol.bare

theorem Grows.refl (p : Program) : p.Grows p fun _ => [] :=
  ⟨Nat.le_refl _, Nat.le_refl _, fun _ _ => rfl, fun _ _ => rfl, fun _ _ => rfl,
    fun _ _ => by simp, rfl, fun _ => rfl⟩

theorem Grows.trans (h : p.Grows q f) (h' : q.Grows r g) : p.Grows r fun b => f b ++ g b where
  nodes_le := Nat.le_trans h.nodes_le h'.nodes_le
  blocks_le := Nat.le_trans h.blocks_le h'.blocks_le
  content n hn := (h'.content n (Nat.lt_of_lt_of_le hn h.nodes_le)).trans (h.content n hn)
  block n hn := (h'.block n (Nat.lt_of_lt_of_le hn h.nodes_le)).trans (h.block n hn)
  owner b hb := (h'.owner b (Nat.lt_of_lt_of_le hb h.blocks_le)).trans (h.owner b hb)
  members b hb := by
    rw [h'.members b (Nat.lt_of_lt_of_le hb h.blocks_le), h.members b hb, List.append_assoc]
  roots := h'.roots.trans h.roots
  bare s := (h'.bare s).trans (h.bare s)

theorem Grows.congr (h : p.Grows q f) (hfg : ∀ b : BlockId, b.index < p.blocks.size → f b = g b) :
    p.Grows q g :=
  { h with members := fun b hb => by rw [h.members b hb, hfg b hb] }

theorem Grows.symbols_size (h : p.Grows q f) : q.symbols.size = p.symbols.size := by
  apply Table.size_eq_of_isSome
  intro s
  simpa using congrArg Option.isSome (h.bare s)

theorem Grows.kind? (h : p.Grows q f) (hn : n.index < p.nodes.size) : q.kind? n = p.kind? n := by
  rw [kind?_eq_content?, h.content n hn, kind?_eq_content?]

theorem lt_size_of_kind? (h : p.kind? n = some k) : n.index < p.nodes.size := by
  obtain ⟨node, hn, _⟩ := kind?_eq_some_iff.1 h
  exact Table.lt_size_of_getElem? hn

theorem lt_size_of_owner? {o : Option NodeId} (h : p.owner? b = some o) :
    b.index < p.blocks.size := by
  obtain ⟨e, he, _⟩ := Option.map_eq_some_iff.1 h
  exact Table.lt_size_of_getElem? he

/-- New blocks are empty and no link of a listed node changes, so all lists are kept. -/
theorem Linked.of_agree (hp : p.Linked) (hblock : ∀ n, q.block? n = p.block? n)
    (hlink : ∀ n b, p.block? n = some b → q.link? n = p.link? n)
    (hold : ∀ (b : BlockId) (e : Block), p.blocks[b]? = some e → q.blocks[b]? = some e)
    (hnew : ∀ (b : BlockId) (e : Block), q.blocks[b]? = some e → p.blocks[b]? = none →
      e.head = none ∧ e.tail = none ∧ e.length = 0) :
    q.Linked ∧ ∀ b, q.members b = p.members b := by
  have hlists : ∀ b, (q.blocks[b]?).isSome → q.Lists b (p.members b) := by
    intro b hb
    cases hpb : p.blocks[b]? with
    | some e =>
      have hl := hp.lists b (by simp [hpb])
      refine ⟨hl.nodup, (segment_congr fun n hn => hlink n b (hl.block?_eq hn)).2 hl.segment, ?_⟩
      obtain ⟨owner, ho⟩ := hl.block
      exact ⟨owner, hold b _ ho⟩
    | none =>
      obtain ⟨⟨owner, head, tail, length⟩, he⟩ := Option.isSome_iff_exists.1 hb
      obtain ⟨rfl, rfl, rfl⟩ := hnew b _ he hpb
      rw [members_of_none hpb]
      exact ⟨.nil, segment_nil, owner, he⟩
  have hq := Linked.of_lists p.members hlists fun n b hn => by
    rw [hblock] at hn
    obtain ⟨hb, hm⟩ := hp.held n b hn
    obtain ⟨e, he⟩ := Option.isSome_iff_exists.1 hb
    exact ⟨by simp [hold b e he], hm⟩
  refine ⟨hq, fun b => ?_⟩
  cases hqb : q.blocks[b]? with
  | some e => exact (hlists b (by simp [hqb])).members_eq
  | none =>
    have hpb : p.blocks[b]? = none := by
      cases h : p.blocks[b]? with
      | none => rfl
      | some e => simp [hold b e h] at hqb
    rw [members_of_none hqb, members_of_none hpb]

/-- One more node, which defines what it declares and owns a new block if it has a body. -/
def sprout (p : Program) (k : NodeKind) (span : Option Span) : Program where
  nodes := p.nodes.push { kind := k, span }
  blocks := if k.body?.isSome then p.blocks.push { owner := some p.nodes.nextId } else p.blocks
  symbols := match k.declared? with
    | some s => p.symbols.define s p.nodes.nextId
    | none => p.symbols
  roots := p.roots

theorem content?_sprout (p : Program) (k : NodeKind) (span : Option Span) (n : NodeId) :
    (p.sprout k span).content? n = if n = p.nodes.nextId then some (k, span) else p.content? n := by
  simp only [content?, sprout, Table.getElem?_push]
  split <;> rfl

theorem link?_sprout (p : Program) (k : NodeKind) (span : Option Span) (n : NodeId) :
    (p.sprout k span).link? n = if n = p.nodes.nextId then some {} else p.link? n := by
  simp only [link?, sprout, Table.getElem?_push]
  split <;> rfl

theorem block?_sprout (p : Program) (k : NodeKind) (span : Option Span) (n : NodeId) :
    (p.sprout k span).block? n = p.block? n := by
  simp only [block?, link?_sprout]
  split
  · next h => simp [h, link?]
  · rfl

theorem block?_nextId (p : Program) : p.block? p.nodes.nextId = none := by
  simp [block?, link?]

theorem blocks_sprout (p : Program) (k : NodeKind) (span : Option Span) (b : BlockId) :
    (p.sprout k span).blocks[b]? = if k.body?.isSome ∧ b = p.blocks.nextId then
      some { owner := some p.nodes.nextId } else p.blocks[b]? := by
  by_cases h : k.body?.isSome <;> simp [sprout, h, Table.getElem?_push]

theorem owner?_sprout (p : Program) (k : NodeKind) (span : Option Span) (b : BlockId) :
    (p.sprout k span).owner? b = if k.body?.isSome ∧ b = p.blocks.nextId then
      some (some p.nodes.nextId) else p.owner? b := by
  simp only [owner?, blocks_sprout]
  split <;> rfl

@[simp] theorem nodes_size_sprout (p : Program) (k : NodeKind) (span : Option Span) :
    (p.sprout k span).nodes.size = p.nodes.size + 1 := by
  simp [sprout]

theorem kind?_sprout (p : Program) (k : NodeKind) (span : Option Span) (n : NodeId) :
    (p.sprout k span).kind? n = if n = p.nodes.nextId then some k else p.kind? n := by
  rw [kind?_eq_content?, content?_sprout, kind?_eq_content?]
  split <;> rfl

theorem linked_sprout (hp : p.Linked) (k : NodeKind) (span : Option Span) :
    (p.sprout k span).Linked ∧ ∀ b, (p.sprout k span).members b = p.members b := by
  refine hp.of_agree (block?_sprout p k span) (fun n b hn => ?_) (fun b e he => ?_)
    fun b e he hb => ?_
  · rw [link?_sprout, if_neg (Table.ne_nextId (lt_size_of_block? hn))]
  · rw [blocks_sprout, if_neg, he]
    exact fun h => Table.ne_nextId (Table.lt_size_of_getElem? he) h.2
  · rw [blocks_sprout] at he
    split at he
    · obtain rfl := Option.some.inj he
      simp
    · simp [hb] at he

theorem grows_sprout (hp : p.Linked) (k : NodeKind) (span : Option Span) :
    p.Grows (p.sprout k span) fun _ => [] where
  nodes_le := by simp
  blocks_le := by by_cases h : k.body?.isSome <;> simp [sprout, h]
  content n hn := by rw [content?_sprout, if_neg (Table.ne_nextId hn)]
  block n _ := block?_sprout p k span n
  owner b hb := by rw [owner?_sprout, if_neg fun h => Table.ne_nextId hb h.2]
  members b _ := by rw [(linked_sprout hp k span).2, List.append_nil]
  roots := rfl
  bare s := by
    simp only [sprout]
    split
    · exact Symbols.define_bare ..
    · rfl

theorem formed_sprout (hp : p.Formed) (hk : ∀ b, k.body? = some b → b = p.blocks.nextId)
    (span : Option Span) : (p.sprout k span).Formed where
  linked := (linked_sprout hp.linked k span).1
  bodies n k' b hn hb := by
    rw [kind?_sprout] at hn
    rw [owner?_sprout]
    split at hn
    · next h =>
      obtain rfl := Option.some.inj hn
      rw [if_pos ⟨by simp [hb], hk b hb⟩, h]
    · have ho := hp.bodies n k' b hn hb
      rw [if_neg, ho]
      exact fun h => Table.ne_nextId (lt_size_of_owner? ho) h.2
  blocks b o ho := by
    rw [owner?_sprout] at ho
    split at ho
    · next h =>
      obtain ⟨c, hc⟩ := Option.isSome_iff_exists.1 h.1
      refine ⟨p.nodes.nextId, k, (Option.some.inj ho).symm, by simp [kind?_sprout], ?_⟩
      rw [hc, h.2, hk c hc]
    · obtain ⟨n, k', hn, hk', hb⟩ := hp.blocks b o ho
      refine ⟨n, k', hn, ?_, hb⟩
      rw [kind?_sprout, if_neg (Table.ne_nextId (lt_size_of_kind? hk')), hk']

theorem symbols_sprout (p : Program) (k : NodeKind) (span : Option Span) (s : SymbolId) :
    (p.sprout k span).symbols[s]? = if k.declared? = some s then
      (p.symbols[s]?).map fun e => { e with definition := some p.nodes.nextId }
    else p.symbols[s]? := by
  cases hd : k.declared? with
  | none => simp [sprout, hd]
  | some s' => simp [sprout, hd, Symbols.define, Table.getElem?_modify]

theorem symbols_sprout_of_ne {s : SymbolId} (hs : k.declared? ≠ some s) (span : Option Span) :
    (p.sprout k span).symbols[s]? = p.symbols[s]? := by
  rw [symbols_sprout, if_neg hs]

theorem definition?_sprout {s : SymbolId} (hs : s.index < p.symbols.size)
    (hd : k.declared? = some s) (span : Option Span) :
    (p.sprout k span).definition? s = some p.nodes.nextId := by
  obtain ⟨e, he⟩ := Option.isSome_iff_exists.1 (Table.lt_size_iff_isSome.1 hs)
  simp [definition?, symbols_sprout, hd, he]

theorem content?_setKind (p : Program) (n m : NodeId) (k : NodeKind) :
    (p.setKind n k).content? m =
      if n = m then (p.content? m).map fun x => (k, x.2) else p.content? m := by
  simp only [content?, setKind, Table.getElem?_modify]
  split
  · rw [Option.map_map, Option.map_map]
    rfl
  · rfl

theorem kind?_setKind (p : Program) (n m : NodeId) (k : NodeKind) :
    (p.setKind n k).kind? m = if n = m then (p.kind? m).map fun _ => k else p.kind? m := by
  rw [kind?_eq_content?, content?_setKind, kind?_eq_content?]
  split
  · rw [Option.map_map, Option.map_map]
    rfl
  · rfl

theorem link?_setKind (p : Program) (n m : NodeId) (k : NodeKind) :
    (p.setKind n k).link? m = p.link? m := by
  simp only [link?, setKind, Table.getElem?_modify]
  split
  · rw [Option.map_map]
    rfl
  · rfl

theorem block?_setKind (p : Program) (n m : NodeId) (k : NodeKind) :
    (p.setKind n k).block? m = p.block? m := by
  simp only [block?, link?_setKind]

@[simp] theorem nodes_size_setKind (p : Program) (n : NodeId) (k : NodeKind) :
    (p.setKind n k).nodes.size = p.nodes.size := by
  simp [setKind]

theorem linked_setKind (hp : p.Linked) (n : NodeId) (k : NodeKind) :
    (p.setKind n k).Linked ∧ ∀ b, (p.setKind n k).members b = p.members b := by
  refine hp.of_agree (block?_setKind p n · k) (fun m _ _ => link?_setKind p n m k)
    (fun _ _ h => h) fun b e he hb => ?_
  change p.blocks[b]? = some e at he
  simp [hb] at he

/-- A node that keeps its body can be changed in any other way. -/
theorem formed_setKind {k' : NodeKind} (hp : p.Formed) (hk : p.kind? n = some k)
    (hb : k'.body? = k.body?) : (p.setKind n k').Formed where
  linked := (linked_setKind hp.linked n k').1
  bodies m j b hm hj := by
    rw [kind?_setKind] at hm
    change p.owner? b = some (some m)
    split at hm
    · next h =>
      subst h
      obtain rfl : k' = j := by simpa [hk] using hm
      exact hp.bodies n k b hk (by rw [← hb, hj])
    · exact hp.bodies m j b hm hj
  blocks b o ho := by
    obtain ⟨m, j, hm, hj, hjb⟩ := hp.blocks b o ho
    by_cases h : n = m
    · subst h
      obtain rfl : k = j := by simpa [hk] using hj
      exact ⟨n, k', hm, by simp [kind?_setKind, hk], by rw [hb, hjb]⟩
    · exact ⟨m, j, hm, by rw [kind?_setKind, if_neg h, hj], hjb⟩

end Program
end Hoist
