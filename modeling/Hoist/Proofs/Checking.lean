import Hoist.Program.Check
import Hoist.Proofs.Relinking

/-! What an empty list of violations means. -/
namespace Hoist

theorem NodeKind.declared?_of_typeDef? {k : NodeKind} {s : SymbolId} (h : k.typeDef? = some s) :
    k.declared? = some s := by
  cases k <;> simp_all [typeDef?, declared?]

namespace Program

variable {p : Program} {b : BlockId} {n : NodeId} {s : SymbolId} {l : List NodeId}
  {prev cursor : Option NodeId} {listed : Listed} {room : Nat}

/-- A declaring node defines its symbol, and a definition declares what its symbol goes by. -/
structure Defined (p : Program) : Prop where
  declared : ∀ n s, p.declared? n = some s → p.definition? s = some n
  defined : ∀ (s : SymbolId) symbol n, p.symbols[s]? = some symbol → symbol.definition = some n →
    p.declared? n = some symbol.id
  typed : ∀ n k s, p.kind? n = some k → k.typeDef? = some s → p.isType s

/-- There is a module around every type that has a definition. -/
def Rooted (p : Program) : Prop :=
  ∀ s, p.isType s → (p.definition? s).isSome → (p.module? s).isSome

/-- The body of a declaration is a block that it owns. -/
def BodiesOwned (p : Program) : Prop :=
  ∀ n k b, p.kind? n = some k → k.body? = some b → p.owner? b = some (some n)

/-- A list that is sound and shares no node with those followed before is followed to its end. -/
theorem follow_eq (hl : l.Nodup) (hs : p.Segment b prev l none) (hr : l.length ≤ room)
    (hf : ∀ n ∈ l, ∀ c, (n, c) ∉ listed) :
    p.follow b room l.head? prev listed =
      ⟨[], (l.map (·, b)).reverse ++ listed, l.length, l.getLast?.or prev, true⟩ := by
  induction l generalizing prev listed room with
  | nil => cases room <;> rfl
  | cons n l ih =>
    obtain ⟨hn, hseg⟩ := segment_cons.1 hs
    obtain ⟨hnl, hnd⟩ := List.nodup_cons.1 hl
    cases room with
    | zero => simp at hr
    | succ room =>
      have hfresh : ∀ m ∈ l, ∀ c, (m, c) ∉ (n, b) :: listed := by
        intro m hm c
        have hmn : m ≠ n := fun h => hnl (h ▸ hm)
        simpa [hmn] using hf m (by simp [hm]) c
      have hmet : (listed.lookup n).isSome = false := by
        rw [← Bool.not_eq_true, List.lookup_isSome_iff]
        rintro ⟨⟨m, c⟩, hm, h⟩
        exact hf n (by simp) c (by simp_all)
      have hnext := ih hnd hseg (by simpa using hr) hfresh
      simp [follow, hmet, hn, hnext, List.getLast?_cons]

/-- A list in which nothing was found wrong is sound. -/
theorem follow_sound (h : (p.follow b room cursor prev listed).violations = []) :
    ∃ l, cursor = l.head? ∧ l.Nodup ∧ p.Segment b prev l none ∧ l.length ≤ room ∧
      ∀ n ∈ l, ∀ c, (n, c) ∉ listed := by
  induction room generalizing cursor prev listed with
  | zero =>
    cases cursor with
    | none => exact ⟨[], by simp⟩
    | some n => simp [follow] at h
  | succ room ih =>
    cases cursor with
    | none => exact ⟨[], by simp⟩
    | some n =>
      simp only [follow] at h
      split at h
      · simp at h
      · next hfresh =>
        split at h
        · simp at h
        · next link hn =>
          obtain ⟨hbroken, hrest⟩ := List.append_eq_nil_iff.1 h
          obtain ⟨l, hnext, hnd, hseg, hlen, hlook⟩ := ih hrest
          have hlink : link = ⟨some b, prev, l.head?⟩ := by
            obtain ⟨block, before, after⟩ := link
            simp_all
          have hnl : n ∉ l := fun hm => hlook n hm b (by simp)
          refine ⟨n :: l, rfl, List.nodup_cons.2 ⟨hnl, hnd⟩, ?_, by simpa using hlen, ?_⟩
          · exact segment_cons.2 ⟨by simp [hn, hlink], hseg⟩
          · rintro m (_ | ⟨_, hm⟩) c
            · simpa using fun hc => hfresh (by simpa using ⟨c, hc⟩)
            · exact fun hc => hlook m hm c (by simp [hc])

theorem checkBlock_sound {e : Block} (hb : p.blocks[b]? = some e)
    (h : (p.checkBlock b e listed).1 = []) : ∃ l, p.Lists b l ∧ ∀ n ∈ l, ∀ c, (n, c) ∉ listed := by
  simp only [checkBlock, List.append_eq_nil_iff] at h
  obtain ⟨⟨hv, htail⟩, hlen⟩ := h
  obtain ⟨l, hhead, hnd, hseg, hroom, hfresh⟩ := follow_sound hv
  rw [hhead, follow_eq hnd hseg hroom hfresh] at htail hlen
  refine ⟨l, ⟨hnd, hseg, e.owner, ?_⟩, hfresh⟩
  obtain ⟨owner, head, tail, length⟩ := e
  simp_all

theorem checkBlock_eq {e : Block} (hb : p.blocks[b]? = some e) (hl : p.Lists b l)
    (hf : ∀ n ∈ l, ∀ c, (n, c) ∉ listed) :
    p.checkBlock b e listed = ([], (l.map (·, b)).reverse ++ listed) := by
  obtain ⟨owner, hblock⟩ := hl.block
  obtain rfl : e = ⟨owner, l.head?, l.getLast?, l.length⟩ := by simpa [hb] using hblock
  have hr := Table.length_le_size hl.nodup fun n hn => lt_size_of_block? (hl.block?_eq hn)
  simp [checkBlock, follow_eq hl.nodup hl.segment hr hf]

/-- What has been listed so far are nodes of blocks that do not come again. -/
def Before (p : Program) (bs : List (BlockId × Block)) (listed : Listed) : Prop :=
  ∀ n c, (n, c) ∈ listed → p.block? n = some c ∧ c ∉ bs.map Prod.fst

theorem Before.fresh {bs : List (BlockId × Block)} {e : Block} (h : p.Before ((b, e) :: bs) listed)
    (hl : p.Lists b l) : ∀ n ∈ l, ∀ c, (n, c) ∉ listed := by
  intro n hn c hc
  obtain ⟨hnc, hcb⟩ := h n c hc
  obtain rfl : b = c := by simpa [hl.block?_eq hn] using hnc
  simp at hcb

theorem Before.next {bs : List (BlockId × Block)} {e : Block} (h : p.Before ((b, e) :: bs) listed)
    (hl : p.Lists b l) (hb : b ∉ bs.map Prod.fst) :
    p.Before bs ((l.map (·, b)).reverse ++ listed) := by
  intro n c hm
  obtain hm | hm := List.mem_append.1 hm
  · obtain ⟨m, hml, heq⟩ := List.mem_map.1 (List.mem_reverse.1 hm)
    obtain ⟨rfl, rfl⟩ := Prod.mk.inj heq
    exact ⟨hl.block?_eq hml, hb⟩
  · obtain ⟨hnc, hcb⟩ := h n c hm
    exact ⟨hnc, fun hc => hcb (by simp [hc])⟩

theorem checkLists_sound {bs : List (BlockId × Block)}
    (hbs : ∀ b e, (b, e) ∈ bs → p.blocks[b]? = some e)
    (hnd : (bs.map Prod.fst).Nodup) (hbef : p.Before bs listed)
    (h : (p.checkLists bs listed).1 = []) : ∀ b e, (b, e) ∈ bs → p.Lists b (p.members b) := by
  induction bs generalizing listed with
  | nil => simp
  | cons be bs ih =>
    obtain ⟨b, e⟩ := be
    obtain ⟨hb, hnd'⟩ := List.nodup_cons.1 hnd
    simp only [checkLists, List.append_eq_nil_iff] at h
    obtain ⟨l, hl, hf⟩ := checkBlock_sound (hbs b e (by simp)) h.1
    rw [checkBlock_eq (hbs b e (by simp)) hl hf] at h
    have hrest := ih (fun c f hc => hbs c f (by simp [hc])) hnd' (hbef.next hl hb) h.2
    rintro c f (_ | ⟨_, hc⟩)
    · rw [hl.members_eq]
      exact hl
    · exact hrest c f hc

theorem checkLists_eq {bs : List (BlockId × Block)}
    (hbs : ∀ b e, (b, e) ∈ bs → p.blocks[b]? = some e)
    (hnd : (bs.map Prod.fst).Nodup) (hbef : p.Before bs listed)
    (h : ∀ b e, (b, e) ∈ bs → p.Lists b (p.members b)) :
    (p.checkLists bs listed).1 = [] ∧ p.Before [] (p.checkLists bs listed).2 ∧
      ∀ n c, (n, c) ∈ (p.checkLists bs listed).2 ↔
        (n, c) ∈ listed ∨ c ∈ bs.map Prod.fst ∧ n ∈ p.members c := by
  induction bs generalizing listed with
  | nil =>
    refine ⟨rfl, ?_, by simp [checkLists]⟩
    exact hbef
  | cons be bs ih =>
    obtain ⟨b, e⟩ := be
    obtain ⟨hb, hnd'⟩ := List.nodup_cons.1 hnd
    have hl := h b e (by simp)
    have heq := checkBlock_eq (hbs b e (by simp)) hl (hbef.fresh hl)
    obtain ⟨hv, hbef', hmem⟩ := ih (fun c f hc => hbs c f (by simp [hc])) hnd' (hbef.next hl hb)
      (fun c f hc => h c f (by simp [hc]))
    simp only [checkLists, heq, hv, List.append_nil, true_and]
    refine ⟨hbef', fun n c => ?_⟩
    rw [hmem]
    simp only [List.mem_append, List.mem_reverse, List.mem_map, Prod.mk.injEq, List.map_cons,
      List.mem_cons]
    grind

theorem before_nil (bs : List (BlockId × Block)) : p.Before bs [] := by
  intro n c h
  simp at h

/-- Two blocks cannot both list a node, so the block listed for a node is the one it names. -/
theorem Before.lookup (h : p.Before [] listed) : listed.lookup n = some b ↔ (n, b) ∈ listed := by
  constructor
  · intro hl
    obtain ⟨l₁, l₂, rfl, _⟩ := List.lookup_eq_some_iff.1 hl
    simp
  · intro hm
    cases hl : listed.lookup n with
    | none => exact absurd (List.lookup_eq_none_iff.1 hl _ hm) (by simp)
    | some c =>
      obtain ⟨l₁, l₂, rfl, _⟩ := List.lookup_eq_some_iff.1 hl
      have hc := (h n c (by simp)).1
      rw [(h n b hm).1] at hc
      exact hc.symm

theorem checkBlocks_eq_nil_iff : p.checkBlocks = [] ↔ p.Linked := by
  have hbs : ∀ b e, (b, e) ∈ p.blocks.toAssoc → p.blocks[b]? = some e :=
    fun _ _ => Table.mem_toAssoc.1
  have hkey : ∀ b, b ∈ p.blocks.toAssoc.map Prod.fst ↔ (p.blocks[b]?).isSome := by
    intro b
    simp [Table.mem_toAssoc, Option.isSome_iff_exists]
  have hnd := p.blocks.nodup_toAssoc
  simp only [checkBlocks, List.append_eq_nil_iff, List.flatMap_eq_nil_iff, Prod.forall,
    Table.mem_toAssoc]
  constructor
  · rintro ⟨hv, hstray⟩
    have hl := checkLists_sound hbs hnd (before_nil _) hv
    obtain ⟨-, hbef, hmem⟩ := checkLists_eq hbs hnd (before_nil _) hl
    refine ⟨fun b hb => ?_, fun n b hn => ?_⟩
    · obtain ⟨e, he⟩ := Option.isSome_iff_exists.1 hb
      exact hl b e (Table.mem_toAssoc.2 he)
    · obtain ⟨link, hlink, hblock⟩ := Option.bind_eq_some_iff.1 hn
      obtain ⟨node, hnode, rfl⟩ := Option.map_eq_some_iff.1 hlink
      have hs := hstray n node hnode
      simp only [checkStray, hblock] at hs
      have hlook := by simpa [hbef.lookup, hmem] using hs
      exact ⟨(hkey b).1 (by simpa using hlook.1), hlook.2⟩
  · intro hp
    have hl : ∀ b e, (b, e) ∈ p.blocks.toAssoc → p.Lists b (p.members b) :=
      fun b e hb => hp.lists b (by simp [hbs b e hb])
    obtain ⟨hv, hbef, hmem⟩ := checkLists_eq hbs hnd (before_nil _) hl
    refine ⟨hv, fun n node hnode => ?_⟩
    simp only [checkStray]
    split
    · rfl
    · next b hblock =>
      obtain ⟨hb, hn⟩ := hp.held n b (by simp [block?, link?, hnode, hblock])
      rw [if_pos]
      rw [hbef.lookup, hmem]
      exact .inr ⟨(hkey b).2 hb, hn⟩

theorem isType_of_getElem? {symbol : Symbol} (h : p.symbols[s]? = some symbol) :
    p.isType s = symbol.kind.isType := by
  simp [isType, h]

theorem checkDeclaration_eq_nil_iff {node : Node} (hn : p.nodes[n]? = some node) :
    p.checkDeclaration n node = [] ↔
      (∀ s, p.declared? n = some s → p.definition? s = some n) ∧
        ∀ s, node.kind.typeDef? = some s → p.isType s := by
  have hd : p.declared? n = node.kind.declared? := by simp [declared?, kind?, hn]
  rw [hd]
  have htype : ∀ t, node.kind.typeDef? = some t → node.kind.declared? = some t :=
    fun t => NodeKind.declared?_of_typeDef?
  cases hs : node.kind.declared? with
  | none =>
    have hnone : node.kind.typeDef? = none :=
      Option.eq_none_iff_forall_ne_some.2 fun t ht => by simp [htype t ht] at hs
    simp [checkDeclaration, hs, hnone]
  | some s =>
    cases he : p.symbols[s]? with
    | none => simp [checkDeclaration, hs, he, definition?]
    | some symbol =>
      have hty := isType_of_getElem? he
      cases htd : node.kind.typeDef? with
      | none => simp [checkDeclaration, hs, he, htd, definition?]
      | some t =>
        obtain rfl : t = s := by simpa [hs] using (htype t htd).symm
        simp [checkDeclaration, hs, he, htd, definition?, hty]

theorem checkDefinition_eq_nil_iff {symbol : Symbol} : p.checkDefinition symbol = [] ↔
    ∀ n, symbol.definition = some n → p.declared? n = some symbol.id := by
  unfold checkDefinition
  cases symbol.definition <;> simp

theorem definition?_eq_some_iff :
    p.definition? s = some n ↔ ∃ symbol, p.symbols[s]? = some symbol ∧ symbol.definition = some n :=
  Option.bind_eq_some_iff

theorem kind?_eq_some_iff {k : NodeKind} :
    p.kind? n = some k ↔ ∃ node, p.nodes[n]? = some node ∧ node.kind = k :=
  Option.map_eq_some_iff

theorem bodiesOwned_iff : p.BodiesOwned ↔ ∀ entry ∈ p.nodes.toAssoc,
    ∀ b ∈ entry.2.kind.body?, p.owner? b = some (some entry.1) := by
  simp only [BodiesOwned, kind?_eq_some_iff, Prod.forall, Table.mem_toAssoc, Option.mem_def]
  constructor
  · intro h n node hn b hb
    exact h n node.kind b ⟨node, hn, rfl⟩ hb
  · rintro h n k b ⟨node, hn, rfl⟩ hb
    exact h n node hn b hb

instance : Decidable p.BodiesOwned := decidable_of_iff _ bodiesOwned_iff.symm

theorem checkDefinitions_eq_nil_iff : p.checkDefinitions = [] ↔ p.Defined := by
  simp only [checkDefinitions, List.append_eq_nil_iff, List.flatMap_eq_nil_iff, Prod.forall,
    Table.mem_toAssoc, Table.mem_toList, checkDefinition_eq_nil_iff, forall_exists_index]
  constructor
  · rintro ⟨hdecl, hdef⟩
    refine ⟨fun n s hn => ?_, fun s symbol n hs => hdef symbol s hs n, fun n k s hk hs => ?_⟩
    · obtain ⟨k, hk, _⟩ := Option.bind_eq_some_iff.1 hn
      obtain ⟨node, hnode, _⟩ := kind?_eq_some_iff.1 hk
      exact ((checkDeclaration_eq_nil_iff hnode).1 (hdecl n node hnode)).1 s hn
    · obtain ⟨node, hnode, rfl⟩ := kind?_eq_some_iff.1 hk
      exact ((checkDeclaration_eq_nil_iff hnode).1 (hdecl n node hnode)).2 s hs
  · intro hp
    refine ⟨fun n node hnode => ?_, fun symbol s he n => hp.defined s symbol n he⟩
    refine (checkDeclaration_eq_nil_iff hnode).2 ⟨fun s hs => hp.declared n s hs, fun s hs => ?_⟩
    exact hp.typed n node.kind s (kind?_eq_some_iff.2 ⟨node, hnode, rfl⟩) hs

theorem checkRooting_eq_nil_iff : p.checkRooting = [] ↔
    ∀ (s : SymbolId) symbol, p.symbols[s]? = some symbol → symbol.kind = .type →
      symbol.definition.isSome → (p.module? symbol.id).isSome := by
  simp only [checkRooting, List.flatMap_eq_nil_iff, Table.mem_toList, forall_exists_index]
  constructor
  · intro h s symbol he hk hd
    have hroot := h symbol s he
    simp_all [checkRoot, SymbolKind.isType, Option.isSome_iff_ne_none]
  · intro h symbol s he
    rw [checkRoot, if_neg]
    rintro ⟨hk, hd, hm⟩
    have hr := h s symbol he (by simpa [SymbolKind.isType] using hk) hd
    simp [hm] at hr

/-- What a symbol goes by has the same definition, whatever its place. -/
theorem Defined.definition?_id (hd : p.Defined) {symbol : Symbol} (he : p.symbols[s]? = some symbol)
    (hn : symbol.definition = some n) : p.definition? symbol.id = some n :=
  hd.declared n symbol.id (hd.defined s symbol n he hn)

theorem module?_congr {t : SymbolId} (h : p.definition? s = p.definition? t) :
    p.module? s = p.module? t := by
  simp only [module?, outer?, h]

theorem Defined.rooted_iff (hd : p.Defined) : p.checkRooting = [] ↔ p.Rooted := by
  rw [checkRooting_eq_nil_iff]
  have hsame : ∀ s symbol, p.symbols[s]? = some symbol → symbol.definition.isSome →
      p.module? symbol.id = p.module? s := by
    intro s symbol he hdef
    obtain ⟨n, hn⟩ := Option.isSome_iff_exists.1 hdef
    apply module?_congr
    rw [hd.definition?_id he hn, definition?_eq_some_iff.2 ⟨symbol, he, hn⟩]
  constructor
  · intro h s hs hdef
    obtain ⟨n, hn⟩ := Option.isSome_iff_exists.1 hdef
    obtain ⟨symbol, he, hsym⟩ := definition?_eq_some_iff.1 hn
    rw [← hsame s symbol he (by simp [hsym])]
    refine h s symbol he ?_ (by simp [hsym])
    simpa [isType_of_getElem? he, SymbolKind.isType] using hs
  · intro hr s symbol he hk hdef
    rw [hsame s symbol he hdef]
    refine hr s ?_ (by simpa [definition?, he] using hdef)
    simp [isType_of_getElem? he, hk, SymbolKind.isType]

theorem check_eq_nil_iff : p.check = [] ↔ p.Defined ∧ p.Linked ∧ p.Rooted := by
  simp only [check, List.append_eq_nil_iff, checkDefinitions_eq_nil_iff, checkBlocks_eq_nil_iff,
    and_assoc]
  exact and_congr_right fun hd => and_congr_right fun _ => hd.rooted_iff

/-- Block `b`, recorded as `e`, is the list `l`: each node in it knows its neighbours. -/
structure Threads (p : Program) (b : BlockId) (e : Block) (l : List NodeId) : Prop where
  nodup : l.Nodup
  head : e.head = l.head?
  tail : e.tail = l.getLast?
  length : e.length = l.length
  link : ∀ i n, l[i]? = some n →
    p.link? n = some ⟨some b, if i = 0 then none else l[i - 1]?, l[i + 1]?⟩

theorem lists_iff_threads {e : Block} (hb : p.blocks[b]? = some e) :
    p.Lists b l ↔ p.Threads b e l := by
  have hseg : p.Segment b none l none ↔ ∀ i n, l[i]? = some n →
      p.link? n = some ⟨some b, if i = 0 then none else l[i - 1]?, l[i + 1]?⟩ := by
    rw [segment_iff_getElem?]
    simp
  constructor
  · rintro ⟨hnd, hs, owner, hrec⟩
    obtain rfl : e = ⟨owner, l.head?, l.getLast?, l.length⟩ := by simpa [hb] using hrec
    exact ⟨hnd, rfl, rfl, rfl, hseg.1 hs⟩
  · rintro ⟨hnd, hhead, htail, hlen, hlink⟩
    obtain ⟨owner, head, tail, length⟩ := e
    subst hhead htail hlen
    exact ⟨hnd, hseg.2 hlink, owner, hb⟩

theorem linked_iff : p.Linked ↔
    (∀ (b : BlockId) e, p.blocks[b]? = some e →
      ∃ l, p.Threads b e l ∧ ∀ n, p.block? n = some b → n ∈ l) ∧
    ∀ n b, p.block? n = some b → (p.blocks[b]?).isSome := by
  constructor
  · intro hp
    refine ⟨fun b e hb => ⟨p.members b, ?_, fun n hn => (hp.held n b hn).2⟩, fun n b hn => ?_⟩
    · exact (lists_iff_threads hb).1 (hp.lists b (by simp [hb]))
    · exact (hp.held n b hn).1
  · rintro ⟨hlists, hheld⟩
    -- a list that threads through a block can only be the one read off its links
    have hmembers : ∀ (b : BlockId) e, p.blocks[b]? = some e →
        p.Lists b (p.members b) ∧ ∀ n, p.block? n = some b → n ∈ p.members b := by
      intro b e hb
      obtain ⟨l, hl, hmem⟩ := hlists b e hb
      have hlist := (lists_iff_threads hb).2 hl
      rw [hlist.members_eq]
      exact ⟨hlist, hmem⟩
    refine ⟨fun b hb => ?_, fun n b hn => ⟨hheld n b hn, ?_⟩⟩
    · obtain ⟨e, he⟩ := Option.isSome_iff_exists.1 hb
      exact (hmembers b e he).1
    · obtain ⟨e, he⟩ := Option.isSome_iff_exists.1 (hheld n b hn)
      exact (hmembers b e he).2 n hn

theorem declared?_eq_some_iff :
    p.declared? n = some s ↔ ∃ node, p.nodes[n]? = some node ∧ node.kind.declared? = some s := by
  simp [declared?, kind?, Option.bind_eq_some_iff]

theorem defined_iff : p.Defined ↔
    (∀ (n : NodeId) node s, p.nodes[n]? = some node → node.kind.declared? = some s →
      ∃ symbol, p.symbols[s]? = some symbol ∧ symbol.definition = some n ∧
        (node.kind.typeDef?.isSome → symbol.kind = .type)) ∧
    ∀ (s : SymbolId) symbol n, p.symbols[s]? = some symbol → symbol.definition = some n →
      ∃ node, p.nodes[n]? = some node ∧ node.kind.declared? = some symbol.id := by
  constructor
  · intro hp
    refine ⟨fun n node s hn hs => ?_, fun s symbol n he hn => ?_⟩
    · have hdef := hp.declared n s (declared?_eq_some_iff.2 ⟨node, hn, hs⟩)
      obtain ⟨symbol, he, hsym⟩ := definition?_eq_some_iff.1 hdef
      refine ⟨symbol, he, hsym, fun htype => ?_⟩
      obtain ⟨t, ht⟩ := Option.isSome_iff_exists.1 htype
      obtain rfl : t = s := by simpa [hs] using (NodeKind.declared?_of_typeDef? ht).symm
      have := hp.typed n node.kind t (kind?_eq_some_iff.2 ⟨node, hn, rfl⟩) ht
      simpa [isType_of_getElem? he, SymbolKind.isType] using this
    · exact declared?_eq_some_iff.1 (hp.defined s symbol n he hn)
  · rintro ⟨hnodes, hsymbols⟩
    refine ⟨fun n s hn => ?_, fun s symbol n he hn => ?_, fun n k s hk hs => ?_⟩
    · obtain ⟨node, hnode, hns⟩ := declared?_eq_some_iff.1 hn
      obtain ⟨symbol, he, hsym, _⟩ := hnodes n node s hnode hns
      exact definition?_eq_some_iff.2 ⟨symbol, he, hsym⟩
    · exact declared?_eq_some_iff.2 (hsymbols s symbol n he hn)
    · obtain ⟨node, hnode, rfl⟩ := kind?_eq_some_iff.1 hk
      obtain ⟨symbol, he, _, htype⟩ := hnodes n node s hnode (NodeKind.declared?_of_typeDef? hs)
      simp [isType_of_getElem? he, SymbolKind.isType, htype (by simp [hs])]

/-- However corrupt a program is, no violation is found exactly if declaring nodes and symbols name
each other, the latter by what they go by, every block is the list of the nodes that name it, and
every type that has a definition has a module. -/
theorem check_eq_nil_iff_forall (p : Program) : p.check = [] ↔
    ((∀ (n : NodeId) node s, p.nodes[n]? = some node → node.kind.declared? = some s →
        ∃ symbol, p.symbols[s]? = some symbol ∧ symbol.definition = some n ∧
          (node.kind.typeDef?.isSome → symbol.kind = .type)) ∧
      ∀ (s : SymbolId) symbol n, p.symbols[s]? = some symbol → symbol.definition = some n →
        ∃ node, p.nodes[n]? = some node ∧ node.kind.declared? = some symbol.id) ∧
    ((∀ (b : BlockId) e, p.blocks[b]? = some e →
        ∃ l, p.Threads b e l ∧ ∀ n, p.block? n = some b → n ∈ l) ∧
      ∀ n b, p.block? n = some b → (p.blocks[b]?).isSome) ∧
    ∀ (s : SymbolId) symbol, p.symbols[s]? = some symbol → symbol.kind = .type →
      symbol.definition.isSome → (p.module? symbol.id).isSome := by
  rw [check, List.append_eq_nil_iff, List.append_eq_nil_iff, and_assoc,
    checkDefinitions_eq_nil_iff, defined_iff, checkBlocks_eq_nil_iff, linked_iff,
    checkRooting_eq_nil_iff]

theorem checkFlat_eq_nil_iff : p.checkFlat = [] ↔ p.check = [] ∧ ∀ n, p.nested? n = none := by
  simp only [checkFlat, List.append_eq_nil_iff, List.map_eq_nil_iff, List.filterMap_eq_nil_iff]
  refine and_congr_right fun _ => ⟨fun h n => ?_, fun h n _ => h n⟩
  by_cases hn : n.index < p.nodes.size
  · exact h n (Table.mem_ids.2 hn)
  · have hk : p.nodes[n]? = none := Table.getElem?_eq_none_iff.2 (by omega)
    simp [nested?, kind?, hk]

end Program
end Hoist
