import Hoist.Proofs.Checking
import Hoist.Proofs.Trails

/-! What the check of the blocks says about lists that are not sound. -/
namespace Hoist

/-- Whether a violation is one of links and lists. -/
def Violation.ofLists : Violation → Bool
  | .brokenLink .. | .unknownMember .. | .cyclicBlock .. | .tailMismatch .. | .lengthMismatch ..
  | .strayNode .. => true
  | _ => false

namespace Program

variable {p : Program} {a b c : BlockId} {m n : NodeId} {i j k room : Nat}
  {cursor prev : Option NodeId} {listed : Listed}

/-- The first `i` nodes from `cursor` on are new: none has been listed, and none comes twice. -/
def Clear (p : Program) (listed : Listed) (cursor : Option NodeId) (i : Nat) : Prop :=
  ∀ j < i, ∀ m, p.along? j cursor = some m →
    listed.lookup m = none ∧ ∀ k < j, p.along? k cursor ≠ some m

theorem lookup_cons (n m : NodeId) (b : BlockId) (listed : Listed) :
    ((n, b) :: listed).lookup m = if m = n then some b else listed.lookup m := by
  by_cases hm : m = n
  · simp [hm]
  · rw [if_neg hm, List.lookup_cons, beq_false_of_ne hm]

theorem clear_none (p : Program) (listed : Listed) (i : Nat) : p.Clear listed none i := by
  intro j _ m hm
  simp at hm

theorem clear_succ (b : BlockId) : p.Clear listed (some n) (i + 1) ↔
    listed.lookup n = none ∧ p.Clear ((n, b) :: listed) (p.next? n) i := by
  have hlookup : ∀ m, ((n, b) :: listed).lookup m = none ↔ m ≠ n ∧ listed.lookup m = none := by
    intro m
    rw [lookup_cons]
    by_cases hm : m = n <;> simp [hm]
  constructor
  · intro h
    refine ⟨(h 0 (by omega) n rfl).1, fun j hj m hm => ?_⟩
    obtain ⟨hlist, hnew⟩ := h (j + 1) (by omega) m hm
    refine ⟨(hlookup m).2 ⟨?_, hlist⟩, fun k hk => hnew (k + 1) (by omega)⟩
    rintro rfl
    exact hnew 0 (by omega) rfl
  · rintro ⟨hn, h⟩ j hj m hm
    cases j with
    | zero =>
      obtain rfl : n = m := by simpa [along?] using hm
      exact ⟨hn, fun k hk => by omega⟩
    | succ j =>
      obtain ⟨hlist, hnew⟩ := h j (by omega) m hm
      obtain ⟨hmn, hold⟩ := (hlookup m).1 hlist
      refine ⟨hold, fun k hk => ?_⟩
      cases k with
      | zero => simpa [along?] using hmn.symm
      | succ k => exact hnew k (by omega)

/-- Node `n` is listed when the list is followed from `cursor` on. -/
def Enters (p : Program) (listed : Listed) (cursor : Option NodeId) (room : Nat) (n : NodeId) :
    Prop :=
  ∃ i < room, p.along? i cursor = some n ∧ p.Clear listed cursor i

theorem enters_succ (b : BlockId) : p.Enters listed (some m) (room + 1) n ↔
    n = m ∨ listed.lookup m = none ∧ p.Enters ((m, b) :: listed) (p.next? m) room n := by
  constructor
  · rintro ⟨i, hi, hn, hclear⟩
    cases i with
    | zero => exact .inl (by simpa [along?] using hn.symm)
    | succ i =>
      obtain ⟨hm, hrest⟩ := (clear_succ b).1 hclear
      exact .inr ⟨hm, i, by omega, hn, hrest⟩
  · rintro (rfl | ⟨hm, i, hi, hn, hrest⟩)
    · exact ⟨0, by omega, rfl, fun j hj => by omega⟩
    · exact ⟨i + 1, by omega, hn, (clear_succ b).2 ⟨hm, hrest⟩⟩

theorem follow_known (hl : listed.lookup n = some c) :
    p.follow b (room + 1) (some n) prev listed =
      ⟨[.cyclicBlock b], (n, b) :: listed, 0, prev, false⟩ := by
  simp only [follow, hl, Option.isSome_some, if_true]

theorem follow_unknown (hl : listed.lookup n = none) (hn : p.link? n = none) :
    p.follow b (room + 1) (some n) prev listed =
      ⟨[.unknownMember b n], (n, b) :: listed, 0, prev, false⟩ := by
  simp [follow, hl, hn]

theorem follow_next {link : Link} (hl : listed.lookup n = none) (hn : p.link? n = some link) :
    p.follow b (room + 1) (some n) prev listed =
      let rest := p.follow b room (p.next? n) (some n) ((n, b) :: listed)
      let broken := if link.block = some b ∧ link.prev = prev then [] else [.brokenLink b n link]
      { rest with violations := broken ++ rest.violations, count := rest.count + 1 } := by
  have hnext : p.next? n = link.next := by simp [next?, hn]
  simp only [follow, hl, hn, hnext]
  rfl

/-- Following a list enters its block for the nodes that it comes to and leaves the others alone. -/
theorem lookup_follow (p : Program) (b : BlockId) (room : Nat) (cursor prev : Option NodeId)
    (listed : Listed) (n : NodeId) :
    (p.Enters listed cursor room n →
      (p.follow b room cursor prev listed).listed.lookup n = some b) ∧
    (¬ p.Enters listed cursor room n →
      (p.follow b room cursor prev listed).listed.lookup n = listed.lookup n) := by
  induction room generalizing cursor prev listed with
  | zero =>
    refine ⟨fun ⟨i, hi, _⟩ => by omega, fun _ => ?_⟩
    cases cursor <;> rfl
  | succ room ih =>
    cases cursor with
    | none =>
      refine ⟨fun ⟨i, _, hn, _⟩ => by simp at hn, fun _ => ?_⟩
      simp [follow]
    | some m =>
      rw [enters_succ b]
      cases hl : listed.lookup m with
      | some d => simp +contextual [follow_known hl, lookup_cons]
      | none =>
        cases hm : p.link? m with
        | none =>
          have hnext : p.next? m = none := by simp [next?, hm]
          simp +contextual [follow_unknown hl hm, lookup_cons, hnext, Enters]
        | some link =>
          obtain ⟨hin, hout⟩ := ih (p.next? m) (some m) ((m, b) :: listed)
          rw [follow_next hl hm]
          refine ⟨fun h => ?_, fun h => ?_⟩
          · by_cases hrest : p.Enters ((m, b) :: listed) (p.next? m) room n
            · exact hin hrest
            · obtain rfl : n = m := by simpa [hrest] using h
              simp [hout hrest]
          · obtain ⟨hnm, hrest⟩ : n ≠ m ∧ ¬ p.Enters ((m, b) :: listed) (p.next? m) room n := by
              simpa using h
            simp [hout hrest, lookup_cons, hnm]

/-- Following a list reports a loop if it goes on for too long or is not clear so far. -/
theorem cyclicBlock_mem_follow : .cyclicBlock c ∈ (p.follow b room cursor prev listed).violations ↔
    c = b ∧ ((p.along? room cursor).isSome ∨ ¬ p.Clear listed cursor room) := by
  induction room generalizing cursor prev listed with
  | zero =>
    cases cursor with
    | none => simp [follow, Clear]
    | some n => simp [follow, along?]
  | succ room ih =>
    cases cursor with
    | none => simp [follow, clear_none]
    | some n =>
      rw [clear_succ b]
      cases hl : listed.lookup n with
      | some d => simp [follow_known hl]
      | none =>
        cases hn : p.link? n with
        | none =>
          have hnext : p.next? n = none := by simp [next?, hn]
          simp [follow_unknown hl hn, along?, hnext, clear_none]
        | some link =>
          rw [follow_next hl hn]
          have hbroken : (.cyclicBlock c : Violation) ∉
              if link.block = some b ∧ link.prev = prev then [] else [.brokenLink b n link] := by
            split <;> simp
          simp only [List.mem_append, hbroken, false_or, ih]
          simp [along?]

/-- The check follows the list of block `b` to node `n`: it comes there in fewer steps than there
are nodes, and on the way to no node that the list of an earlier block comes to. -/
def Covers (p : Program) (b : BlockId) (n : NodeId) : Prop :=
  ∃ i < p.nodes.size, p.nth? b i = some n ∧
    ∀ j < i, ∀ m, p.nth? b j = some m → ∀ a, a.index < b.index → ¬ p.Meets a m

theorem Covers.meets (h : p.Covers b n) : p.Meets b n := by
  obtain ⟨i, _, hi, _⟩ := h
  exact ⟨i, hi⟩

/-- Of the blocks whose lists come to a node of the program, the first is followed to it. -/
theorem exists_covers (hn : p.hasNode n) (h : p.Meets a n) :
    ∃ c, c.index ≤ a.index ∧ p.Covers c n := by
  classical
  have hex : ∃ k, p.Meets ⟨k⟩ n := ⟨a.index, h⟩
  obtain ⟨i, hi⟩ := Nat.find_spec hex
  obtain ⟨j, _, hfirst⟩ := exists_firstAt hi
  refine ⟨⟨Nat.find hex⟩, Nat.find_min' hex h, j, hfirst.lt_size hn, hfirst.1, ?_⟩
  -- a list that comes to a node on the way comes to `n` as well
  rintro k hk m hm c hc ⟨t, ht⟩
  have hgo := along?_congr (ht.trans hm.symm) (j - k)
  rw [show k + (j - k) = j by omega, hfirst.1] at hgo
  exact Nat.find_min hex hc ⟨_, hgo⟩

/-- Each node is listed for the last of the first `k` blocks whose lists are followed to it. -/
structure Recorded (p : Program) (k : Nat) (listed : Listed) : Prop where
  last : ∀ n c, listed.lookup n = some c →
    c.index < k ∧ p.Covers c n ∧ ∀ a, c.index < a.index → a.index < k → ¬ p.Covers a n
  fresh : ∀ n, listed.lookup n = none → ∀ c, c.index < k → ¬ p.Covers c n

theorem recorded_nil (p : Program) : p.Recorded 0 [] where
  last n c h := by simp at h
  fresh n _ c hc := by omega

theorem Recorded.lookup_eq_some_iff (h : p.Recorded k listed) : listed.lookup n = some c ↔
    c.index < k ∧ p.Covers c n ∧ ∀ a, c.index < a.index → a.index < k → ¬ p.Covers a n := by
  refine ⟨h.last n c, fun ⟨hc, hcov, hlast⟩ => ?_⟩
  cases hl : listed.lookup n with
  | none => exact absurd hcov (h.fresh n hl c hc)
  | some d =>
    obtain ⟨hd, hdcov, hdlast⟩ := h.last n d hl
    rcases Nat.lt_trichotomy c.index d.index with hlt | heq | hgt
    · exact absurd hdcov (hlast d hlt hd)
    · rw [EntityId.ext heq]
    · exact absurd hcov (hdlast c hgt hc)

/-- Following a list from its head lists the nodes to which the list is followed. -/
theorem Recorded.enters_iff {e : Block} (h : p.Recorded b.index listed)
    (hb : p.blocks[b]? = some e) :
    p.Enters listed e.head p.nodes.size n ↔ p.Covers b n := by
  simp only [Enters, Covers, nth?_eq hb]
  constructor
  · rintro ⟨i, hi, hn, hclear⟩
    refine ⟨i, hi, hn, fun j hj m hm a ha hmeets => ?_⟩
    have hnode := hasNode_of_along? hm (j := i) (by simp [hn]) hj
    obtain ⟨c, hca, hcov⟩ := exists_covers hnode hmeets
    exact h.fresh m (hclear j hj m hm).1 c (by omega) hcov
  · rintro ⟨i, hi, hn, hway⟩
    obtain ⟨j, hji, hfirst⟩ := exists_firstAt hn
    refine ⟨j, by omega, hfirst.1, fun k hk m hm => ⟨?_, fun t ht => ?_⟩⟩
    · cases hl : listed.lookup m with
      | none => rfl
      | some c =>
        obtain ⟨hc, hcov, _⟩ := h.last m c hl
        exact absurd hcov.meets (hway k (by omega) m hm c hc)
    · exact hfirst.distinct (by omega) ht hm

/-- One more block. -/
theorem Recorded.checkBlock {e : Block} (h : p.Recorded b.index listed)
    (hb : p.blocks[b]? = some e) :
    p.Recorded (b.index + 1) (p.checkBlock b e listed).2 := by
  have hlook : ∀ n, (p.Covers b n → (p.checkBlock b e listed).2.lookup n = some b) ∧
      (¬ p.Covers b n → (p.checkBlock b e listed).2.lookup n = listed.lookup n) := by
    intro n
    rw [← h.enters_iff hb]
    exact p.lookup_follow b p.nodes.size e.head none listed n
  constructor
  · intro n c hc
    by_cases hn : p.Covers b n
    · obtain rfl : b = c := by simpa [(hlook n).1 hn] using hc
      exact ⟨by omega, hn, fun a hba hab => by omega⟩
    · rw [(hlook n).2 hn] at hc
      obtain ⟨hlt, hcov, hlast⟩ := h.last n c hc
      refine ⟨by omega, hcov, fun a hca hab hacov => ?_⟩
      rcases Nat.lt_or_ge a.index b.index with hlt' | hge
      · exact hlast a hca hlt' hacov
      · obtain rfl : a = b := EntityId.ext (by omega)
        exact hn hacov
  · intro n hnone c hc hcov
    by_cases hn : p.Covers b n
    · simp [(hlook n).1 hn] at hnone
    · rw [(hlook n).2 hn] at hnone
      rcases Nat.lt_or_ge c.index b.index with hlt | hge
      · exact h.fresh n hnone c hlt hcov
      · obtain rfl : c = b := EntityId.ext (by omega)
        exact hn hcov

/-- What makes a list look like a loop to the check: that it is one; a node to which the list of an
earlier block was followed; an unknown node after as many nodes as there are. -/
def SeemsCyclic (p : Program) (b : BlockId) : Prop :=
  p.Loops b ∨ (∃ a n, a.index < b.index ∧ p.Covers a n ∧ p.Meets b n) ∨
    ∃ n, p.nth? b p.nodes.size = some n ∧ p.hasNode n = false

theorem SeemsCyclic.exists_block (h : p.SeemsCyclic b) : ∃ e, p.blocks[b]? = some e := by
  rcases h with ⟨i, _, n, _, hi, _⟩ | ⟨_, _, _, _, hb⟩ | ⟨_, hn, _⟩
  · exact exists_block_of_meets ⟨i, hi⟩
  · exact exists_block_of_meets hb
  · exact exists_block_of_meets ⟨_, hn⟩

theorem Recorded.seemsCyclic_iff {e : Block} (h : p.Recorded b.index listed)
    (hb : p.blocks[b]? = some e) :
    ((p.along? p.nodes.size e.head).isSome ∨ ¬ p.Clear listed e.head p.nodes.size) ↔
      p.SeemsCyclic b := by
  simp only [SeemsCyclic, Loops, Meets, nth?_eq hb]
  constructor
  · rintro (hlong | hclear)
    · obtain ⟨n, hn⟩ := Option.isSome_iff_exists.1 hlong
      cases hnode : p.hasNode n with
      | false => exact .inr (.inr ⟨n, hn, hnode⟩)
      | true =>
        obtain ⟨i, j, m, hij, _, hi, hj⟩ := exists_loop hn hnode
        exact .inl ⟨i, j, m, hij, hi, hj⟩
    · simp only [Clear] at hclear
      push Not at hclear
      obtain ⟨j, hj, m, hm, hold⟩ := hclear
      cases hl : listed.lookup m with
      | none =>
        obtain ⟨k, hk, hkm⟩ := hold hl
        exact .inl ⟨k, j, m, hk, hkm, hm⟩
      | some c =>
        obtain ⟨hc, hcov, _⟩ := h.last m c hl
        exact .inr (.inl ⟨c, m, hc, hcov, j, hm⟩)
  · rintro (⟨i, j, n, hij, hi, hj⟩ | ⟨a, n, hab, hcov, i, hi⟩ | ⟨n, hn, _⟩)
    · exact .inl (isSome_along?_of_loop hij hi hj _)
    · -- the way gets as far as the shared node, or it gets too long before
      rcases Nat.lt_or_ge i p.nodes.size with hlt | hge
      · right
        intro hclear
        exact h.fresh n (hclear i hlt n hi).1 a hab hcov
      · exact .inl (isSome_along?_of_le (by simp [hi]) hge)
    · exact .inl (by simp [hn])

theorem Recorded.cyclicBlock_mem_checkBlock {e : Block} (h : p.Recorded b.index listed)
    (hb : p.blocks[b]? = some e) :
    .cyclicBlock c ∈ (p.checkBlock b e listed).1 ↔ c = b ∧ p.SeemsCyclic b := by
  simp [Program.checkBlock, cyclicBlock_mem_follow, h.seemsCyclic_iff hb]

theorem strayNode_notMem_follow :
    .strayNode n a ∉ (p.follow b room cursor prev listed).violations := by
  induction room generalizing cursor prev listed with
  | zero => cases cursor <;> simp [follow]
  | succ room ih =>
    cases cursor with
    | none => simp [follow]
    | some m =>
      cases hl : listed.lookup m with
      | some d => simp [follow_known hl]
      | none =>
        cases hm : p.link? m with
        | none => simp [follow_unknown hl hm]
        | some link => simp [follow_next hl hm, ih]

theorem strayNode_notMem_checkLists {bs : List (BlockId × Block)} :
    .strayNode n a ∉ (p.checkLists bs listed).1 := by
  induction bs generalizing listed with
  | nil => simp [checkLists]
  | cons be bs ih => simp [checkLists, Program.checkBlock, strayNode_notMem_follow, ih]

/-- The blocks from number `k` on, one after the other. -/
theorem Recorded.checkLists {bs : List (BlockId × Block)} (h : p.Recorded k listed)
    (hbs : ∀ i b e, bs[i]? = some (b, e) → b.index = k + i ∧ p.blocks[b]? = some e) :
    p.Recorded (k + bs.length) (p.checkLists bs listed).2 ∧
      ∀ c, .cyclicBlock c ∈ (p.checkLists bs listed).1 ↔
        c ∈ bs.map Prod.fst ∧ p.SeemsCyclic c := by
  induction bs generalizing k listed with
  | nil => exact ⟨h, by simp [Program.checkLists]⟩
  | cons be bs ih =>
    obtain ⟨b, e⟩ := be
    obtain ⟨rfl, hb⟩ := hbs 0 b e rfl
    have hnext : ∀ i b' e', bs[i]? = some (b', e') →
        b'.index = b.index + 1 + i ∧ p.blocks[b']? = some e' := by
      intro i b' e' hi
      obtain ⟨hindex, hb'⟩ := hbs (i + 1) b' e' hi
      exact ⟨by omega, hb'⟩
    obtain ⟨hr, hcyclic⟩ := ih (h.checkBlock hb) hnext
    refine ⟨?_, fun c => ?_⟩
    · rw [List.length_cons, show b.index + (bs.length + 1) = b.index + 1 + bs.length by omega]
      exact hr
    · simp only [Program.checkLists, List.mem_append, h.cyclicBlock_mem_checkBlock hb, hcyclic,
        List.map_cons, List.mem_cons]
      grind

/-- All blocks. -/
theorem checkLists_blocks (p : Program) :
    p.Recorded p.blocks.size (p.checkLists p.blocks.toAssoc []).2 ∧
      ∀ c, .cyclicBlock c ∈ (p.checkLists p.blocks.toAssoc []).1 ↔ p.SeemsCyclic c := by
  have hbs : ∀ i b e, p.blocks.toAssoc[i]? = some (b, e) →
      b.index = 0 + i ∧ p.blocks[b]? = some e := by
    intro i b e hi
    rw [Nat.zero_add]
    exact Table.getElem?_toAssoc hi
  obtain ⟨hr, hcyclic⟩ := p.recorded_nil.checkLists hbs
  refine ⟨by simpa using hr, fun c => ?_⟩
  rw [hcyclic c, and_iff_right_iff_imp]
  intro hc
  obtain ⟨e, he⟩ := hc.exists_block
  exact List.mem_map.2 ⟨(c, e), Table.mem_toAssoc.2 he, rfl⟩

theorem ofLists_of_mem_checkDeclaration {node : Node} {v : Violation}
    (h : v ∈ p.checkDeclaration n node) : v.ofLists = false := by
  unfold checkDeclaration at h
  grind [Violation.ofLists]

/-- What is said about lists comes from the check of the blocks. -/
theorem mem_check_iff {v : Violation} (hv : v.ofLists) : v ∈ p.check ↔ v ∈ p.checkBlocks := by
  have hdefinitions : v ∉ p.checkDefinitions := by
    simp only [checkDefinitions, List.mem_append, List.mem_flatMap, not_or]
    constructor
    · rintro ⟨⟨n, node⟩, _, h⟩
      simp [ofLists_of_mem_checkDeclaration h] at hv
    · rintro ⟨symbol, _, h⟩
      simp only [checkDefinition] at h
      grind [Violation.ofLists]
  have hrooting : v ∉ p.checkRooting := by
    simp only [checkRooting, List.mem_flatMap]
    rintro ⟨symbol, _, h⟩
    simp only [checkRoot] at h
    grind [Violation.ofLists]
  simp [check, hdefinitions, hrooting]

theorem cyclicBlock_notMem_checkStray {node : Node} :
    .cyclicBlock b ∉ checkStray listed n node := by
  unfold checkStray
  split
  · simp
  · split <;> simp

theorem cyclicBlock_mem_checkBlocks : .cyclicBlock b ∈ p.checkBlocks ↔ p.SeemsCyclic b := by
  rw [← p.checkLists_blocks.2 b]
  simp [checkBlocks, cyclicBlock_notMem_checkStray]

theorem strayNode_mem_checkStray {node : Node} : .strayNode n b ∈ checkStray listed m node ↔
    m = n ∧ node.link.block = some b ∧ listed.lookup n ≠ some b := by
  unfold checkStray
  split
  · next hnone => simp [hnone]
  · next c hc => split <;> grind

/-- The blocks list a node last for the last block whose list is followed to it. -/
theorem lookup_checkLists : (p.checkLists p.blocks.toAssoc []).2.lookup n = some b ↔
    p.Covers b n ∧ ∀ c, b.index < c.index → ¬ p.Covers c n := by
  have hsize : ∀ c, p.Covers c n → c.index < p.blocks.size := by
    intro c hc
    obtain ⟨e, he⟩ := exists_block_of_meets hc.meets
    exact Table.lt_size_of_getElem? he
  rw [p.checkLists_blocks.1.lookup_eq_some_iff]
  constructor
  · rintro ⟨_, hcov, hlast⟩
    exact ⟨hcov, fun c hbc hc => hlast c hbc (hsize c hc) hc⟩
  · rintro ⟨hcov, hlast⟩
    exact ⟨hsize b hcov, hcov, fun c hbc _ => hlast c hbc⟩

theorem strayNode_mem_checkBlocks : .strayNode n b ∈ p.checkBlocks ↔
    p.block? n = some b ∧ ¬ (p.Covers b n ∧ ∀ c, b.index < c.index → ¬ p.Covers c n) := by
  rw [← lookup_checkLists]
  simp only [checkBlocks, List.mem_append, strayNode_notMem_checkLists, false_or, List.mem_flatMap,
    Prod.exists, Table.mem_toAssoc, strayNode_mem_checkStray]
  constructor
  · rintro ⟨m, node, hm, rfl, hblock, hlast⟩
    exact ⟨by simp [block?, link?, hm, hblock], hlast⟩
  · rintro ⟨hblock, hlast⟩
    obtain ⟨link, hlink, hb⟩ := Option.bind_eq_some_iff.1 hblock
    obtain ⟨node, hnode, rfl⟩ := Option.map_eq_some_iff.1 hlink
    exact ⟨n, node, hnode, rfl, hb, hlast⟩

/-- A node is reported to be missing from the list of its block, unless that is the last block whose
list is followed to it. If no other list comes to the node, the report is exact. -/
theorem strayNode_reported (p : Program) (n : NodeId) (b : BlockId) :
    (.strayNode n b ∈ p.check ↔
      p.block? n = some b ∧ (¬ p.Covers b n ∨ ∃ c, b.index < c.index ∧ p.Covers c n)) ∧
    ((∀ a, a ≠ b → ¬ p.Meets a n) →
      (.strayNode n b ∈ p.check ↔ p.block? n = some b ∧ ¬ p.Meets b n)) := by
  rw [mem_check_iff rfl, strayNode_mem_checkBlocks]
  constructor
  · grind
  · intro halone
    refine and_congr_right fun hblock => not_congr ⟨fun h => h.1.meets, fun hmeets => ?_⟩
    have hnode : p.hasNode n := by
      obtain ⟨link, hlink, _⟩ := Option.bind_eq_some_iff.1 hblock
      obtain ⟨node, hnode⟩ := Edit.exists_node hlink
      simp [hasNode, hnode]
    obtain ⟨c, _, hcov⟩ := exists_covers hnode hmeets
    obtain rfl : c = b := by
      by_contra hne
      exact halone c hne hcov.meets
    refine ⟨hcov, fun d hcd hd => halone d ?_ hd.meets⟩
    rintro rfl
    omega

/-- A block with one node, and a second node that names the block but comes after nothing. -/
def leftBehind : Program where
  nodes := ⟨#[
    { kind := .literal (.int 0), link := ⟨some ⟨0⟩, none, none⟩ },
    { kind := .literal (.int 1), link := ⟨some ⟨0⟩, some ⟨0⟩, none⟩ }]⟩
  blocks := ⟨#[{ head := some ⟨0⟩, tail := some ⟨0⟩, length := 1 }]⟩
  symbols := .empty
  roots := []

/-- The second node is reported and is not in the list; the first is in it and not reported. -/
theorem strayNode_reported_leftBehind :
    (∀ a n, a ≠ ⟨0⟩ → ¬ leftBehind.Meets a n) ∧
    (.strayNode ⟨1⟩ ⟨0⟩ ∈ leftBehind.check ∧ ¬ leftBehind.Meets ⟨0⟩ ⟨1⟩) ∧
    leftBehind.Meets ⟨0⟩ ⟨0⟩ ∧ .strayNode ⟨0⟩ ⟨0⟩ ∉ leftBehind.check := by
  have halone : ∀ a n, a ≠ ⟨0⟩ → ¬ leftBehind.Meets a n := by
    intro a n ha hmeets
    obtain ⟨e, he⟩ := exists_block_of_meets hmeets
    have hlt : a.index < 1 := Table.lt_size_of_getElem? he
    exact ha (EntityId.ext (Nat.lt_one_iff.1 hlt))
  have hreport : .strayNode ⟨1⟩ ⟨0⟩ ∈ leftBehind.check := by decide
  have hmeets : leftBehind.Meets ⟨0⟩ ⟨0⟩ := ⟨0, rfl⟩
  have hmissing := ((leftBehind.strayNode_reported ⟨1⟩ ⟨0⟩).2 fun a => halone a ⟨1⟩).1 hreport
  refine ⟨halone, ⟨hreport, hmissing.2⟩, hmeets, fun h => ?_⟩
  exact (((leftBehind.strayNode_reported ⟨0⟩ ⟨0⟩).2 fun a => halone a ⟨0⟩).1 h).2 hmeets

/-- Two blocks with one list. Each of its two nodes names one of the blocks. -/
def oneListTwice : Program where
  nodes := ⟨#[
    { kind := .literal (.int 0), link := ⟨some ⟨0⟩, none, some ⟨1⟩⟩ },
    { kind := .literal (.int 1), link := ⟨some ⟨1⟩, some ⟨0⟩, none⟩ }]⟩
  blocks := ⟨#[
    { head := some ⟨0⟩, tail := some ⟨1⟩, length := 2 },
    { head := some ⟨0⟩, tail := some ⟨1⟩, length := 2 }]⟩
  symbols := .empty
  roots := []

/-- Both nodes are in the list of the block that they name, and are reported to be missing there. -/
theorem not_strayNode_iff :
    ¬ (.strayNode ⟨0⟩ ⟨0⟩ ∈ oneListTwice.check ↔
      oneListTwice.block? ⟨0⟩ = some ⟨0⟩ ∧ ¬ oneListTwice.Meets ⟨0⟩ ⟨0⟩) ∧
    ¬ (.strayNode ⟨1⟩ ⟨1⟩ ∈ oneListTwice.check ↔
      oneListTwice.block? ⟨1⟩ = some ⟨1⟩ ∧ ¬ oneListTwice.Meets ⟨1⟩ ⟨1⟩) := by
  have hfirst : .strayNode ⟨0⟩ ⟨0⟩ ∈ oneListTwice.check := by decide
  have hsecond : .strayNode ⟨1⟩ ⟨1⟩ ∈ oneListTwice.check := by decide
  exact ⟨fun h => (h.1 hfirst).2 ⟨0, rfl⟩, fun h => (h.1 hsecond).2 ⟨1, rfl⟩⟩

/-- A block is reported to loop if its list does, but also if the list comes to a node of an earlier
list, or to an unknown node after as many nodes as there are. -/
theorem cyclicBlock_reported (p : Program) (b : BlockId) :
    .cyclicBlock b ∈ p.check ↔ p.Loops b ∨
      (∃ a n, a.index < b.index ∧ p.Covers a n ∧ p.Meets b n) ∨
      ∃ n, p.nth? b p.nodes.size = some n ∧ p.hasNode n = false := by
  rw [mem_check_iff rfl]
  exact cyclicBlock_mem_checkBlocks

/-- A block with the only node, after which an unknown one should come. -/
def openEnd : Program where
  nodes := ⟨#[{ kind := .literal (.int 0), link := ⟨some ⟨0⟩, none, some ⟨7⟩⟩ }]⟩
  blocks := ⟨#[{ head := some ⟨0⟩, tail := some ⟨0⟩, length := 1 }]⟩
  symbols := .empty
  roots := []

/-- Neither list comes to a node twice, and both are reported to loop. -/
theorem not_cyclicBlock_iff :
    ¬ (.cyclicBlock ⟨1⟩ ∈ oneListTwice.check ↔ oneListTwice.Loops ⟨1⟩) ∧
    ¬ (.cyclicBlock ⟨0⟩ ∈ openEnd.check ↔ openEnd.Loops ⟨0⟩) := by
  have hshared : .cyclicBlock ⟨1⟩ ∈ oneListTwice.check := by decide
  have hopen : .cyclicBlock ⟨0⟩ ∈ openEnd.check := by decide
  have hnone : oneListTwice.nth? ⟨1⟩ 2 = none := rfl
  have hnone' : openEnd.nth? ⟨0⟩ 2 = none := rfl
  exact ⟨fun h => not_loops_of_nth? hnone (h.1 hshared),
    fun h => not_loops_of_nth? hnone' (h.1 hopen)⟩

end Program
end Hoist
