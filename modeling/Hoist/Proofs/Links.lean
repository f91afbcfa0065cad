import Mathlib.Data.Fintype.Pigeonhole
import Mathlib.Data.List.Nodup
import Mathlib.Data.List.Perm.Subperm
import Hoist.Program.Edit

/-! The lists that are threaded through the links of nodes, seen as plain lists. -/
namespace Hoist

/-- Distinct identifiers of entries are no more than there are entries. -/
theorem Table.length_le_size {e : Entity} {α : Type} {t : Table e α} {l : List (EntityId e)}
    (hl : l.Nodup) (h : ∀ i ∈ l, i.index < t.size) : l.length ≤ t.size := by
  have hi : (l.map EntityId.index).Nodup := hl.map fun _ _ => EntityId.ext
  have hs : l.map EntityId.index ⊆ List.range t.size := by
    intro k hk
    obtain ⟨i, hil, rfl⟩ := List.mem_map.1 hk
    exact List.mem_range.2 (h i hil)
  simpa using (hi.subperm hs).length_le

/-- A way that leads from entry to entry, more often than there are entries, comes to one twice. -/
theorem Table.exists_repeated {e : Entity} {α : Type} {t : Table e α}
    {way : Nat → Option (EntityId e)}
    (h : ∀ i ≤ t.size, ∃ x, way i = some x ∧ (t[x]?).isSome) :
    ∃ i j x, i < j ∧ j ≤ t.size ∧ way i = some x ∧ way j = some x := by
  choose f hway hentry using fun i : Fin (t.size + 1) => h i (by omega)
  have hlt : ∀ i, (f i).index < t.size := by
    intro i
    obtain ⟨a, ha⟩ := Option.isSome_iff_exists.1 (hentry i)
    exact Table.lt_size_of_getElem? ha
  obtain ⟨i, j, hne, heq⟩ := Fintype.exists_ne_map_eq_of_card_lt
    (fun i => (⟨(f i).index, hlt i⟩ : Fin t.size)) (by simp)
  have hsame : f i = f j := EntityId.ext (by simpa using heq)
  rcases Nat.lt_or_gt_of_ne (Fin.val_ne_of_ne hne) with hij | hji
  · exact ⟨i, j, f i, hij, by omega, hway i, hsame ▸ hway j⟩
  · exact ⟨j, i, f i, hji, by omega, hsame ▸ hway j, hway i⟩

namespace Program

variable {p q : Program} {b c : BlockId} {n m : NodeId} {l l₁ l₂ : List NodeId}
  {prev next : Option NodeId}

/-- The nodes of `l` follow each other in block `b`, after `prev` and before `next`. -/
def Segment (p : Program) (b : BlockId) : (prev : Option NodeId) → List NodeId →
    (next : Option NodeId) → Prop
  | _, [], _ => True
  | prev, n :: rest, next =>
    p.link? n = some ⟨some b, prev, rest.head?.or next⟩ ∧ Segment p b (some n) rest next

/-- Block `b` is exactly the list `l`, both in its own record and in the links of the nodes. -/
structure Lists (p : Program) (b : BlockId) (l : List NodeId) : Prop where
  nodup : l.Nodup
  segment : p.Segment b none l none
  block : ∃ owner, p.blocks[b]? = some ⟨owner, l.head?, l.getLast?, l.length⟩

/-- Every block is a list, and a node that names a block stands in that list. -/
structure Linked (p : Program) : Prop where
  lists : ∀ b, (p.blocks[b]?).isSome → p.Lists b (p.members b)
  held : ∀ n b, p.block? n = some b → (p.blocks[b]?).isSome ∧ n ∈ p.members b

@[simp] theorem segment_nil : p.Segment b prev [] next := trivial

theorem segment_cons : p.Segment b prev (n :: l) next ↔
    p.link? n = some ⟨some b, prev, l.head?.or next⟩ ∧ p.Segment b (some n) l next := Iff.rfl

theorem segment_append : p.Segment b prev (l₁ ++ l₂) next ↔
    p.Segment b prev l₁ (l₂.head?.or next) ∧ p.Segment b (l₁.getLast?.or prev) l₂ next := by
  induction l₁ generalizing prev with
  | nil => simp
  | cons n l₁ ih =>
    have hlast : ((n :: l₁).getLast?.or prev) = l₁.getLast?.or (some n) := by
      cases h : l₁.getLast? <;> simp [List.getLast?_cons, h]
    have hhead : ((l₁ ++ l₂).head?.or next) = l₁.head?.or (l₂.head?.or next) := by
      cases l₁ <;> simp
    rw [List.cons_append, segment_cons, segment_cons, ih, hlast, hhead, and_assoc]

theorem segment_congr (h : ∀ n ∈ l, q.link? n = p.link? n) :
    q.Segment b prev l next ↔ p.Segment b prev l next := by
  induction l generalizing prev with
  | nil => simp
  | cons n l ih =>
    rw [segment_cons, segment_cons, h n (by simp), ih fun m hm => h m (by simp [hm])]

/-- A segment said position by position. -/
theorem segment_iff_getElem? : p.Segment b prev l next ↔ ∀ i n, l[i]? = some n →
    p.link? n = some ⟨some b, if i = 0 then prev else l[i - 1]?, l[i + 1]?.or next⟩ := by
  induction l generalizing prev with
  | nil => simp
  | cons m l ih =>
    rw [segment_cons, ih]
    constructor
    · rintro ⟨hm, hl⟩ i n hn
      cases i with
      | zero =>
        obtain rfl : m = n := by simpa using hn
        simpa [List.head?_eq_getElem?] using hm
      | succ i =>
        rw [hl i n (by simpa using hn)]
        cases i <;> simp
    · intro h
      refine ⟨by simpa [List.head?_eq_getElem?] using h 0 m rfl, fun i n hn => ?_⟩
      rw [h (i + 1) n (by simpa using hn)]
      cases i <;> simp

theorem Segment.block? (h : p.Segment b prev l next) (hn : n ∈ l) : p.block? n = some b := by
  obtain ⟨l₁, l₂, rfl⟩ := List.append_of_mem hn
  have hl := (segment_cons.1 (segment_append.1 h).2).1
  simp [Program.block?, hl]

theorem chain_eq {room : Nat} (h : p.Segment b prev l none) (hr : l.length ≤ room) :
    p.chain room l.head? = l := by
  induction l generalizing prev room with
  | nil => cases room <;> rfl
  | cons n l ih =>
    obtain ⟨hn, hl⟩ := segment_cons.1 h
    cases room with
    | zero => simp at hr
    | succ room =>
      have hnext : p.next? n = l.head? := by simp [next?, hn]
      simp only [List.head?_cons, chain, hnext]
      rw [ih hl (by simpa using hr)]

theorem lt_size_of_link? {link : Link} (h : p.link? n = some link) :
    n.index < p.nodes.size := by
  obtain ⟨node, hn, _⟩ := Option.map_eq_some_iff.1 h
  exact Table.lt_size_of_getElem? hn

theorem lt_size_of_block? (h : p.block? n = some b) : n.index < p.nodes.size := by
  obtain ⟨link, hl, _⟩ := Option.bind_eq_some_iff.1 h
  exact lt_size_of_link? hl

theorem Lists.block?_eq (h : p.Lists b l) (hn : n ∈ l) : p.block? n = some b :=
  h.segment.block? hn

theorem Lists.isSome (h : p.Lists b l) : (p.blocks[b]?).isSome := by
  obtain ⟨owner, hb⟩ := h.block
  simp [hb]

theorem Lists.members_eq (h : p.Lists b l) : p.members b = l := by
  obtain ⟨owner, hb⟩ := h.block
  have hr := Table.length_le_size h.nodup fun n hn => lt_size_of_block? (h.block?_eq hn)
  simp only [members, hb]
  exact chain_eq h.segment hr

theorem members_of_none (h : p.blocks[b]? = none) : p.members b = [] := by
  simp only [members, h]
  cases p.nodes.size <;> rfl

/-- Lists given from outside are the program's own. -/
theorem Linked.of_lists (f : BlockId → List NodeId)
    (hl : ∀ b, (p.blocks[b]?).isSome → p.Lists b (f b))
    (hh : ∀ n b, p.block? n = some b → (p.blocks[b]?).isSome ∧ n ∈ f b) : p.Linked where
  lists b hb := by rw [(hl b hb).members_eq]; exact hl b hb
  held n b hn := by
    obtain ⟨hb, hm⟩ := hh n b hn
    rw [(hl b hb).members_eq]
    exact ⟨hb, hm⟩

theorem Linked.mem_members (hp : p.Linked) : n ∈ p.members b ↔ p.block? n = some b := by
  constructor
  · intro hn
    cases hb : p.blocks[b]? with
    | none => simp [members_of_none hb] at hn
    | some e => exact (hp.lists b (by simp [hb])).block?_eq hn
  · exact fun hn => (hp.held n b hn).2

theorem Linked.nodup_members (hp : p.Linked) (b : BlockId) : (p.members b).Nodup := by
  cases hb : p.blocks[b]? with
  | none => simp [members_of_none hb]
  | some e => exact (hp.lists b (by simp [hb])).nodup

end Program
end Hoist
