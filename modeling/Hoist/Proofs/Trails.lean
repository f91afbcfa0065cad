import Hoist.Proofs.Links

/-! The lists of blocks as the next links have them, on any program. -/
namespace Hoist.Program

variable {p : Program} {b : BlockId} {m n : NodeId} {i j k : Nat} {cursor : Option NodeId}

/-- The node `i` steps after `cursor` along the next links. -/
def along? (p : Program) : (i : Nat) → (cursor : Option NodeId) → Option NodeId
  | 0, cursor => cursor
  | i + 1, cursor => p.along? i (cursor.bind p.next?)

/-- The node at place `i` of a block's list. A list that loops has a node at every place. -/
def nth? (p : Program) (b : BlockId) (i : Nat) : Option NodeId :=
  p.along? i (do (← p.blocks[b]?).head)

/-- The list of block `b` comes to node `n`. -/
def Meets (p : Program) (b : BlockId) (n : NodeId) : Prop := ∃ i, p.nth? b i = some n

/-- The list of block `b` comes to some node twice. -/
def Loops (p : Program) (b : BlockId) : Prop :=
  ∃ i j n, i < j ∧ p.nth? b i = some n ∧ p.nth? b j = some n

@[simp] theorem along?_none (p : Program) (i : Nat) : p.along? i none = none := by
  induction i with
  | zero => rfl
  | succ i ih => exact ih

theorem along?_add (p : Program) (i j : Nat) (cursor : Option NodeId) :
    p.along? (i + j) cursor = p.along? j (p.along? i cursor) := by
  induction i generalizing cursor with
  | zero => rw [Nat.zero_add, along?]
  | succ i ih =>
    rw [Nat.add_right_comm, along?, along?]
    exact ih _

/-- Two ways that have met go on together. -/
theorem along?_congr {cursor' : Option NodeId} (h : p.along? i cursor = p.along? j cursor')
    (d : Nat) : p.along? (i + d) cursor = p.along? (j + d) cursor' := by
  rw [along?_add, along?_add, h]

theorem isSome_along?_of_le (h : (p.along? j cursor).isSome) (hij : i ≤ j) :
    (p.along? i cursor).isSome := by
  obtain ⟨d, rfl⟩ := Nat.exists_eq_add_of_le hij
  rw [along?_add] at h
  cases hi : p.along? i cursor with
  | none => simp [hi] at h
  | some n => rfl

/-- A node after which something comes is a node of the program. -/
theorem hasNode_of_along? (hi : p.along? i cursor = some n) (hj : (p.along? j cursor).isSome)
    (hij : i < j) : p.hasNode n := by
  have hnext := isSome_along?_of_le (i := i + 1) hj hij
  rw [along?_add, hi] at hnext
  cases hn : p.nodes[n]? with
  | none => simp [along?, next?, link?, hn] at hnext
  | some node => simp [hasNode, hn]

/-- The way to a node of the program leads over nodes of the program. -/
theorem exists_along?_of_le (hj : p.along? j cursor = some n) (hn : p.hasNode n) (hij : i ≤ j) :
    ∃ m, p.along? i cursor = some m ∧ p.hasNode m := by
  have hsome : (p.along? j cursor).isSome := by simp [hj]
  rcases Nat.lt_or_eq_of_le hij with hlt | rfl
  · obtain ⟨m, hm⟩ := Option.isSome_iff_exists.1 (isSome_along?_of_le hsome hij)
    exact ⟨m, hm, hasNode_of_along? hm hsome hlt⟩
  · exact ⟨n, hj, hn⟩

/-- Once the way has come back to a node, it never ends. -/
theorem isSome_along?_of_loop (hij : i < j) (hi : p.along? i cursor = some n)
    (hj : p.along? j cursor = some n) (k : Nat) : (p.along? k cursor).isSome := by
  have hround : ∀ t, p.along? (i + t * (j - i)) cursor = some n := by
    intro t
    induction t with
    | zero => simpa using hi
    | succ t ih =>
      have hnext := along?_congr (hi.trans ih.symm) (j - i)
      rw [show i + (j - i) = j by omega, hj, Nat.add_assoc, ← Nat.succ_mul] at hnext
      exact hnext.symm
  have hk : k ≤ k * (j - i) := Nat.le_mul_of_pos_right k (by omega)
  exact isSome_along?_of_le (by simp [hround k]) (show k ≤ i + k * (j - i) by omega)

/-- As many steps as there are nodes, if they lead to a node, have come to some node twice. -/
theorem exists_loop (h : p.along? p.nodes.size cursor = some n) (hn : p.hasNode n) :
    ∃ i j m, i < j ∧ j ≤ p.nodes.size ∧ p.along? i cursor = some m ∧
      p.along? j cursor = some m :=
  Table.exists_repeated fun _ hi => exists_along?_of_le h hn hi

/-- `n` is at place `i` from `cursor` on, and at no place before. -/
def FirstAt (p : Program) (cursor : Option NodeId) (n : NodeId) (i : Nat) : Prop :=
  p.along? i cursor = some n ∧ ∀ j < i, p.along? j cursor ≠ some n

theorem exists_firstAt (h : p.along? i cursor = some n) : ∃ j ≤ i, p.FirstAt cursor n j := by
  classical
  have hex : ∃ j, p.along? j cursor = some n := ⟨i, h⟩
  exact ⟨Nat.find hex, Nat.find_min' hex h, Nat.find_spec hex, fun j hj => Nat.find_min hex hj⟩

/-- Up to the place where a node comes first, no node comes twice. -/
theorem FirstAt.distinct (h : p.FirstAt cursor n i) (hj : j ≤ i) (hk : k < j)
    (hm : p.along? j cursor = some m) : p.along? k cursor ≠ some m := by
  intro hkm
  have hearlier := along?_congr (hkm.trans hm.symm) (i - j)
  rw [show j + (i - j) = i by omega, h.1] at hearlier
  exact h.2 (k + (i - j)) (by omega) hearlier

/-- A node of the program is reached in fewer steps than there are nodes, if at all. -/
theorem FirstAt.lt_size (h : p.FirstAt cursor n i) (hn : p.hasNode n) : i < p.nodes.size := by
  by_contra hle
  obtain ⟨m, hm, hnode⟩ := exists_along?_of_le h.1 hn (show p.nodes.size ≤ i by omega)
  obtain ⟨k, j, m', hkj, hjs, hk, hj⟩ := exists_loop hm hnode
  exact h.distinct (by omega) hkj hj hk

theorem nth?_eq {e : Block} (hb : p.blocks[b]? = some e) (i : Nat) :
    p.nth? b i = p.along? i e.head := by
  simp [nth?, hb]

theorem exists_block_of_meets (h : p.Meets b n) : ∃ e, p.blocks[b]? = some e := by
  obtain ⟨i, hi⟩ := h
  cases hb : p.blocks[b]? with
  | none => simp [nth?, hb] at hi
  | some e => exact ⟨e, rfl⟩

theorem not_loops_of_nth? (h : p.nth? b k = none) : ¬ p.Loops b := by
  rintro ⟨i, j, n, hij, hi, hj⟩
  have hsome := isSome_along?_of_loop hij hi hj k
  change (p.nth? b k).isSome at hsome
  simp [h] at hsome

end Hoist.Program
