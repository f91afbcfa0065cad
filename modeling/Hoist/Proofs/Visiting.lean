import Mathlib.Logic.Relation
import Hoist.Proofs.Flattening
import Hoist.Proofs.Stored

/-! The traversal of a program as a loop over a stack, and as a recursion. -/
namespace Hoist.Program

variable {p : Program} {n m : NodeId} {k : NodeKind} {room : Nat}
  {order stack pending visited ns l : List NodeId}

/-- `n` is an operand of `m` or stands in its body. -/
def DirectlyBelow (p : Program) (m n : NodeId) : Prop :=
  ∃ k, p.kind? m = some k ∧ n ∈ k.operands ++ p.body k

/-- `n` can be reached from one of the roots. -/
def BelowRoots (p : Program) (n : NodeId) : Prop :=
  ∃ root ∈ p.roots, Relation.ReflTransGen p.DirectlyBelow root n

/-- The recursive pre-order below some nodes: each node that exists, then what is below its
operands, then what is below the nodes of its body. There is no such list if the recursion does not
end. -/
inductive Unfolds (p : Program) : List NodeId → List NodeId → Prop
  | nil : Unfolds p [] []
  | unknown {n : NodeId} {ns l : List NodeId} (hn : p.kind? n = none) (hr : Unfolds p ns l) :
    Unfolds p (n :: ns) l
  | node {n : NodeId} {k : NodeKind} {ns operands body rest : List NodeId}
    (hn : p.kind? n = some k) (ho : Unfolds p k.operands operands)
    (hb : Unfolds p (p.body k) body) (hr : Unfolds p ns rest) :
    Unfolds p (n :: ns) (n :: (operands ++ (body ++ rest)))

/-- The loop, from the nodes that it has listed and a stack, whose top comes last, to all the nodes
that it lists. It stops when the stack is empty or when more nodes are listed than there are. -/
inductive Visits (p : Program) : (order stack : List NodeId) → (visited : List NodeId) → Prop
  | done {order : List NodeId} : Visits p order [] order
  | skip {order stack visited : List NodeId} {n : NodeId} (hn : p.kind? n = none)
    (hr : Visits p order stack visited) : Visits p order (stack ++ [n]) visited
  | full {order stack : List NodeId} {n : NodeId} {k : NodeKind} (hn : p.kind? n = some k)
    (hfull : p.nodes.size < (order ++ [n]).length) :
    Visits p order (stack ++ [n]) (order ++ [n])
  | visit {order stack visited : List NodeId} {n : NodeId} {k : NodeKind}
    (hn : p.kind? n = some k) (hroom : (order ++ [n]).length ≤ p.nodes.size)
    (hr : Visits p (order ++ [n]) (stack ++ (p.body k).reverse ++ k.operands.reverse) visited) :
    Visits p order (stack ++ [n]) visited

theorem hasNode_of_kind? (hn : p.kind? n = some k) : p.hasNode n = true := by
  obtain ⟨node, hnode, _⟩ := kind?_eq_some_iff.1 hn
  simp [hasNode, hnode]

theorem hasNode_of_kind?_eq_none (hn : p.kind? n = none) : p.hasNode n = false := by
  have hnode : p.nodes[n]? = none := by simpa [kind?] using hn
  simp [hasNode, hnode]

theorem children_eq (hn : p.kind? n = some k) :
    p.children n = (k.operands ++ p.body k).filter p.hasNode := by
  simp [children, hn, body]

/-- Every step of the loop is one of the traversal's, apart from nodes that do not exist. -/
theorem Visits.eq_append (h : p.Visits order stack visited) (hle : order.length ≤ p.nodes.size) :
    visited = order ++
      p.preorderFrom (p.nodes.size + 1 - order.length) (stack.reverse.filter p.hasNode) := by
  induction h with
  | done => simp [preorderFrom_nil]
  | skip hn _ ih =>
    rw [ih hle]
    simp [hasNode_of_kind?_eq_none hn]
  | @full order stack n k hn hfull =>
    have hroom : p.nodes.size + 1 - order.length = 1 := by
      simp only [List.length_append, List.length_singleton] at hfull
      omega
    simp [hroom, hasNode_of_kind? hn, preorderFrom]
  | @visit order stack visited n k hn hroom _ ih =>
    have hsucc : p.nodes.size + 1 - order.length =
        p.nodes.size + 1 - (order ++ [n]).length + 1 := by
      simp only [List.length_append, List.length_singleton] at hroom ⊢
      omega
    rw [ih hroom, hsucc]
    simp [hasNode_of_kind? hn, preorderFrom, children_eq hn]

/-- The loop ends. Each node that it lists leaves less room, and each node that it skips leaves a
smaller stack. -/
theorem exists_visits (p : Program) (room : Nat) (order pending : List NodeId)
    (hroom : order.length + room = p.nodes.size) :
    ∃ visited, p.Visits order pending.reverse visited := by
  match pending with
  | [] => exact ⟨order, .done⟩
  | n :: pending =>
    rw [List.reverse_cons]
    cases hn : p.kind? n with
    | none =>
      obtain ⟨visited, hr⟩ := exists_visits p room order pending hroom
      exact ⟨visited, .skip hn hr⟩
    | some k =>
      cases room with
      | zero => exact ⟨_, .full hn (by simp; omega)⟩
      | succ room =>
        have hnext : (order ++ [n]).length + room = p.nodes.size := by
          simp only [List.length_append, List.length_singleton]
          omega
        obtain ⟨visited, hr⟩ :=
          exists_visits p room (order ++ [n]) (k.operands ++ p.body k ++ pending) hnext
        exact ⟨visited, .visit hn (by omega) (by simpa using hr)⟩
termination_by (room, pending.length)

theorem length_preorderFrom_le (p : Program) (room : Nat) (pending : List NodeId) :
    (p.preorderFrom room pending).length ≤ room := by
  induction room generalizing pending with
  | zero => simp [preorderFrom]
  | succ room ih =>
    cases pending with
    | nil => simp [preorderFrom]
    | cons n pending =>
      have := ih (p.children n ++ pending)
      simp only [preorderFrom, List.length_cons]
      omega

theorem directlyBelow_of_mem_children (h : n ∈ p.children m) :
    p.DirectlyBelow m n ∧ p.hasNode n = true := by
  cases hm : p.kind? m with
  | none => simp [children, hm] at h
  | some k =>
    rw [children_eq hm] at h
    obtain ⟨hmem, hn⟩ := List.mem_filter.1 h
    exact ⟨⟨k, hm, hmem⟩, hn⟩

/-- What the traversal meets exists and stands below one of the nodes that it starts from. -/
theorem mem_preorderFrom (h : n ∈ p.preorderFrom room pending)
    (hp : ∀ m ∈ pending, p.hasNode m = true) :
    p.hasNode n = true ∧ ∃ m ∈ pending, Relation.ReflTransGen p.DirectlyBelow m n := by
  induction room generalizing pending with
  | zero => simp [preorderFrom] at h
  | succ room ih =>
    cases pending with
    | nil => simp [preorderFrom] at h
    | cons m pending =>
      rcases List.mem_cons.1 h with rfl | h
      · exact ⟨hp n (by simp), n, by simp, .refl⟩
      · obtain ⟨hn, r, hr, hreach⟩ := ih h (by
          intro r hr
          rcases List.mem_append.1 hr with hr | hr
          · exact (directlyBelow_of_mem_children hr).2
          · exact hp r (by simp [hr]))
        refine ⟨hn, ?_⟩
        rcases List.mem_append.1 hr with hr | hr
        · exact ⟨m, by simp, hreach.head (directlyBelow_of_mem_children hr).1⟩
        · exact ⟨r, by simp [hr], hreach⟩

theorem Unfolds.hasNode (h : p.Unfolds ns l) (hn : n ∈ l) : p.hasNode n = true := by
  induction h with
  | nil => simp at hn
  | unknown _ _ ih => exact ih hn
  | node hm _ _ _ iho ihb ihr =>
    simp only [List.mem_cons, List.mem_append] at hn
    rcases hn with rfl | hn | hn | hn
    · exact hasNode_of_kind? hm
    · exact iho hn
    · exact ihb hn
    · exact ihr hn

/-- Where the recursion ends, the traversal lists the same, and goes on if there is room left. -/
theorem Unfolds.preorderFrom (h : p.Unfolds ns l) (room : Nat) (pending : List NodeId) :
    p.preorderFrom room (ns.filter p.hasNode ++ pending) =
      l.take room ++ p.preorderFrom (room - l.length) pending := by
  induction h generalizing room pending with
  | nil => simp
  | unknown hn _ ih =>
    rw [List.filter_cons, hasNode_of_kind?_eq_none hn]
    exact ih room pending
  | @node n k ns operands body rest hn _ _ _ iho ihb ihr =>
    cases room with
    | zero => simp [Program.preorderFrom]
    | succ room =>
      have hleft : room + 1 - (n :: (operands ++ (body ++ rest))).length =
          room - operands.length - body.length - rest.length := by
        simp only [List.length_cons, List.length_append]
        omega
      rw [List.filter_cons, hasNode_of_kind? hn, if_pos rfl, List.cons_append, Program.preorderFrom,
        children_eq hn, List.filter_append, List.append_assoc, iho, ihb, ihr, hleft]
      simp [List.take_append]

theorem Unfolds.preorder_eq (h : p.Unfolds p.roots l) :
    p.preorder = l.take (p.nodes.size + 1) := by
  have hfrom := h.preorderFrom (p.nodes.size + 1) []
  rwa [List.append_nil, preorderFrom_nil, List.append_nil] at hfrom

/-- A recursion that meets no node twice is not cut short. -/
theorem Unfolds.take_eq_self (h : p.Unfolds ns l) (hnd : l.Nodup) :
    l.take (p.nodes.size + 1) = l := by
  have hlen : l.length ≤ p.nodes.size := by
    apply Table.length_le_size hnd
    intro n hn
    obtain ⟨node, hnode⟩ := Option.isSome_iff_exists.1 (h.hasNode hn)
    exact Table.lt_size_of_getElem? hnode
  exact List.take_of_length_le (by omega)

/-- On any program the loop ends and lists nodes that exist below the roots, at most one more than
there are. If the recursive pre-order is finite, it lists as much of it as there is room for. -/
theorem preorder_exact (p : Program) :
    (∀ visited, p.Visits [] p.roots.reverse visited ↔ visited = p.preorder) ∧
    p.preorder.length ≤ p.nodes.size + 1 ∧
    (∀ n ∈ p.preorder, p.hasNode n = true ∧ p.BelowRoots n) ∧
    ∀ l, p.Unfolds p.roots l →
      p.preorder = l.take (p.nodes.size + 1) ∧ (l.Nodup → p.preorder = l) := by
  have hvisits : ∀ visited, p.Visits [] p.roots.reverse visited → visited = p.preorder := by
    intro visited h
    simpa [preorder] using h.eq_append (Nat.zero_le _)
  refine ⟨fun visited => ⟨hvisits visited, ?_⟩, length_preorderFrom_le p _ _, fun n hn => ?_,
    fun l hl => ⟨hl.preorder_eq, fun hnd => ?_⟩⟩
  · rintro rfl
    obtain ⟨visited, h⟩ := p.exists_visits _ [] p.roots (Nat.zero_add _)
    exact hvisits visited h ▸ h
  · obtain ⟨hex, root, hroot, hreach⟩ := mem_preorderFrom hn fun m hm => (List.mem_filter.1 hm).2
    exact ⟨hex, root, (List.mem_filter.1 hroot).1, hreach⟩
  · rw [hl.preorder_eq, hl.take_eq_self hnd]

/-- A call that has one node as its callee and as two of its arguments, and an unknown root. -/
def sharedOperand : Program where
  nodes := ⟨#[{ kind := .call ⟨1⟩ [⟨1⟩, ⟨9⟩, ⟨1⟩] }, { kind := .ident "f" none }]⟩
  blocks := .empty
  symbols := .empty
  roots := [⟨9⟩, ⟨0⟩]

/-- The recursion comes to the shared node three times, and the third time there is no more room. -/
theorem preorder_exact_sharedOperand :
    sharedOperand.Unfolds sharedOperand.roots [⟨0⟩, ⟨1⟩, ⟨1⟩, ⟨1⟩] ∧
    sharedOperand.preorder = [⟨0⟩, ⟨1⟩, ⟨1⟩] ∧
    threeDeep.Unfolds threeDeep.roots [⟨0⟩, ⟨1⟩, ⟨2⟩, ⟨3⟩] ∧
    threeDeep.preorder = [⟨0⟩, ⟨1⟩, ⟨2⟩, ⟨3⟩] := by
  have hleaf : ∀ ns l, sharedOperand.Unfolds ns l →
      sharedOperand.Unfolds (⟨1⟩ :: ns) (⟨1⟩ :: l) := by
    intro ns l h
    exact (Unfolds.node (n := ⟨1⟩) rfl .nil .nil h :)
  have hshared : sharedOperand.Unfolds sharedOperand.roots [⟨0⟩, ⟨1⟩, ⟨1⟩, ⟨1⟩] := by
    have hargs := hleaf _ _ (hleaf _ _ (.unknown (n := ⟨9⟩) rfl (hleaf _ _ .nil)))
    have hcall := Unfolds.node (p := sharedOperand) (n := ⟨0⟩) rfl hargs .nil .nil
    exact .unknown rfl hcall
  have hdeep : threeDeep.Unfolds threeDeep.roots [⟨0⟩, ⟨1⟩, ⟨2⟩, ⟨3⟩] := by
    have h3 := Unfolds.node (p := threeDeep) (n := ⟨3⟩) rfl .nil .nil .nil
    have h2 := Unfolds.node (p := threeDeep) (n := ⟨2⟩) rfl .nil h3 .nil
    have h1 := Unfolds.node (p := threeDeep) (n := ⟨1⟩) rfl .nil h2 .nil
    exact Unfolds.node (p := threeDeep) (n := ⟨0⟩) rfl .nil h1 .nil
  refine ⟨hshared, ?_, hdeep, ?_⟩
  · obtain ⟨-, -, -, h⟩ := preorder_exact sharedOperand
    exact (h _ hshared).1
  · obtain ⟨-, -, -, h⟩ := preorder_exact threeDeep
    exact (h _ hdeep).2 (by decide)

end Hoist.Program
