import Hoist.Proofs.Compiling

/-! Where hoisting takes the nested types of a lowered program. -/
namespace Hoist

theorem Discovery.order_ofList_of_nodup {l : List SymbolId} (h : l.Nodup) :
    (ofList l).order = l := by
  rw [order_ofList]
  induction l with
  | nil => rfl
  | cons s l ih =>
    obtain ⟨hs, hl⟩ := List.nodup_cons.1 h
    have hkept : l.filter (fun x => !x == s) = l := by
      rw [List.filter_eq_self]
      intro x hx
      have hne : x ≠ s := fun he => hs (he ▸ hx)
      simp [hne]
    rw [List.eraseDups_cons, hkept, ih hl]

namespace Program

variable {p q : Program} {n : NodeId} {b : BlockId} {s : SymbolId} {ts : List Tree}
  {ids : List NodeId} {moves : List Move}

/-- The body that a nested type moves to. -/
def dest? (p : Program) (n : NodeId) : Option BlockId := do
  p.moduleBody? (← p.module? (← p.nested? n))

/-- What a block lists once everything that is nested has moved, if `ids` are the nodes in order. -/
def membersAfter (p : Program) (ids : List NodeId) (b : BlockId) : List NodeId :=
  (p.members b).filter (p.nested? · = none) ++ ids.filter (p.dest? · = some b)

theorem dest?_of_nested? (h : p.nested? n = none) : p.dest? n = none := by
  simp [dest?, h]

theorem declared?_of_nested? (h : p.nested? n = some s) : p.declared? n = some s := by
  obtain ⟨k, _, hk, hs, _⟩ := nested?_eq_some_iff.1 h
  simp [Program.declared?, hk, NodeKind.declared?_of_typeDef? hs]

theorem hasBody_of_nested? (h : p.nested? n = some s) : p.hasBody n := by
  obtain ⟨k, _, hk, hs, _⟩ := nested?_eq_some_iff.1 h
  cases k <;> simp_all [NodeKind.typeDef?, hasBody, NodeKind.body?]

/-- Moves in the order of the nodes that they move. -/
theorem moves_definition {l : List NodeId} (hd : p.Defined)
    (hsym : moves.map Move.symbol = l.filterMap p.nested?)
    (heach : ∀ move ∈ moves, p.planMove move.symbol = .ok move) :
    moves.map Move.definition = l.filter (p.nested? · ≠ none) ∧
      (moves.filter (·.target = b)).map Move.definition = l.filter (p.dest? · = some b) := by
  induction l generalizing moves with
  | nil => simp_all
  | cons n l ih =>
    cases hn : p.nested? n with
    | none =>
      rw [List.filterMap_cons_none hn] at hsym
      simpa [hn, dest?_of_nested? hn] using ih hsym heach
    | some s =>
      rw [List.filterMap_cons_some hn] at hsym
      cases moves with
      | nil => simp at hsym
      | cons move moves =>
        obtain ⟨rfl, hrest⟩ : move.symbol = s ∧ moves.map Move.symbol = l.filterMap p.nested? := by
          simpa using hsym
        obtain ⟨-, hdef, -, hmod, htarget⟩ := planMove_eq_ok_iff.1 (heach move (by simp))
        have hmove : move.definition = n := by
          simpa [hdef] using hd.declared n _ (declared?_of_nested? hn)
        have hdest : p.dest? n = some move.target := by simp [dest?, hn, hmod, htarget]
        obtain ⟨h₁, h₂⟩ := ih hrest fun m hm => heach m (by simp [hm])
        refine ⟨by simp [hn, hmove, h₁], ?_⟩
        by_cases hb : move.target = b
        · simp [hb, hdest, hmove, h₂]
        · simp [hb, hdest, h₂]

section Holds

variable (h : p.Holds ts ids)

include h

theorem Holds.nodup : ids.Nodup :=
  h.perm.nodup_iff.2 (Table.nodup_ids _)

theorem Holds.nodup_filterMap_nested : (ids.filterMap p.nested?).Nodup := by
  refine h.nodup.filterMap fun n m s hn hm => ?_
  have hn := h.declared n s (declared?_of_nested? hn)
  have hm := h.declared m s (declared?_of_nested? hm)
  simpa [hn] using hm

/-- Allocation order and pre-order agree on the nodes that have bodies. -/
theorem Holds.filter_hasBody : p.nodes.ids.filter p.hasBody = ids.filter p.hasBody := by
  have hsorted : (p.nodes.ids.filter p.hasBody).Pairwise (·.index < ·.index) := by
    refine List.Pairwise.filter _ ?_
    rw [Table.ids, List.pairwise_map]
    exact List.pairwise_lt_range
  refine List.Perm.eq_of_pairwise ?_ hsorted h.ordered (h.perm.symm.filter _)
  intro n m _ _ hnm hmn
  omega

theorem Holds.filterMap_enumerate (e : Enumeration) :
    (p.enumerate e).filterMap p.nested? = ids.filterMap p.nested? := by
  cases e with
  | tree => rw [enumerate, h.preorder_eq]
  | allocation =>
    have hbody : ∀ l : List NodeId,
        l.filterMap p.nested? = (l.filter p.hasBody).filterMap p.nested? := by
      intro l
      rw [List.filterMap_filter]
      refine List.filterMap_congr fun n _ => ?_
      cases hn : p.nested? n with
      | none => simp
      | some s => simp [hasBody_of_nested? hn]
    rw [enumerate, hbody, h.filter_hasBody, ← hbody]

theorem Holds.order_discover (e : Enumeration) :
    (p.discover (p.enumerate e)).order = ids.filterMap p.nested? := by
  rw [discover, h.filterMap_enumerate e]
  exact Discovery.order_ofList_of_nodup h.nodup_filterMap_nested

/-- What hoisting moves, and what it makes of the blocks. -/
theorem Holds.hoist_members (options : HoistOptions) :
    ∃ moves, (p.hoist options).result = .ok ⟨p.nodes.size, moves⟩ ∧
      moves.map Move.symbol = ids.filterMap p.nested? ∧
      (∀ b, (moves.filter (·.target = b)).map Move.definition = ids.filter (p.dest? · = some b)) ∧
      p.Rearranged (p.hoist options).program (p.membersAfter ids) := by
  obtain ⟨moves, hplan, hres, hre, _⟩ := h.hoist_ok options
  obtain ⟨hsym, heach⟩ := mapM_planMove hplan
  rw [h.order_discover] at hsym
  have harrive := fun b => (moves_definition (b := b) h.defined hsym heach).2
  have hdef := (moves_definition (b := ⟨0⟩) h.defined hsym heach).1
  refine ⟨moves, hres, hsym, harrive, hre.relinked, hre.linked, fun b => ?_⟩
  rw [hre.members, Move.placeAll_eq (planned_of_plan h.defined hplan).nodup, harrive b,
    membersAfter]
  congr 1
  refine List.filter_congr fun n hn => ?_
  have hmem : n ∈ ids := h.mem_ids.2 (lt_size_of_block? (h.formed.linked.mem_members.1 hn))
  simp [hdef, hmem]

end Holds

end Program
end Hoist
