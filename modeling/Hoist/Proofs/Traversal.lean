import Hoist.Proofs.HoistedTree

/-! Going through a lowered program meets every node once, before and after hoisting. -/
namespace Hoist

namespace Program

variable {p q : Program} {n : NodeId} {s : SymbolId} {ts : List Tree} {ids : List NodeId}

/-- A traversal from the roots meets every node once. The bound on its length plays no part: with
any more room it would not go further. -/
structure Exhaustive (p : Program) : Prop where
  nodup : p.preorder.Nodup
  mem : ∀ n, n ∈ p.preorder ↔ n.index < p.nodes.size
  uncut : ∀ room, p.nodes.size ≤ room →
    p.preorderFrom room (p.roots.filter p.hasNode) = p.preorder

/-- If the trees at the roots share no node and leave none out, the traversal is exhaustive. -/
theorem Stores.exhaustive (h : p.Stores ts p.roots ids) (hperm : ids.Perm p.nodes.ids) :
    p.Exhaustive := by
  have hsize : ids.length = p.nodes.size := by rw [hperm.length_eq, Table.length_ids]
  have hroom : ∀ room, p.nodes.size ≤ room →
      p.preorderFrom room (p.roots.filter p.hasNode) = ids := by
    intro room hle
    exact h.preorderFrom_filter (by omega)
  have heq : p.preorder = ids := hroom _ (Nat.le_succ _)
  have hnodup : ids.Nodup := hperm.nodup_iff.2 (Table.nodup_ids _)
  refine ⟨heq ▸ hnodup, fun n => ?_, fun room hle => by rw [heq, hroom room hle]⟩
  rw [heq, hperm.mem_iff, Table.mem_ids]

theorem mem_typeSymbols : s ∈ p.typeSymbols ↔
    ∃ n ∈ p.preorder, ∃ k, p.kind? n = some k ∧ k.typeDef? = some s := by
  simp [typeSymbols, List.mem_mergeSort, List.mem_eraseDups, List.mem_filterMap,
    Option.bind_eq_some_iff]

/-- The type symbols are listed in ascending order, each once, so being the same set is enough. -/
theorem typeSymbols_ext (h : ∀ s, s ∈ q.typeSymbols ↔ s ∈ p.typeSymbols) :
    q.typeSymbols = p.typeSymbols := by
  have hsorted : ∀ r : Program, r.typeSymbols.Pairwise fun s t => decide (s.index ≤ t.index) := by
    intro r
    apply List.pairwise_mergeSort
    · intro s t u hst htu
      simp only [decide_eq_true_eq] at hst htu ⊢
      omega
    · intro s t
      simp only [Bool.or_eq_true, decide_eq_true_eq]
      omega
  have hnodup : ∀ r : Program, r.typeSymbols.Nodup := by
    intro r
    rw [typeSymbols, List.nodup_mergeSort, ← Discovery.order_ofList]
    exact (Discovery.ofList _).nodup
  refine List.Perm.eq_of_pairwise ?_ (hsorted q) (hsorted p)
    ((List.perm_ext_iff_of_nodup (hnodup q) (hnodup p)).2 h)
  intro s t _ _ hst hts
  simp only [decide_eq_true_eq] at hst hts
  exact EntityId.ext (by omega)

/-- The type symbols depend only on which nodes there are, once each of them is met. -/
theorem Exhaustive.typeSymbols_eq (hp : p.Exhaustive) (hq : q.Exhaustive) (hre : p.Relinked q) :
    q.typeSymbols = p.typeSymbols := by
  apply typeSymbols_ext
  intro s
  simp only [mem_typeSymbols, hp.mem, hq.mem, hre.kind?, hre.nodes_size]

theorem Exhaustive.typeDef_met {k : NodeKind} (hp : p.Exhaustive) (hk : p.kind? n = some k)
    (hs : k.typeDef? = some s) : p.preorder.count n = 1 ∧ s ∈ p.typeSymbols := by
  have hn : n ∈ p.preorder := (hp.mem n).2 (lt_size_of_kind? hk)
  exact ⟨List.count_eq_one_of_mem hp.nodup hn, mem_typeSymbols.2 ⟨n, hn, k, hk, hs⟩⟩

end Program

/-- Nothing is lost, doubled or made unreachable: the traversal is exhaustive before and after
hoisting and finds the same types. -/
theorem Source.Program.preorder_exhaustive (source : Source.Program) (options : HoistOptions) :
    ∃ l report, source.lower = .ok l ∧ (l.program.hoist options).result = .ok report ∧
      l.program.Exhaustive ∧ (l.program.hoist options).program.Exhaustive ∧
      (l.program.hoist options).program.nodes.size = l.program.nodes.size ∧
      (l.program.hoist options).program.typeSymbols = l.program.typeSymbols ∧
      ∀ n k s, l.program.kind? n = some k → k.typeDef? = some s →
        l.program.preorder.count n = 1 ∧
        (l.program.hoist options).program.kind? n = some k ∧
        (l.program.hoist options).program.preorder.count n = 1 ∧
        s ∈ (l.program.hoist options).program.typeSymbols := by
  obtain ⟨p, ids, hlower, hp, _⟩ := source.lower_holds
  obtain ⟨moves, js, hres, _, _, hre, hstores, hperm, _⟩ := hp.hoist_stores options
  have hbefore : p.Exhaustive := hp.stores.exhaustive hp.perm
  have hafter : (p.hoist options).program.Exhaustive := by
    rw [← hre.roots] at hstores
    refine hstores.exhaustive ?_
    rw [Table.ids, hre.nodes_size]
    exact hperm
  refine ⟨_, _, hlower, hres, hbefore, hafter, hre.nodes_size,
    hbefore.typeSymbols_eq hafter hre, ?_⟩
  intro n k s hk hs
  have hkind : (p.hoist options).program.kind? n = some k := by rw [hre.kind?, hk]
  obtain ⟨hcount, hmem⟩ := hafter.typeDef_met hkind hs
  exact ⟨(hbefore.typeDef_met hk hs).1, hkind, hcount, hmem⟩

end Hoist
