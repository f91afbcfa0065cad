import Mathlib.Data.List.Dedup
import Hoist.Proofs.Atomicity

/-! Exactly what performing moves does to a program whose blocks are lists. -/
namespace Hoist

namespace Move

variable {m : Move} {moves : List Move} {n : NodeId}

/-- The target of the last move of a definition. -/
def lastTarget? (moves : List Move) (n : NodeId) : Option BlockId :=
  (moves.filter (·.definition = n)).getLast?.map Move.target

/-- The definitions whose last move leads to a block, in the order of these moves. -/
def arrivals (moves : List Move) (b : BlockId) : List NodeId :=
  (moves.map Move.definition).dedup.filter fun n => lastTarget? moves n = some b

theorem lastTarget?_cons_of_mem (h : n ∈ moves.map Move.definition) :
    lastTarget? (m :: moves) n = lastTarget? moves n := by
  obtain ⟨k, hk, rfl⟩ := List.mem_map.1 h
  have hne : moves.filter (·.definition = k.definition) ≠ [] := by
    intro hnil
    have hmem : k ∈ moves.filter (·.definition = k.definition) := by simp [hk]
    simp [hnil] at hmem
  rw [lastTarget?, lastTarget?, List.filter_cons]
  split
  · rw [List.getLast?_cons, List.getLast?_eq_some_getLast hne]
    rfl
  · rfl

theorem lastTarget?_cons_self (h : m.definition ∉ moves.map Move.definition) :
    lastTarget? (m :: moves) m.definition = some m.target := by
  have hnil : moves.filter (·.definition = m.definition) = [] := by
    apply List.filter_eq_nil_iff.2
    intro k hk hkm
    exact h (List.mem_map.2 ⟨k, hk, by simpa using hkm⟩)
  simp [lastTarget?, hnil]

/-- A move counts unless a later one is of the same definition. -/
theorem arrivals_cons (m : Move) (moves : List Move) (b : BlockId) :
    arrivals (m :: moves) b =
      (if m.definition ∉ moves.map Move.definition ∧ b = m.target then [m.definition] else []) ++
        arrivals moves b := by
  have hlater : ((moves.map Move.definition).dedup.filter
      fun n => lastTarget? (m :: moves) n = some b) = arrivals moves b := by
    apply List.filter_congr
    intro n hn
    rw [lastTarget?_cons_of_mem (List.mem_dedup.1 hn)]
  by_cases hm : m.definition ∈ moves.map Move.definition
  · rw [arrivals, List.map_cons, List.dedup_cons_of_mem hm, hlater]
    simp [hm]
  · rw [arrivals, List.map_cons, List.dedup_cons_of_notMem hm, List.filter_cons, hlater,
      lastTarget?_cons_self hm]
    by_cases hb : b = m.target
    · simp [hm, hb]
    · simp [hb, Ne.symm hb]

/-- Whatever moves how often, a list keeps what does not move and then gets what arrives last. -/
theorem placeAll_eq_arrivals (moves : List Move) (f : BlockId → List NodeId) (b : BlockId) :
    placeAll moves f b =
      (f b).filter (· ∉ moves.map Move.definition) ++ arrivals moves b := by
  induction moves generalizing f with
  | nil => simp [placeAll, arrivals]
  | cons m moves ih =>
    have hcons : placeAll (m :: moves) f b = placeAll moves (m.place f) b := rfl
    have hstay : ((f b).filter (· ≠ m.definition)).filter (· ∉ moves.map Move.definition) =
        (f b).filter (· ∉ (m :: moves).map Move.definition) := by
      rw [List.filter_filter]
      apply List.filter_congr
      intro n _
      grind
    rw [hcons, ih, arrivals_cons, place, List.filter_append, hstay, List.append_assoc]
    congr 2
    by_cases hb : b = m.target
    · by_cases hm : m.definition ∈ moves.map Move.definition <;> simp [hb, hm, -List.mem_map]
    · simp [hb]

end Move

namespace Program

variable {p q : Program} {m : Move} {moves : List Move} {σ τ : Session}

/-- A move of a node and to a block that exist. -/
structure Admits (p : Program) (m : Move) : Prop where
  definition : p.hasNode m.definition
  target : (p.blocks[m.target]?).isSome

instance : Decidable (p.Admits m) :=
  decidable_of_iff (p.hasNode m.definition ∧ (p.blocks[m.target]?).isSome)
    ⟨fun h => ⟨h.1, h.2⟩, fun h => ⟨h.definition, h.target⟩⟩

theorem Relinked.hasNode (h : p.Relinked q) (n : NodeId) : q.hasNode n = p.hasNode n := by
  have hn := congrArg Option.isSome (h.content n)
  simpa [content?, Program.hasNode] using hn

theorem Relinked.admits (h : p.Relinked q) (m : Move) : q.Admits m ↔ p.Admits m := by
  constructor
  · rintro ⟨hd, ht⟩
    rw [h.hasNode] at hd
    rw [h.isSome_block] at ht
    exact ⟨hd, ht⟩
  · rintro ⟨hd, ht⟩
    rw [← h.hasNode] at hd
    rw [← h.isSome_block] at ht
    exact ⟨hd, ht⟩

/-- How a move fails that `p` does not admit. If there is no such node, nothing happens. If there is
no such block, the node is taken out of its list before that comes to light. -/
inductive Refuses (p : Program) (m : Move) : LinkError → Program → Prop
  | unknownNode (hn : p.hasNode m.definition = false) : Refuses p m (.unknownNode m.definition) p
  | unknownBlock {held : Option BlockId} {q : Program} (hn : p.hasNode m.definition)
    (ht : p.blocks[m.target]? = none) (hrun : Edit.detach m.definition p = .ok held q)
    (hfree : q.block? m.definition = none)
    (hq : p.Rearranged q fun b => (p.members b).filter (· ≠ m.definition)) :
    Refuses p m (.unknownBlock m.target) q

/-- One move: it is admitted and made, or it is refused. -/
theorem Linked.perform_cases (hp : p.Linked) (m : Move) :
    (p.Admits m ∧ ∃ q, m.perform p = .ok () q ∧ p.Rearranged q (m.place p.members)) ∨
      ∃ e q, m.perform p = .error e q ∧ p.Refuses m e q := by
  cases hn : p.nodes[m.definition]? with
  | none =>
    have hrun : m.perform p = .error (.unknownNode m.definition) p := by
      rw [Move.perform, bind_error (Edit.detach_unknownNode hn)]
    exact .inr ⟨_, p, hrun, .unknownNode (by simp [hasNode, hn])⟩
  | some node =>
    have hs := Table.lt_size_of_getElem? hn
    have hsome : p.hasNode m.definition := by simp [hasNode, hn]
    cases ht : p.blocks[m.target]? with
    | none =>
      obtain ⟨held, q, hdetach, hrun, hfree, hq⟩ := hp.perform_missing hs ht
      exact .inr ⟨_, q, hrun, .unknownBlock hsome ht hdetach hfree hq⟩
    | some block =>
      have htarget : (p.blocks[m.target]?).isSome := by simp [ht]
      exact .inl ⟨⟨hsome, htarget⟩, hp.perform_ok hs htarget⟩

theorem Refuses.not_admits {e : LinkError} (h : p.Refuses m e q) : ¬ p.Admits m := by
  rintro ⟨hd, ht⟩
  cases h with
  | unknownNode hn => simp [hn] at hd
  | unknownBlock _ hnone => simp [hnone] at ht

theorem Refuses.linked {e : LinkError} (hp : p.Linked) (h : p.Refuses m e q) : q.Linked := by
  cases h with
  | unknownNode => exact hp
  | unknownBlock _ _ _ _ hq => exact hq.linked

/-- A run of moves: each is made on what those before it have left, up to the first refused one. -/
theorem Linked.performAll_cases (hp : σ.program.Linked) (moves : List Move) :
    ((∀ m ∈ moves, σ.program.Admits m) ∧ ∃ τ, Pass.performAll moves σ = .ok () τ) ∨
      ∃ done m rest e ρ q, moves = done ++ m :: rest ∧ (∀ k ∈ done, σ.program.Admits k) ∧
        Pass.performAll done σ = .ok () ρ ∧ ρ.program.Linked ∧ σ.program.Relinked ρ.program ∧
        ρ.program.Refuses m e q ∧ Pass.performAll moves σ = .error (.link e) ⟨q, ρ.log⟩ := by
  induction moves generalizing σ with
  | nil => exact .inl ⟨by simp, σ, rfl⟩
  | cons m moves ih =>
    rcases hp.perform_cases m with ⟨hm, q, hrun, hq⟩ | ⟨e, q, hrun, hrefuse⟩
    · let entry : Entry :=
        { event := .moved m.symbol (q.symbols.name m.symbol) (q.symbols.name m.module) }
      have hstep : ∀ l, Pass.performAll (m :: l) σ = Pass.performAll l ⟨q, σ.log ++ [entry]⟩ := by
        intro l
        rw [Pass.performAll, bind_ok (Pass.edit_ok hrun)]
        rfl
      have hadmits : ∀ k, q.Admits k → σ.program.Admits k := fun k => (hq.relinked.admits k).1
      rcases ih (σ := ⟨q, σ.log ++ [entry]⟩) hq.linked with
        ⟨hall, τ, hτ⟩ | ⟨done, k, rest, e, ρ, r, rfl, hdone, hρ, hlinked, hre, hrefuse, herr⟩
      · refine .inl ⟨?_, τ, (hstep _).trans hτ⟩
        intro k hk
        rcases List.mem_cons.1 hk with rfl | hk
        · exact hm
        · exact hadmits k (hall k hk)
      · refine .inr ⟨m :: done, k, rest, e, ρ, r, rfl, ?_, (hstep _).trans hρ, hlinked,
          hq.relinked.trans hre, hrefuse, (hstep _).trans herr⟩
        intro j hj
        rcases List.mem_cons.1 hj with rfl | hj
        · exact hm
        · exact hadmits j (hdone j hj)
    · refine .inr ⟨[], m, moves, e, σ, q, rfl, by simp, rfl, hp, .refl _, hrefuse, ?_⟩
      rw [Pass.performAll, bind_error (Pass.edit_error hrun)]

/-- Moves that are made rearrange the lists as the last move of each definition says. -/
theorem Linked.members_of_performAll (hp : σ.program.Linked)
    (hall : ∀ m ∈ moves, σ.program.Admits m) (hrun : Pass.performAll moves σ = .ok () τ) :
    τ.program.Linked ∧ ∀ b, τ.program.members b =
      (σ.program.members b).filter (· ∉ moves.map Move.definition) ++ Move.arrivals moves b := by
  have hs : ∀ m ∈ moves, m.definition.index < σ.program.nodes.size := by
    intro m hm
    exact Table.lt_size_iff_isSome.2 (hall m hm).definition
  obtain ⟨υ, hrun', hυ⟩ := Linked.performAll_ok hp hs fun m hm => (hall m hm).target
  rw [hrun] at hrun'
  cases hrun'
  refine ⟨hυ.linked, fun b => ?_⟩
  rw [hυ.members, Move.placeAll_eq_arrivals]

/-- Moves succeed exactly if every definition and every target exists, and then each definition
comes to the end of the target of its last move. If not, those before the first bad one are made. -/
theorem performAll_outcome (p : Program) (hp : p.checkBlocks = []) (moves : List Move)
    (log : List Entry) :
    ((∃ τ, Pass.performAll moves ⟨p, log⟩ = .ok () τ) ↔ ∀ m ∈ moves, p.Admits m) ∧
    (∀ τ, Pass.performAll moves ⟨p, log⟩ = .ok () τ → τ.program.checkBlocks = [] ∧
      ∀ b, τ.program.members b =
        (p.members b).filter (· ∉ moves.map Move.definition) ++ Move.arrivals moves b) ∧
    ∀ e τ, Pass.performAll moves ⟨p, log⟩ = .error e τ → τ.program.checkBlocks = [] ∧
      ∃ done m rest cause ρ, moves = done ++ m :: rest ∧ (∀ k ∈ done, p.Admits k) ∧ ¬ p.Admits m ∧
        Pass.performAll done ⟨p, log⟩ = .ok () ρ ∧ e = .link cause ∧
        ρ.program.Refuses m cause τ.program ∧ τ.log = ρ.log := by
  have hlinked : (Session.mk p log).program.Linked := checkBlocks_eq_nil_iff.1 hp
  rcases hlinked.performAll_cases moves with
    ⟨hall, υ, hυ⟩ | ⟨done, m, rest, cause, ρ, q, hmoves, hdone, hρ, hρl, hre, hrefuse, herr⟩
  · refine ⟨⟨fun _ => hall, fun _ => ⟨υ, hυ⟩⟩, ?_, ?_⟩
    · intro τ hτ
      obtain ⟨hτl, hmembers⟩ := hlinked.members_of_performAll hall hτ
      exact ⟨checkBlocks_eq_nil_iff.2 hτl, hmembers⟩
    · intro e τ hτ
      rw [hυ] at hτ
      cases hτ
  · have hbad : ¬ p.Admits m := fun h => hrefuse.not_admits ((hre.admits m).2 h)
    refine ⟨⟨?_, ?_⟩, ?_, ?_⟩
    · rintro ⟨τ, hτ⟩
      rw [herr] at hτ
      cases hτ
    · intro hall
      exact absurd (hall m (by simp [hmoves])) hbad
    · intro τ hτ
      rw [herr] at hτ
      cases hτ
    · intro e τ hτ
      rw [herr] at hτ
      cases hτ
      refine ⟨checkBlocks_eq_nil_iff.2 (hrefuse.linked hρl), ?_⟩
      exact ⟨done, m, rest, cause, ρ, hmoves, hdone, hbad, hρ, rfl, hrefuse, rfl⟩

/-- Moves of the types of `threeDeep` and of its module, which stands in no list. One type moves
twice, one to where it is already. -/
def crossMoves : List Move :=
  [⟨⟨2⟩, ⟨2⟩, ⟨7⟩, ⟨0⟩, ⟨0⟩⟩, ⟨⟨3⟩, ⟨3⟩, ⟨2⟩, ⟨0⟩, ⟨1⟩⟩, ⟨⟨1⟩, ⟨1⟩, ⟨0⟩, ⟨0⟩, ⟨0⟩⟩,
    ⟨⟨2⟩, ⟨2⟩, ⟨1⟩, ⟨0⟩, ⟨3⟩⟩, ⟨⟨0⟩, ⟨0⟩, ⟨0⟩, ⟨0⟩, ⟨1⟩⟩]

theorem performAll_outcome_crossMoves :
    threeDeep.checkBlocks = [] ∧
    (∃ τ, Pass.performAll crossMoves ⟨threeDeep, []⟩ = .ok () τ ∧ τ.program.checkBlocks = [] ∧
      τ.program.members ⟨0⟩ = [⟨1⟩] ∧ τ.program.members ⟨1⟩ = [⟨3⟩, ⟨0⟩] ∧
      τ.program.members ⟨3⟩ = [⟨2⟩]) ∧
    ∃ e τ, Pass.performAll (crossMoves ++ [⟨⟨3⟩, ⟨3⟩, ⟨2⟩, ⟨0⟩, ⟨9⟩⟩]) ⟨threeDeep, []⟩ =
      .error e τ ∧ τ.program.checkBlocks = [] := by
  have hcheck : threeDeep.checkBlocks = [] := by decide
  refine ⟨hcheck, ?_, ?_⟩
  · obtain ⟨hiff, hok, _⟩ := performAll_outcome threeDeep hcheck crossMoves []
    obtain ⟨τ, hτ⟩ := hiff.2 (by decide)
    obtain ⟨hlists, hmembers⟩ := hok τ hτ
    exact ⟨τ, hτ, hlists, by rw [hmembers]; decide, by rw [hmembers]; decide,
      by rw [hmembers]; decide⟩
  · obtain ⟨hiff, _, hfail⟩ := performAll_outcome threeDeep hcheck
      (crossMoves ++ [⟨⟨3⟩, ⟨3⟩, ⟨2⟩, ⟨0⟩, ⟨9⟩⟩]) []
    cases hrun : Pass.performAll (crossMoves ++ [⟨⟨3⟩, ⟨3⟩, ⟨2⟩, ⟨0⟩, ⟨9⟩⟩]) ⟨threeDeep, []⟩ with
    | ok _ τ => exact absurd (hiff.1 ⟨τ, hrun⟩) (by decide)
    | error e τ => exact ⟨e, τ, rfl, (hfail e τ hrun).1⟩

end Program

end Hoist
