import Hoist.Hoisting
import Hoist.Proofs.Relinking

/-! What moves do to the lists of a linked program, and how a run of the pass is put together. -/
namespace Hoist

/-- The lists after a move: the definition leaves wherever it is and comes last in its target. -/
def Move.place (m : Move) (f : BlockId → List NodeId) (c : BlockId) : List NodeId :=
  (f c).filter (· ≠ m.definition) ++ if c = m.target then [m.definition] else []

/-- The lists after some moves, one after the other. -/
def Move.placeAll (moves : List Move) (f : BlockId → List NodeId) : BlockId → List NodeId :=
  moves.foldl (fun f m => m.place f) f

/-- If no definition moves twice, a list keeps what stays and then gets what arrives, in order. -/
theorem Move.placeAll_eq {moves : List Move} (hnd : (moves.map Move.definition).Nodup)
    (f : BlockId → List NodeId) (c : BlockId) :
    Move.placeAll moves f c = (f c).filter (· ∉ moves.map Move.definition) ++
      (moves.filter (·.target = c)).map Move.definition := by
  induction moves generalizing f with
  | nil => simp [placeAll]
  | cons m moves ih =>
    obtain ⟨hm, hnd⟩ := List.nodup_cons.1 hnd
    have hcons : placeAll (m :: moves) f = placeAll moves (m.place f) := rfl
    rw [hcons, ih hnd]
    have hstay : ((f c).filter (· ≠ m.definition)).filter (· ∉ moves.map Move.definition) =
        (f c).filter (· ∉ (m :: moves).map Move.definition) := by
      rw [List.filter_filter]
      exact List.filter_congr fun n _ => by grind
    simp only [place, List.filter_append, hstay, List.append_assoc]
    by_cases hc : c = m.target
    · subst hc
      simp_all
    · simp [hc, Ne.symm hc]

namespace Program

variable {p q r : Program} {n : NodeId} {f g : BlockId → List NodeId} {m : Move}

theorem Rearranged.trans (h : p.Rearranged q f) (h' : q.Rearranged r g) : p.Rearranged r g :=
  ⟨h.relinked.trans h'.relinked, h'.linked, h'.members⟩

theorem Rearranged.members_eq (h : p.Rearranged q f) : q.members = f := funext h.members

theorem Linked.detach_free (hn : p.block? n = none) (hs : n.index < p.nodes.size) :
    Edit.detach n p = .ok none p := by
  obtain ⟨node, hnode⟩ : ∃ node, p.nodes[n]? = some node := by
    cases h : p.nodes[n]? with
    | some node => exact ⟨node, rfl⟩
    | none => exact absurd (Table.getElem?_eq_none_iff.1 h) (by omega)
  have hfree : node.link.block = none := by simpa [block?, link?, hnode] using hn
  rw [Edit.detach, bind_ok (Edit.node_ok hnode)]
  simp only [hfree]
  rfl

/-- A node that exists leaves its list, if it is in one. -/
theorem Linked.detach_rearranged (hp : p.Linked) (hs : n.index < p.nodes.size) :
    ∃ b q, Edit.detach n p = .ok b q ∧ q.block? n = none ∧
      p.Rearranged q fun c => (p.members c).filter (· ≠ n) := by
  have herase : ∀ c, (p.members c).erase n = (p.members c).filter (· ≠ n) := by
    intro c
    rw [(hp.nodup_members c).erase_eq_filter]
    exact List.filter_congr fun m _ => by grind
  cases hb : p.block? n with
  | none =>
    refine ⟨none, p, Linked.detach_free hb hs, hb, .refl p, hp, fun c => ?_⟩
    rw [← herase, List.erase_of_not_mem]
    exact fun hc => by simp [hp.mem_members.1 hc] at hb
  | some b =>
    obtain ⟨q, hrun, hfree, hq⟩ := hp.detach_ok hb
    exact ⟨some b, q, hrun, hfree, hq.relinked, hq.linked, fun c => (hq.members c).trans (herase c)⟩

theorem Linked.perform_ok (hp : p.Linked) (hs : m.definition.index < p.nodes.size)
    (ht : (p.blocks[m.target]?).isSome) :
    ∃ q, m.perform p = .ok () q ∧ p.Rearranged q (m.place p.members) := by
  obtain ⟨b, q, hrun, hfree, hq⟩ := hp.detach_rearranged hs
  obtain ⟨r, hrun', hr⟩ := hq.linked.append_ok hfree (by rwa [hq.relinked.nodes_size])
    (by rwa [hq.relinked.isSome_block])
  refine ⟨r, ?_, (hq.trans hr).relinked, hr.linked, fun c => ?_⟩
  · rw [Move.perform, bind_ok hrun]
    exact hrun'
  · rw [hr.members, hq.members, hq.members, Move.place]
    split
    · next h => rw [h]
    · rw [List.append_nil]

/-- A run of moves between existing nodes and blocks does not fail. -/
theorem Linked.performAll_ok {moves : List Move} {s : Session} (hp : s.program.Linked)
    (hs : ∀ m ∈ moves, m.definition.index < s.program.nodes.size)
    (ht : ∀ m ∈ moves, (s.program.blocks[m.target]?).isSome) :
    ∃ t, Pass.performAll moves s = .ok () t ∧
      s.program.Rearranged t.program (Move.placeAll moves s.program.members) := by
  induction moves generalizing s with
  | nil => exact ⟨s, rfl, .refl _, hp, fun _ => rfl⟩
  | cons m moves ih =>
    obtain ⟨q, hrun, hq⟩ := hp.perform_ok (hs m (by simp)) (ht m (by simp))
    let entry : Entry :=
      { event := .moved m.symbol (q.symbols.name m.symbol) (q.symbols.name m.module) }
    obtain ⟨t, hrest, ht'⟩ := ih (s := ⟨q, s.log ++ [entry]⟩) hq.linked
      (fun k hk => by rw [hq.relinked.nodes_size]; exact hs k (by simp [hk]))
      (fun k hk => by rw [hq.relinked.isSome_block]; exact ht k (by simp [hk]))
    refine ⟨t, ?_, ?_⟩
    · have hedit : Pass.edit m.perform s = .ok () ⟨q, s.log⟩ := by
        simp [Pass.edit, EStateM.run, hrun]
      simp only [Pass.performAll, bind, EStateM.bind, hedit]
      exact hrest
    · simpa [Move.placeAll, hq.members_eq] using hq.trans ht'

end Program

namespace Pass

variable {p : Program} {options : HoistOptions} {nodes : List NodeId} {moves : List Move}

theorem get_eq (s : Session) : (get : Pass Session) s = .ok s s := rfl

theorem checkFlat_eq (s : Session) : checkFlat s = .ok s.program.checkFlat
    ⟨s.program, s.log ++ (s.program.nodes.ids.filterMap (sighting? s.program)).map (⟨·, []⟩)⟩ := rfl

theorem require_nil (stage : Stage) (s : Session) : require stage [] s = .ok () s := rfl

/-- What a run does once it has its moves. -/
def finish (options : HoistOptions) (nodes : List NodeId) (moves : List Move) : Pass Report := do
  performAll moves
  if options.verifyOutput then
    require .output (← checkFlat)
  emit [.hoisted nodes.length moves.length]
  return { scanned := nodes.length, moves }

/-- A program that nothing is found wrong with gets as far as the plan. -/
theorem hoist_eq (nodes : List NodeId) (hi : options.verifyInput → p.check = []) :
    ∃ log, hoist options nodes { program := p } =
      (plan (p.discover nodes) >>= finish options nodes) ⟨p, log⟩ := by
  refine ⟨(nodes.filterMap (sighting? p)).map fun event => { event }, ?_⟩
  cases hv : options.verifyInput with
  | false =>
    simp only [hoist, hv]
    rfl
  | true =>
    simp only [hoist, hv, if_true]
    rw [bind_ok (get_eq _), hi hv, bind_ok (require_nil _ _)]
    rfl

theorem plan_ok {types : Discovery} {s : Session} (h : s.program.plan types = .ok moves) :
    plan types s = .ok moves s := by
  rw [plan, bind_ok (get_eq s), h]
  rfl

theorem plan_error {types : Discovery} {s : Session} {e : PlanError}
    (h : s.program.plan types = .error e) : plan types s = .error (.plan e) s := by
  rw [plan, bind_ok (get_eq s), h]
  rfl

/-- The moves decide how a run ends, provided that they lead to what the last check accepts. -/
theorem finish_ok {s t : Session} (nodes : List NodeId) (hrun : performAll moves s = .ok () t)
    (ho : options.verifyOutput → t.program.checkFlat = []) :
    ∃ log, finish options nodes moves s = .ok ⟨nodes.length, moves⟩ ⟨t.program, log⟩ := by
  rw [finish, bind_ok hrun]
  cases hv : options.verifyOutput with
  | false => exact ⟨_, rfl⟩
  | true =>
    refine ⟨t.log ++ (t.program.nodes.ids.filterMap (sighting? t.program)).map (⟨·, []⟩) ++
      [⟨.hoisted nodes.length moves.length, []⟩], ?_⟩
    simp only [if_true]
    rw [bind_ok (checkFlat_eq t), ho hv, bind_ok (require_nil _ _)]
    rfl

end Pass

namespace Program

variable {p : Program} {options : HoistOptions} {nodes : List NodeId} {moves : List Move}

/-- A run that cannot be planned changes nothing. -/
theorem hoistNodes_of_plan_error {e : PlanError} (hi : options.verifyInput → p.check = [])
    (h : p.plan (p.discover nodes) = .error e) :
    (p.hoistNodes options nodes).result = .error (.plan e) ∧
      (p.hoistNodes options nodes).program = p := by
  obtain ⟨log, hrun⟩ := Pass.hoist_eq nodes hi
  rw [bind_error (Pass.plan_error (s := ⟨p, log⟩) h)] at hrun
  simp [hoistNodes, EStateM.run, hrun]

/-- A run that can be planned makes its moves and nothing else. -/
theorem hoistNodes_of_plan (hi : options.verifyInput → p.check = [])
    (h : p.plan (p.discover nodes) = .ok moves) (hp : p.Linked)
    (hs : ∀ m ∈ moves, m.definition.index < p.nodes.size)
    (ht : ∀ m ∈ moves, (p.blocks[m.target]?).isSome)
    (ho : options.verifyOutput →
      ∀ q, p.Rearranged q (Move.placeAll moves p.members) → q.checkFlat = []) :
    (p.hoistNodes options nodes).result = .ok ⟨nodes.length, moves⟩ ∧
      p.Rearranged (p.hoistNodes options nodes).program (Move.placeAll moves p.members) := by
  obtain ⟨log, hrun⟩ := Pass.hoist_eq nodes hi
  obtain ⟨t, hmoves, hre⟩ := Linked.performAll_ok (s := ⟨p, log⟩) hp hs ht
  obtain ⟨log', hfinish⟩ := Pass.finish_ok nodes hmoves fun hv => ho hv _ hre
  rw [bind_ok (Pass.plan_ok (s := ⟨p, log⟩) h), hfinish] at hrun
  simpa [hoistNodes, EStateM.run, hrun] using hre

end Program
end Hoist
