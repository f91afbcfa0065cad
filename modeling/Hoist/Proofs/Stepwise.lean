import Hoist.Proofs.Flattening

/-! Planning every move before the first is made, and planning each when its turn comes. -/
namespace Hoist

/-- What is left after the first `k` symbols. -/
def Discovery.drop (t : Discovery) (k : Nat) : Discovery :=
  ⟨t.order.drop k, t.nodup.sublist (List.drop_sublist k t.order)⟩

namespace Move

variable {m : Move} {moves : List Move} {moved : List NodeId}

/-- The same move planned later: if its definition has moved already, it is at its target. -/
def after (moved : List NodeId) (m : Move) : Move :=
  if moved.contains m.definition then { m with source := m.target } else m

theorem after_of_notMem (h : m.definition ∉ moved) : m.after moved = m :=
  if_neg (by simpa using h)

@[simp] theorem after_nil : after [] = id := by
  funext m
  exact after_of_notMem (by simp)

/-- Only the source of a move depends on what has moved before. -/
@[simp] theorem after_fields : (m.after moved).symbol = m.symbol ∧
    (m.after moved).definition = m.definition ∧ (m.after moved).module = m.module ∧
      (m.after moved).target = m.target := by
  unfold after
  split <;> simp

theorem perform_after : (m.after moved).perform = m.perform := by
  simp [perform]

theorem after_after (moved' : List NodeId) :
    (m.after moved).after moved' = m.after (moved ++ moved') := by
  unfold after
  grind

theorem map_definition_after (moves : List Move) :
    (moves.map (after moved)).map definition = moves.map definition := by
  simp [Function.comp_def]

/-- Where no definition moves twice, the rest of a plan is not touched by its beginning. -/
theorem map_after_drop (h : (moves.map definition).Nodup) (k : Nat) :
    (moves.drop k).map (after ((moves.take k).map definition)) = moves.drop k := by
  conv_rhs => rw [← List.map_id (moves.drop k)]
  refine List.map_congr_left fun m hm => after_of_notMem fun hmem => ?_
  rw [← List.take_append_drop k moves, List.map_append] at h
  exact List.disjoint_of_nodup_append h hmem (List.mem_map_of_mem hm)

/-- A plan made one move at a time, each after those before it. -/
def inTurn (moves : List Move) : List Move :=
  moves.mapIdx fun i => after ((moves.take i).map definition)

theorem inTurn_cons (m : Move) (rest : List Move) :
    inTurn (m :: rest) = m :: inTurn (rest.map (after [m.definition])) := by
  apply List.ext_getElem?
  intro i
  cases i with
  | zero => simp [inTurn]
  | succ i =>
    simp only [inTurn, List.getElem?_cons_succ, List.getElem?_mapIdx, List.getElem?_map,
      ← List.map_take, map_definition_after, List.take_succ_cons, List.map_cons, Option.map_map,
      Function.comp_def, after_after, List.singleton_append]

theorem inTurn_eq (h : (moves.map definition).Nodup) : inTurn moves = moves := by
  induction moves with
  | nil => rfl
  | cons m rest ih =>
    have hrest : rest.map (after [m.definition]) = rest := map_after_drop h 1
    rw [inTurn_cons, hrest, ih (List.nodup_cons.1 h).2]

end Move

namespace Pass

def planMove (s : SymbolId) : Pass Move := do
  match (← get).program.planMove s with
  | .ok m => return m
  | .error e => throw (.plan e)

/-- Plans and makes one move at a time, each on the program that the moves before it have left. -/
def moveEach : List SymbolId → Pass (List Move)
  | [] => return []
  | s :: rest => do
    let m ← planMove s
    performAll [m]
    return m :: (← moveEach rest)

theorem planMove_ok {s : SymbolId} {m : Move} {σ : Session} (h : σ.program.planMove s = .ok m) :
    planMove s σ = .ok m σ := by
  rw [planMove, bind_ok (get_eq σ), h]
  rfl

theorem performAll_cons {m : Move} {σ τ : Session} (h : performAll [m] σ = .ok () τ)
    (moves : List Move) : performAll (m :: moves) σ = performAll moves τ := by
  cases hm : edit m.perform σ with
  | error e ρ => simp [performAll, bind_error hm] at h
  | ok _ ρ =>
    rw [performAll, bind_ok hm] at h ⊢
    cases h
    rfl

theorem performAll_after (moved : List NodeId) (moves : List Move) :
    performAll (moves.map (Move.after moved)) = performAll moves := by
  induction moves with
  | nil => rfl
  | cons m moves ih => simp [performAll, Move.perform_after, ih]

end Pass

namespace Program

variable {p q r : Program} {s : SymbolId} {l : List SymbolId} {moves : List Move} {σ : Session}

/-- What a plan relies on: nothing is wrong, and the bodies belong to their declarations. -/
structure Sound (p : Program) : Prop where
  check : p.check = []
  bodies : p.BodiesOwned

/-- The programs agree on the module around every symbol and on the body of every module. -/
structure SameModules (p q : Program) : Prop where
  module? : ∀ s, q.module? s = p.module? s
  moduleBody? : ∀ s, q.moduleBody? s = p.moduleBody? s

theorem SameModules.refl (p : Program) : p.SameModules p := ⟨fun _ => rfl, fun _ => rfl⟩

theorem SameModules.trans (h : p.SameModules q) (h' : q.SameModules r) : p.SameModules r where
  module? s := (h'.module? s).trans (h.module? s)
  moduleBody? s := (h'.moduleBody? s).trans (h.moduleBody? s)

theorem Relinked.moduleBody? (h : p.Relinked q) (s : SymbolId) :
    q.moduleBody? s = p.moduleBody? s := by
  simp only [Program.moduleBody?, h.definition?, h.kind?]

theorem Relinked.bodiesOwned (h : p.Relinked q) (ho : p.BodiesOwned) : q.BodiesOwned := by
  intro n k b hk hb
  rw [h.kind?] at hk
  rw [h.owner]
  exact ho n k b hk hb

/-- A move changes no plan but for the source of what it has moved. -/
theorem planMove_after {m move : Move} (hh : p.Homebound [m]) (hm : p.Planned [m])
    (hq : p.Rearranged q (Move.placeAll [m] p.members)) (hp : p.Linked)
    (h : p.planMove s = .ok move) : q.planMove s = .ok (move.after [m.definition]) := by
  obtain ⟨hsymbol, hdef, hblock, hmodule, hbody⟩ := planMove_eq_ok_iff.1 h
  rw [planMove_eq_ok_iff, hq.relinked.definition?, hq.relinked.moduleBody?,
    module?_eq_after hh hm hq hp]
  by_cases hsame : move.definition = m.definition
  · -- a symbol with the definition that has moved goes to the same block
    have htarget : m.target = move.target := by
      obtain ⟨-, -, -, -, hbody'⟩ := planMove_eq_ok_iff.1 (hm.each m (List.mem_singleton_self m))
      have hmodule' := hm.module?_of_definition? (List.mem_singleton_self m) (hsame ▸ hdef)
      have hto : m.module = move.module := by simpa [hmodule] using hmodule'.symm
      simpa [hto, hbody] using hbody'.symm
    have hmoved := block?_moved hm hq (List.mem_singleton_self m)
    simp [Move.after, hsame, hsymbol, hdef, hmodule, hbody, hmoved, htarget]
  · have hkept := block?_kept hm hq hp (n := move.definition) (by simpa using hsame)
    rw [Move.after_of_notMem (by simpa using hsame), hkept]
    exact ⟨hsymbol, hdef, hblock, hmodule, hbody⟩

/-- The first of some planned moves: it succeeds, and the others are planned as they were. -/
theorem Sound.perform_next (hs : σ.program.Sound)
    (h : (s :: l).mapM σ.program.planMove = .ok moves) :
    ∃ m rest τ, moves = m :: rest ∧ σ.program.planMove s = .ok m ∧
      Pass.performAll [m] σ = .ok () τ ∧ τ.program.Sound ∧ σ.program.SameModules τ.program ∧
      l.mapM τ.program.planMove = .ok (rest.map (Move.after [m.definition])) := by
  obtain ⟨m, rest, hplan, hrest, rfl⟩ := mapM_cons_eq_ok h
  obtain ⟨hd, hp, hr⟩ := check_eq_nil_iff.1 hs.check
  have hsym : m.symbol = s := (planMove_eq_ok_iff.1 hplan).1
  have hm : σ.program.Planned [m] := ⟨by simp [hsym, hplan], by simp⟩
  have hh := hm.homebound hd hs.bodies
  obtain ⟨τ, hrun, hτ⟩ := Linked.performAll_ok hp (fun _ => hm.lt_size) fun _ => hh.isSome_target
  refine ⟨m, rest, τ, rfl, hplan, hrun, ⟨check_after hh hm hτ hp hd hr, ?_⟩, ⟨?_, ?_⟩, ?_⟩
  · exact hτ.relinked.bodiesOwned hs.bodies
  · exact module?_eq_after hh hm hτ hp
  · exact hτ.relinked.moduleBody?
  · exact mapM_map_ok (fun _ _ => planMove_after hh hm hτ hp) hrest

/-- Any number of planned moves. -/
theorem Sound.performAll_take (hs : σ.program.Sound) (h : l.mapM σ.program.planMove = .ok moves)
    (k : Nat) :
    ∃ τ, Pass.performAll (moves.take k) σ = .ok () τ ∧ σ.program.SameModules τ.program ∧
      (l.drop k).mapM τ.program.planMove =
        .ok ((moves.drop k).map (Move.after ((moves.take k).map Move.definition))) := by
  -- each step leaves a sound program and a shorter plan, which is what the next one needs
  induction k generalizing σ l moves with
  | zero => exact ⟨σ, rfl, .refl _, by simpa using h⟩
  | succ k ih =>
    cases l with
    | nil =>
      obtain rfl : [] = moves := by simpa [pure, Except.pure] using h
      exact ⟨σ, rfl, .refl _, h⟩
    | cons s l =>
      obtain ⟨m, rest, τ, rfl, -, hrun, hτ, hsame, hrest⟩ := hs.perform_next h
      obtain ⟨υ, hrun', hsame', hrest'⟩ := ih hτ hrest
      refine ⟨υ, ?_, hsame.trans hsame', ?_⟩
      · rw [List.take_succ_cons, Pass.performAll_cons hrun, ← hrun', ← List.map_take,
          Pass.performAll_after]
      · rw [List.drop_succ_cons, hrest', ← List.map_drop, ← List.map_take,
          Move.map_definition_after, List.map_map]
        simp [Function.comp_def, Move.after_after]

theorem Sound.moveEach_eq (hs : σ.program.Sound) (h : l.mapM σ.program.planMove = .ok moves) :
    ∃ τ, Pass.performAll moves σ = .ok () τ ∧ Pass.moveEach l σ = .ok (Move.inTurn moves) τ := by
  induction l generalizing σ moves with
  | nil =>
    obtain rfl : [] = moves := by simpa [pure, Except.pure] using h
    exact ⟨σ, rfl, rfl⟩
  | cons s l ih =>
    obtain ⟨m, rest, τ, rfl, hplan, hrun, hτ, -, hrest⟩ := hs.perform_next h
    obtain ⟨υ, hrun', heach⟩ := ih hτ hrest
    refine ⟨υ, by rw [Pass.performAll_cons hrun, ← hrun', Pass.performAll_after], ?_⟩
    rw [Pass.moveEach, bind_ok (Pass.planMove_ok hplan), bind_ok hrun, bind_ok heach,
      Move.inTurn_cons]
    rfl

theorem nodup_definition_of_mapM (h : l.mapM p.planMove = .ok moves)
    (hl : (l.map p.definition?).Nodup) : (moves.map Move.definition).Nodup := by
  obtain ⟨rfl, heach⟩ := mapM_planMove h
  refine List.Nodup.of_map some ?_
  have heq : (moves.map Move.symbol).map p.definition? = (moves.map Move.definition).map some := by
    rw [List.map_map, List.map_map]
    exact List.map_congr_left fun m hm => (planMove_eq_ok_iff.1 (heach m hm)).2.1
  exact heq ▸ hl

/-- After any part of a plan every symbol has the module it had and every module the body it had.
Planning the rest again changes the sources only of definitions that have moved already, and it
changes nothing if no two of the symbols have the same definition. -/
theorem plan_stepwise (p : Program) (hcheck : p.check = []) (ho : p.BodiesOwned)
    (types : Discovery) (moves : List Move) (hplan : p.plan types = .ok moves) (log : List Entry) :
    (∀ k, ∃ τ, Pass.performAll (moves.take k) ⟨p, log⟩ = .ok () τ ∧
      (∀ s, τ.program.module? s = p.module? s ∧ τ.program.moduleBody? s = p.moduleBody? s) ∧
      τ.program.plan (types.drop k) =
        .ok ((moves.drop k).map (Move.after ((moves.take k).map Move.definition)))) ∧
    (∃ τ, Pass.performAll moves ⟨p, log⟩ = .ok () τ ∧
      Pass.moveEach types.order ⟨p, log⟩ = .ok (Move.inTurn moves) τ) ∧
    ((types.order.map p.definition?).Nodup → Move.inTurn moves = moves ∧
      ∀ k, (moves.drop k).map (Move.after ((moves.take k).map Move.definition)) =
        moves.drop k) := by
  have hs : (Session.mk p log).program.Sound := ⟨hcheck, ho⟩
  refine ⟨fun k => ?_, hs.moveEach_eq hplan, fun hdistinct => ?_⟩
  · obtain ⟨τ, hrun, hsame, hrest⟩ := hs.performAll_take hplan k
    exact ⟨τ, hrun, fun s => ⟨hsame.module? s, hsame.moduleBody? s⟩, hrest⟩
  · have hnodup := nodup_definition_of_mapM hplan hdistinct
    exact ⟨Move.inTurn_eq hnodup, Move.map_after_drop hnodup⟩

/-- The two nested types of `threeDeep`, the outer one first. -/
def outerFirst : Discovery := ⟨[⟨2⟩, ⟨3⟩], by decide⟩

/-- The first move takes the second type along, out of the type around both. -/
theorem plan_stepwise_threeDeep :
    threeDeep.check = [] ∧ threeDeep.BodiesOwned ∧
    threeDeep.plan outerFirst =
      .ok [⟨⟨2⟩, ⟨2⟩, ⟨1⟩, ⟨0⟩, ⟨0⟩⟩, ⟨⟨3⟩, ⟨3⟩, ⟨2⟩, ⟨0⟩, ⟨0⟩⟩] ∧
    ∃ τ, Pass.performAll [⟨⟨2⟩, ⟨2⟩, ⟨1⟩, ⟨0⟩, ⟨0⟩⟩] ⟨threeDeep, []⟩ = .ok () τ ∧
      (∀ s, τ.program.module? s = threeDeep.module? s ∧
        τ.program.moduleBody? s = threeDeep.moduleBody? s) ∧
      τ.program.plan (outerFirst.drop 1) = .ok [⟨⟨3⟩, ⟨3⟩, ⟨2⟩, ⟨0⟩, ⟨0⟩⟩] := by
  have hcheck : threeDeep.check = [] := by decide
  have ho : threeDeep.BodiesOwned := by decide
  have hplan : threeDeep.plan outerFirst =
      .ok [⟨⟨2⟩, ⟨2⟩, ⟨1⟩, ⟨0⟩, ⟨0⟩⟩, ⟨⟨3⟩, ⟨3⟩, ⟨2⟩, ⟨0⟩, ⟨0⟩⟩] := by decide
  exact ⟨hcheck, ho, hplan, (plan_stepwise threeDeep hcheck ho outerFirst _ hplan []).1 1⟩

/-- One more symbol, which goes by the type `b` and shares its definition. -/
def namesake : Program where
  __ := threeDeep
  symbols := threeDeep.symbols.push
    { id := ⟨2⟩, name := "d", kind := .type, definition := some ⟨2⟩ }

/-- The type `b` and its namesake. -/
def bothNames : Discovery := ⟨[⟨2⟩, ⟨4⟩], by decide⟩

/-- With two symbols for one definition, the rest of a plan need not be what planning now gives. -/
theorem plan_drop_ne_namesake :
    namesake.check = [] ∧ namesake.BodiesOwned ∧
    namesake.plan bothNames =
      .ok [⟨⟨2⟩, ⟨2⟩, ⟨1⟩, ⟨0⟩, ⟨0⟩⟩, ⟨⟨4⟩, ⟨2⟩, ⟨1⟩, ⟨0⟩, ⟨0⟩⟩] ∧
    ∃ τ, Pass.performAll [⟨⟨2⟩, ⟨2⟩, ⟨1⟩, ⟨0⟩, ⟨0⟩⟩] ⟨namesake, []⟩ = .ok () τ ∧
      τ.program.plan (bothNames.drop 1) = .ok [⟨⟨4⟩, ⟨2⟩, ⟨0⟩, ⟨0⟩, ⟨0⟩⟩] ∧
      τ.program.plan (bothNames.drop 1) ≠ .ok [⟨⟨4⟩, ⟨2⟩, ⟨1⟩, ⟨0⟩, ⟨0⟩⟩] := by
  refine ⟨by decide, by decide, by decide, _, rfl, by decide, by decide⟩

end Program
end Hoist
