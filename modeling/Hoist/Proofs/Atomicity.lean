import Hoist.Proofs.Stages

/-! How far a run on a sound program can get before it fails. -/
namespace Hoist.Program

variable {p q : Program} {m : Move} {moves : List Move} {n : NodeId} {e : LinkError}

/-- A move to a block that does not exist takes the definition out of its list and fails. -/
theorem Linked.perform_missing (hp : p.Linked) (hs : m.definition.index < p.nodes.size)
    (ht : p.blocks[m.target]? = none) :
    ∃ held q, Edit.detach m.definition p = .ok held q ∧
      m.perform p = .error (.unknownBlock m.target) q ∧ q.block? m.definition = none ∧
      p.Rearranged q fun c => (p.members c).filter (· ≠ m.definition) := by
  obtain ⟨held, q, hrun, hfree, hq⟩ := hp.detach_rearranged hs
  rw [← hq.relinked.nodes_size] at hs
  obtain ⟨node, hnode⟩ := Option.isSome_iff_exists.1 (Table.lt_size_iff_isSome.1 hs)
  have hlink : node.link.block = none := by simpa [block?, link?, hnode] using hfree
  have hmissing : q.blocks[m.target]? = none := by
    simpa [ht] using hq.relinked.isSome_block m.target
  refine ⟨held, q, hrun, ?_, hfree, hq⟩
  rw [Move.perform, bind_ok hrun]
  exact Edit.append_unknownBlock hnode hlink hmissing

/-- Moves of existing nodes fail only at a target that does not exist. -/
theorem Linked.performAll_error (hp : p.Linked)
    (hs : ∀ m ∈ moves, m.definition.index < p.nodes.size)
    (h : Move.performAll moves p = .error e q) :
    ∃ m ∈ moves, p.blocks[m.target]? = none ∧ e = .unknownBlock m.target := by
  induction moves generalizing p with
  | nil => cases h
  | cons m moves ih =>
    have hm := hs m (by simp)
    cases ht : p.blocks[m.target]? with
    | none =>
      obtain ⟨_, r, _, hrun, _⟩ := hp.perform_missing hm ht
      rw [Move.performAll, bind_error hrun] at h
      cases h
      exact ⟨m, by simp, ht, rfl⟩
    | some block =>
      obtain ⟨r, hrun, hr⟩ := hp.perform_ok hm (by simp [ht])
      rw [Move.performAll, bind_ok hrun] at h
      obtain ⟨k, hk, hkt, he⟩ := ih hr.linked
        (fun k hk => by rw [hr.relinked.nodes_size]; exact hs k (by simp [hk])) h
      refine ⟨k, by simp [hk], ?_, he⟩
      simpa [hkt] using (hr.relinked.isSome_block k.target).symm

/-- Moves that succeed rearrange the lists as they say. -/
theorem Linked.rearranged_of_performAll (hp : p.Linked)
    (hs : ∀ m ∈ moves, m.definition.index < p.nodes.size)
    (ht : ∀ m ∈ moves, (p.blocks[m.target]?).isSome) (h : Move.performAll moves p = .ok () q) :
    p.Rearranged q (Move.placeAll moves p.members) := by
  obtain ⟨t, hrun, hre⟩ := Linked.performAll_ok (s := { program := p }) hp hs ht
  obtain ⟨log, heq⟩ := Pass.performAll_eq moves { program := p }
  rw [hrun, Pass.edit_ok (s := ⟨p, log⟩) h] at heq
  cases heq
  exact hre

/-- The body to which a nested type is to move is a block that the module around the type owns. -/
def Housed (p : Program) (n : NodeId) : Prop :=
  ∀ s m b, p.nested? n = some s → p.module? s = some m → p.moduleBody? m = some b →
    p.owner? b = some (p.definition? m)

theorem homebound_of_housed {nodes : List NodeId} (hd : p.Defined)
    (hplan : p.plan (p.discover nodes) = .ok moves) (hh : ∀ n ∈ nodes, p.Housed n) :
    p.Homebound moves := by
  intro move hmove
  obtain ⟨n, hn, hnested⟩ := exists_of_plan hplan hmove
  obtain ⟨-, -, -, hmod, hbody⟩ :=
    planMove_eq_ok_iff.1 ((mapM_planMove hplan).2 move hmove)
  obtain ⟨d, hdef, hdecl⟩ := hd.exists_definition hmod
  refine ⟨d, ?_, hdecl⟩
  rw [hh n hn _ _ _ hnested hmod hbody, hdef]

/-- Reaching every nested type, each with a body to go to, is enough for the last check. -/
theorem checkFlat_of_performAll {nodes : List NodeId} (hcheck : p.check = [])
    (hplan : p.plan (p.discover nodes) = .ok moves) (hrun : Move.performAll moves p = .ok () q)
    (hreach : ∀ n, (p.nested? n).isSome → n ∈ nodes) (hhoused : ∀ n ∈ nodes, p.Housed n) :
    q.checkFlat = [] := by
  obtain ⟨hd, hp, hr⟩ := check_eq_nil_iff.1 hcheck
  have hm := planned_of_plan hd hplan
  have hh := homebound_of_housed hd hplan hhoused
  have hq := hp.rearranged_of_performAll (fun _ => hm.lt_size) (fun _ => hh.isSome_target) hrun
  refine checkFlat_after hh hm hq hp hd hr fun n s hn => ?_
  rw [(mapM_planMove hplan).1, mem_discover]
  exact ⟨n, hreach n (by simp [hn]), hn⟩

/-- The run leaves nothing wrong or nested, or it fails and leaves the program alone. -/
def AllOrNothing (p : Program) : Prop :=
  (∃ report, (p.hoist {}).result = .ok report ∧ (p.hoist {}).program.checkFlat = []) ∨
    ∃ e, (p.hoist {}).result = .error e ∧ (p.hoist {}).program = p

/-- A run on a sound program is all or nothing, unless a type's module names a body that does not
exist, the traversal misses a nested type, or it meets one whose module does not own its body. -/
theorem hoist_allOrNothing (p : Program) (hcheck : p.check = []) :
    p.AllOrNothing ∨
    (∃ n b, n ∈ p.preorder ∧ p.dest? n = some b ∧ p.blocks[b]? = none ∧
      (p.hoist {}).result = .error (.link (.unknownBlock b))) ∨
    ∃ found, (p.hoist {}).result = .error (.verification .output found) ∧
      ((∃ n, (p.nested? n).isSome ∧ n ∉ p.preorder) ∨ ∃ n ∈ p.preorder, ¬ p.Housed n) := by
  have hends : p.EndsIn {} p.preorder (p.hoist {}).result (p.hoist {}).program :=
    p.hoistNodes_endsIn {} p.preorder
  unfold AllOrNothing
  generalize (p.hoist {}).result = result at hends ⊢
  generalize (p.hoist {}).program = q at hends ⊢
  cases hends with
  | rejected _ hc => exact absurd hcheck hc
  | unplanned _ _ => exact .inl (.inr ⟨_, rfl, rfl⟩)
  | stuck _ hplan hrun =>
    -- the definitions are all there, so it can only be a target that is not
    obtain ⟨hd, hp, -⟩ := check_eq_nil_iff.1 hcheck
    have hm := planned_of_plan hd hplan
    obtain ⟨m, hmem, ht, rfl⟩ := hp.performAll_error (fun _ => hm.lt_size) hrun
    obtain ⟨n, hn, hnested⟩ := exists_of_plan hplan hmem
    obtain ⟨-, -, -, hmod, hbody⟩ := planMove_eq_ok_iff.1 (hm.each m hmem)
    have hdest : p.dest? n = some m.target := by simp [dest?, hnested, hmod, hbody]
    exact .inr (.inl ⟨n, m.target, hn, hdest, ht, rfl⟩)
  | unsound _ hplan hrun _ hc =>
    refine .inr (.inr ⟨_, rfl, ?_⟩)
    by_contra hnone
    push Not at hnone
    exact hc (checkFlat_of_performAll hcheck hplan hrun hnone.1 hnone.2)
  | done _ _ _ ho => exact .inl (.inl ⟨_, rfl, ho rfl⟩)

theorem hoist_allOrNothing_threeDeep : threeDeep.check = [] ∧ threeDeep.AllOrNothing := by
  have hcheck : threeDeep.check = [] := by decide
  have hok : (threeDeep.hoist {}).result.isOk := by decide
  refine ⟨hcheck, ?_⟩
  rcases hoist_allOrNothing threeDeep hcheck with h | ⟨_, _, _, _, _, herr⟩ | ⟨_, herr, _⟩
  · exact h
  · simp [herr, Except.isOk, Except.toBool] at hok
  · simp [herr, Except.isOk, Except.toBool] at hok

/-- Only the innermost type can be reached. -/
def buriedRoot : Program := { threeDeep with roots := [⟨3⟩] }

/-- The module names a body that does not exist. -/
def bodiless : Program := { threeDeep.setKind ⟨0⟩ (.module ⟨0⟩ ⟨9⟩) with roots := [⟨1⟩] }

/-- The module names the body of its type as its own. -/
def borrowed : Program := threeDeep.setKind ⟨0⟩ (.module ⟨0⟩ ⟨1⟩)

theorem not_allOrNothing {e : HoistError} (h : (p.hoist {}).result = .error e)
    (hne : (p.hoist {}).program ≠ p) : ¬ p.AllOrNothing := by
  rintro (⟨report, hok, _⟩ | ⟨_, _, hsame⟩)
  · simp [h] at hok
  · exact hne hsame

/-- Each exception does occur, and then types have moved although the run fails. -/
theorem not_hoist_allOrNothing :
    (buriedRoot.check = [] ∧ ¬ buriedRoot.AllOrNothing) ∧
    (bodiless.check = [] ∧ ¬ bodiless.AllOrNothing) ∧
    (borrowed.check = [] ∧ ¬ borrowed.AllOrNothing) := by
  have hburied : (buriedRoot.hoist {}).result =
      .error (.verification .output [.nestedType ⟨2⟩]) := by decide
  have hbodiless : (bodiless.hoist {}).result = .error (.link (.unknownBlock ⟨9⟩)) := by decide
  have hborrowed : (borrowed.hoist {}).result =
      .error (.verification .output [.nestedType ⟨2⟩, .nestedType ⟨3⟩]) := by decide
  exact ⟨⟨by decide, not_allOrNothing hburied (by decide)⟩,
    ⟨by decide, not_allOrNothing hbodiless (by decide)⟩,
    ⟨by decide, not_allOrNothing hborrowed (by decide)⟩⟩

end Hoist.Program
