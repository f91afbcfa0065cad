import Hoist.Proofs.Destination
import Hoist.Proofs.PlainLists

/-! How a run ends, stage by stage, and that one run is enough. -/
namespace Hoist

/-- The moves one after the other, up to the first that fails. -/
def Move.performAll : List Move → Edit Unit
  | [] => return ()
  | m :: rest => do
    m.perform
    performAll rest

namespace Pass

variable {s : Session} {p q : Program} {options : HoistOptions} {moves : List Move}

theorem edit_ok {α : Type} {x : Edit α} {a : α} (h : x s.program = .ok a q) :
    edit x s = .ok a ⟨q, s.log⟩ := by
  simp [edit, EStateM.run, h]

theorem edit_error {α : Type} {x : Edit α} {e : LinkError} (h : x s.program = .error e q) :
    edit x s = .error (.link e) ⟨q, s.log⟩ := by
  simp [edit, EStateM.run, h]

/-- Apart from the log, performing moves is an edit. -/
theorem performAll_eq (moves : List Move) (s : Session) :
    ∃ log, performAll moves s = edit (Move.performAll moves) ⟨s.program, log⟩ := by
  induction moves generalizing s with
  | nil => exact ⟨s.log, rfl⟩
  | cons m moves ih =>
    cases hm : m.perform s.program with
    | error e q =>
      refine ⟨s.log, ?_⟩
      rw [performAll, bind_error (edit_error hm)]
      exact (edit_error (bind_error hm)).symm
    | ok _ q =>
      let entry : Entry :=
        { event := .moved m.symbol (q.symbols.name m.symbol) (q.symbols.name m.module) }
      obtain ⟨log, hrest⟩ := ih ⟨q, s.log ++ [entry]⟩
      refine ⟨log, ?_⟩
      have hedit : edit (Move.performAll (m :: moves)) ⟨s.program, log⟩ =
          edit (Move.performAll moves) ⟨q, log⟩ := by
        simp only [edit, EStateM.run, Move.performAll, bind_ok hm]
      rw [performAll, bind_ok (edit_ok hm), hedit, ← hrest]
      rfl

theorem require_error {violations : List Violation} (stage : Stage) (h : violations ≠ []) :
    ∃ log, require stage violations s =
      .error (.verification stage violations) ⟨s.program, log⟩ := by
  refine ⟨s.log ++ (violations.map (Event.violated stage)).map (⟨·, []⟩), ?_⟩
  cases violations with
  | nil => exact absurd rfl h
  | cons v rest => rfl

theorem hoist_rejected (nodes : List NodeId) (hv : options.verifyInput) (hc : p.check ≠ []) :
    ∃ log, hoist options nodes { program := p } =
      .error (.verification .input p.check) ⟨p, log⟩ := by
  obtain ⟨log, hreq⟩ := require_error (s := { program := p }) .input hc
  refine ⟨log, ?_⟩
  simp only [hoist, hv, if_true]
  rw [bind_ok (get_eq _), bind_error hreq]

theorem finish_stuck {t : Session} {e : HoistError} (nodes : List NodeId)
    (hrun : performAll moves s = .error e t) : finish options nodes moves s = .error e t := by
  rw [finish, bind_error hrun]

theorem finish_unsound {t : Session} (nodes : List NodeId) (hrun : performAll moves s = .ok () t)
    (hv : options.verifyOutput) (hc : t.program.checkFlat ≠ []) :
    ∃ log, finish options nodes moves s =
      .error (.verification .output t.program.checkFlat) ⟨t.program, log⟩ := by
  rw [finish, bind_ok hrun]
  simp only [hv, if_true]
  rw [bind_ok (checkFlat_eq t)]
  obtain ⟨log, hreq⟩ := require_error (s := ⟨t.program, _⟩) .output hc
  exact ⟨log, bind_error hreq⟩

end Pass

namespace Program

variable {p q : Program} {options : HoistOptions} {nodes : List NodeId} {report : Report}
  {moves : List Move}

/-- How a run can end: what it returns and the program it leaves behind, with one case for each
stage at which it may stop. -/
inductive EndsIn (p : Program) (options : HoistOptions) (nodes : List NodeId) :
    Except HoistError Report → Program → Prop
  | rejected (hv : options.verifyInput) (hc : p.check ≠ []) :
    EndsIn p options nodes (.error (.verification .input p.check)) p
  | unplanned {e : PlanError} (hi : options.verifyInput → p.check = [])
    (hplan : p.plan (p.discover nodes) = .error e) : EndsIn p options nodes (.error (.plan e)) p
  | stuck {moves : List Move} {e : LinkError} {q : Program}
    (hi : options.verifyInput → p.check = []) (hplan : p.plan (p.discover nodes) = .ok moves)
    (hrun : Move.performAll moves p = .error e q) : EndsIn p options nodes (.error (.link e)) q
  | unsound {moves : List Move} {q : Program} (hi : options.verifyInput → p.check = [])
    (hplan : p.plan (p.discover nodes) = .ok moves) (hrun : Move.performAll moves p = .ok () q)
    (hv : options.verifyOutput) (hc : q.checkFlat ≠ []) :
    EndsIn p options nodes (.error (.verification .output q.checkFlat)) q
  | done {moves : List Move} {q : Program} (hi : options.verifyInput → p.check = [])
    (hplan : p.plan (p.discover nodes) = .ok moves) (hrun : Move.performAll moves p = .ok () q)
    (ho : options.verifyOutput → q.checkFlat = []) :
    EndsIn p options nodes (.ok ⟨nodes.length, moves⟩) q

theorem EndsIn.of_error {e : HoistError} {s : Session}
    (h : Pass.hoist options nodes { program := p } = .error e s)
    (hend : p.EndsIn options nodes (.error e) s.program) :
    p.EndsIn options nodes (p.hoistNodes options nodes).result
      (p.hoistNodes options nodes).program := by
  simpa [hoistNodes, EStateM.run, h] using hend

theorem EndsIn.of_ok {s : Session} (h : Pass.hoist options nodes { program := p } = .ok report s)
    (hend : p.EndsIn options nodes (.ok report) s.program) :
    p.EndsIn options nodes (p.hoistNodes options nodes).result
      (p.hoistNodes options nodes).program := by
  simpa [hoistNodes, EStateM.run, h] using hend

/-- Once it has its moves, a run gets stuck at one, fails the last check or succeeds. -/
theorem EndsIn.of_plan {log : List Entry} (hi : options.verifyInput → p.check = [])
    (hplan : p.plan (p.discover nodes) = .ok moves)
    (hrun : Pass.hoist options nodes { program := p } = Pass.finish options nodes moves ⟨p, log⟩) :
    p.EndsIn options nodes (p.hoistNodes options nodes).result
      (p.hoistNodes options nodes).program := by
  obtain ⟨log', hmoves⟩ := Pass.performAll_eq moves ⟨p, log⟩
  cases hm : Move.performAll moves p with
  | error e q =>
    rw [Pass.edit_error (s := ⟨p, log'⟩) hm] at hmoves
    rw [Pass.finish_stuck nodes hmoves] at hrun
    exact .of_error hrun (.stuck hi hplan hm)
  | ok _ q =>
    rw [Pass.edit_ok (s := ⟨p, log'⟩) hm] at hmoves
    by_cases ho : options.verifyOutput → q.checkFlat = []
    · obtain ⟨_, hfinish⟩ := Pass.finish_ok nodes hmoves ho
      exact .of_ok (hrun.trans hfinish) (.done hi hplan hm ho)
    · obtain ⟨hv, hc⟩ := Classical.not_imp.1 ho
      obtain ⟨_, hfinish⟩ := Pass.finish_unsound nodes hmoves hv hc
      exact .of_error (hrun.trans hfinish) (.unsound hi hplan hm hv hc)

/-- Every run ends in one of these ways. -/
theorem hoistNodes_endsIn (p : Program) (options : HoistOptions) (nodes : List NodeId) :
    p.EndsIn options nodes (p.hoistNodes options nodes).result
      (p.hoistNodes options nodes).program := by
  by_cases hi : options.verifyInput → p.check = []
  · obtain ⟨log, hrun⟩ := Pass.hoist_eq nodes hi
    cases hplan : p.plan (p.discover nodes) with
    | error e =>
      rw [bind_error (Pass.plan_error (s := ⟨p, log⟩) hplan)] at hrun
      exact .of_error hrun (.unplanned hi hplan)
    | ok moves =>
      rw [bind_ok (Pass.plan_ok (s := ⟨p, log⟩) hplan)] at hrun
      exact .of_plan hi hplan hrun
  · obtain ⟨hv, hc⟩ := Classical.not_imp.1 hi
    obtain ⟨log, hrun⟩ := Pass.hoist_rejected nodes hv hc
    exact .of_error hrun (.rejected hv hc)

/-- A run that succeeds has made the moves it reports, which are those that were planned. -/
theorem performAll_of_result (h : (p.hoistNodes options nodes).result = .ok report) :
    p.plan (p.discover nodes) = .ok report.moves ∧
      Move.performAll report.moves p = .ok () (p.hoistNodes options nodes).program ∧
      (options.verifyOutput → (p.hoistNodes options nodes).program.checkFlat = []) := by
  have hends := p.hoistNodes_endsIn options nodes
  rw [h] at hends
  generalize (p.hoistNodes options nodes).program = q at hends ⊢
  cases hends with
  | done hi hplan hrun ho => exact ⟨hplan, hrun, ho⟩

/-- Nothing is left to do: a run with any options and on any enumeration, the program's own
included, succeeds, moves nothing and leaves the program as it is. -/
def Settled (q : Program) : Prop :=
  ∀ options nodes, (q.hoistNodes options nodes).result = .ok ⟨nodes.length, []⟩ ∧
    (q.hoistNodes options nodes).program = q

theorem discover_of_flat (h : ∀ n, q.nested? n = none) (nodes : List NodeId) :
    (q.discover nodes).order = [] := by
  rw [List.eq_nil_iff_forall_not_mem]
  intro s hs
  obtain ⟨n, _, hn⟩ := mem_discover.1 hs
  simp [h n] at hn

theorem settled_of_checkFlat (h : q.checkFlat = []) : q.Settled := by
  intro options nodes
  obtain ⟨hcheck, hflat⟩ := checkFlat_eq_nil_iff.1 h
  have hnothing : q.plan (q.discover nodes) = .ok [] := by
    rw [plan, discover_of_flat hflat]
    rfl
  have hends := q.hoistNodes_endsIn options nodes
  generalize (q.hoistNodes options nodes).result = result at hends ⊢
  generalize (q.hoistNodes options nodes).program = r at hends ⊢
  -- with no move to make, only success is left
  cases hends with
  | rejected _ hc => exact absurd hcheck hc
  | unplanned _ hplan => simp [hnothing] at hplan
  | stuck _ hplan hrun =>
    obtain rfl : [] = _ := by simpa [hnothing] using hplan
    cases hrun
  | unsound _ hplan hrun _ hc =>
    obtain rfl : [] = _ := by simpa [hnothing] using hplan
    cases hrun
    exact absurd h hc
  | done _ hplan hrun _ =>
    obtain rfl : [] = _ := by simpa [hnothing] using hplan
    cases hrun
    exact ⟨rfl, rfl⟩

/-- One run is enough: if it checked its result and succeeded, or if the program was lowered, any
further run has nothing to do. -/
theorem hoist_idempotent :
    (∀ (p : Program) options nodes report, options.verifyOutput = true →
      (p.hoistNodes options nodes).result = .ok report →
      (p.hoistNodes options nodes).program.Settled) ∧
    ∀ (source : Source.Program) options, ∃ l report, source.lower = .ok l ∧
      (l.program.hoist options).result = .ok report ∧
      (l.program.hoist options).program.Settled := by
  refine ⟨fun p options nodes report hv hres => ?_, fun source options => ?_⟩
  · obtain ⟨_, _, ho⟩ := performAll_of_result hres
    exact settled_of_checkFlat (ho hv)
  · obtain ⟨p, ids, hlower, hp, _⟩ := source.lower_holds
    obtain ⟨moves, _, hres, _, hflat⟩ := hp.hoist_ok options
    exact ⟨_, _, hlower, hres, settled_of_checkFlat hflat⟩

/-- The first run meets the innermost type first; whatever run comes next moves nothing. -/
theorem hoist_idempotent_threeDeep :
    (threeDeep.hoistNodes {} [⟨3⟩, ⟨2⟩]).result =
      .ok ⟨2, [⟨⟨3⟩, ⟨3⟩, ⟨2⟩, ⟨0⟩, ⟨0⟩⟩, ⟨⟨2⟩, ⟨2⟩, ⟨1⟩, ⟨0⟩, ⟨0⟩⟩]⟩ ∧
    (threeDeep.hoistNodes {} [⟨3⟩, ⟨2⟩]).program.Settled := by
  have hres : (threeDeep.hoistNodes {} [⟨3⟩, ⟨2⟩]).result =
      .ok ⟨2, [⟨⟨3⟩, ⟨3⟩, ⟨2⟩, ⟨0⟩, ⟨0⟩⟩, ⟨⟨2⟩, ⟨2⟩, ⟨1⟩, ⟨0⟩, ⟨0⟩⟩]⟩ := by decide
  exact ⟨hres, hoist_idempotent.1 threeDeep {} _ _ rfl hres⟩

end Program

/-- Neither the enumeration nor the checks make a difference to a lowered program: any two runs
return the same report and leave the same program. -/
theorem Source.Program.hoist_enumeration_irrelevant (source : Source.Program)
    (options options' : HoistOptions) :
    ∃ l report, source.lower = .ok l ∧ (l.program.hoist options).result = .ok report ∧
      (l.program.hoist options').result = .ok report ∧
      (l.program.hoist options').program = (l.program.hoist options).program := by
  obtain ⟨p, ids, hlower, hp, _⟩ := source.lower_holds
  obtain ⟨moves, hplan, hres, _, _⟩ := hp.hoist_ok options
  obtain ⟨moves', hplan', hres', _, _⟩ := hp.hoist_ok options'
  have hfound : p.discover (p.enumerate options'.enumeration) =
      p.discover (p.enumerate options.enumeration) := by
    apply Discovery.ext
    rw [hp.order_discover, hp.order_discover]
  obtain rfl : moves = moves' := by
    rw [hfound, hplan] at hplan'
    exact Except.ok.inj hplan'
  have hrun := (Program.performAll_of_result hres).2.1
  have hrun' := (Program.performAll_of_result hres').2.1
  rw [hrun] at hrun'
  injection hrun' with _ hprogram
  exact ⟨_, _, hlower, hres, hres', hprogram.symm⟩

end Hoist
