import Hoist.Proofs.Atomicity
import Hoist.Proofs.Stepwise

/-! What the enumeration has to do with the outcome of a run. -/
namespace Hoist

/-- The definitions that moves take to a block, in the order of the moves. -/
def Move.definitionsInto (moves : List Move) (b : BlockId) : List NodeId :=
  (moves.filter (·.target = b)).map Move.definition

theorem Move.definitionsInto_eq_nil {moves : List Move} {b : BlockId}
    (h : ∀ m ∈ moves, m.target ≠ b) : definitionsInto moves b = [] := by
  simpa [definitionsInto] using h

namespace Program

variable {p q q' : Program} {options : HoistOptions} {nodes nodes' : List NodeId}
  {moves moves' : List Move} {report report' : Report}

/-- The nested types that an enumeration hits, each where it is hit first. -/
def firstFound (p : Program) (nodes : List NodeId) : List SymbolId :=
  (nodes.filterMap p.nested?).eraseDups

theorem order_discover_eq (p : Program) (nodes : List NodeId) :
    (p.discover nodes).order = p.firstFound nodes :=
  Discovery.order_ofList _

/-- What a run comes to once it has discovered these types, apart from its log. -/
def ending (p : Program) (options : HoistOptions) (types : Discovery) :
    Except HoistError (List Move) × Program :=
  if options.verifyInput ∧ p.check ≠ [] then (.error (.verification .input p.check), p)
  else
    match p.plan types with
    | .error e => (.error (.plan e), p)
    | .ok moves =>
      match Move.performAll moves p with
      | .error e q => (.error (.link e), q)
      | .ok _ q =>
        if options.verifyOutput ∧ q.checkFlat ≠ [] then
          (.error (.verification .output q.checkFlat), q)
        else (.ok moves, q)

theorem hoistNodes_ending (p : Program) (options : HoistOptions) (nodes : List NodeId) :
    ((p.hoistNodes options nodes).result.map Report.moves,
      (p.hoistNodes options nodes).program) = p.ending options (p.discover nodes) := by
  have hpass : ∀ {verify : Bool} {found : List Violation}, (verify → found = []) →
      ¬ (verify ∧ found ≠ []) := fun hnone h => h.2 (hnone h.1)
  have hends := p.hoistNodes_endsIn options nodes
  generalize (p.hoistNodes options nodes).result = result at hends ⊢
  generalize (p.hoistNodes options nodes).program = q at hends ⊢
  cases hends with
  | rejected hv hc =>
    rw [ending, if_pos ⟨hv, hc⟩]
    rfl
  | unplanned hi hplan =>
    rw [ending, if_neg (hpass hi), hplan]
    rfl
  | stuck hi hplan hrun =>
    simp only [ending, if_neg (hpass hi), hplan, hrun]
    rfl
  | unsound hi hplan hrun hv hc =>
    simp only [ending, if_neg (hpass hi), hplan, hrun, if_pos (And.intro hv hc)]
    rfl
  | done hi hplan hrun ho =>
    simp only [ending, if_neg (hpass hi), hplan, hrun, if_neg (hpass ho)]
    rfl

theorem scanned_of_result (h : (p.hoistNodes options nodes).result = .ok report) :
    report.scanned = nodes.length := by
  have hends := p.hoistNodes_endsIn options nodes
  rw [h] at hends
  generalize (p.hoistNodes options nodes).program = q at hends
  cases hends
  rfl

theorem symbols_of_result (h : (p.hoistNodes options nodes).result = .ok report) :
    report.symbols = p.firstFound nodes := by
  obtain ⟨hplan, -, -⟩ := performAll_of_result h
  rw [← order_discover_eq]
  exact (mapM_planMove hplan).1

section Sound

variable (hs : p.Sound) (hm : p.Planned moves) (hm' : p.Planned moves') (hperm : moves.Perm moves')
  (hq : p.Rearranged q (Move.placeAll moves p.members))
  (hq' : p.Rearranged q' (Move.placeAll moves' p.members))

include hs hm hm' hperm hq hq'

/-- Each symbol stands in the same declaration, whichever type has moved first. -/
theorem Sound.outer?_eq (s : SymbolId) : q'.outer? s = q.outer? s := by
  obtain ⟨hd, hp, -⟩ := check_eq_nil_iff.1 hs.check
  by_cases hdef : ∃ move ∈ moves, p.definition? s = some move.definition
  · obtain ⟨move, hmove, hdef⟩ := hdef
    rw [outer?_moved (hm.homebound hd hs.bodies) hm hq hmove hdef,
      outer?_moved (hm'.homebound hd hs.bodies) hm' hq' (hperm.mem_iff.1 hmove) hdef]
  · have hdef' : ¬ ∃ move ∈ moves', p.definition? s = some move.definition :=
      fun ⟨move, hmove, h⟩ => hdef ⟨move, hperm.mem_iff.2 hmove, h⟩
    rw [outer?_kept hm hq hp hdef, outer?_kept hm' hq' hp hdef']

theorem Sound.nested?_eq (n : NodeId) : q'.nested? n = q.nested? n := by
  have houter := hs.outer?_eq hm hm' hperm hq hq'
  simp only [nested?, hq.relinked.kind?, hq'.relinked.kind?, hq.relinked.isType,
    hq'.relinked.isType, houter]

/-- If nothing is wrong with one result, nothing is wrong with the other. -/
theorem Sound.checkFlat_of_perm (hflat : q.checkFlat = []) : q'.checkFlat = [] := by
  obtain ⟨hd, hp, hr⟩ := check_eq_nil_iff.1 hs.check
  have hcheck := check_after (hm'.homebound hd hs.bodies) hm' hq' hp hd hr
  refine checkFlat_eq_nil_iff.2 ⟨hcheck, fun n => ?_⟩
  rw [hs.nested?_eq hm hm' hperm hq hq']
  exact (checkFlat_eq_nil_iff.1 hflat).2 n

end Sound

/-- Two runs on `p` have moved the same types to the same blocks. A block to which none has moved
lists the same nodes; any other lists what it kept, followed by the same types, in one order or
another. -/
structure SameButOrder (p : Program) (moves moves' : List Move) (q q' : Program) : Prop where
  perm : moves.Perm moves'
  untouched : ∀ b, (∀ m ∈ moves, m.target ≠ b) → q'.members b = q.members b
  lists : ∀ b, q.members b =
    (p.members b).filter (· ∉ moves.map Move.definition) ++ Move.definitionsInto moves b
  lists' : ∀ b, q'.members b =
    (p.members b).filter (· ∉ moves.map Move.definition) ++ Move.definitionsInto moves' b
  arrivals : ∀ b, (Move.definitionsInto moves b).Perm (Move.definitionsInto moves' b)

theorem Planned.sameButOrder (hm : p.Planned moves) (hm' : p.Planned moves')
    (hperm : moves.Perm moves') (hq : p.Rearranged q (Move.placeAll moves p.members))
    (hq' : p.Rearranged q' (Move.placeAll moves' p.members)) :
    p.SameButOrder moves moves' q q' := by
  have hfirst : ∀ b, q.members b =
      (p.members b).filter (· ∉ moves.map Move.definition) ++ Move.definitionsInto moves b := by
    intro b
    rw [hq.members, Move.placeAll_eq hm.nodup, Move.definitionsInto]
  have hsecond : ∀ b, q'.members b =
      (p.members b).filter (· ∉ moves.map Move.definition) ++ Move.definitionsInto moves' b := by
    intro b
    rw [hq'.members, Move.placeAll_eq hm'.nodup, Move.definitionsInto]
    congr 1
    apply List.filter_congr
    intro n _
    simp only [(hperm.map Move.definition).mem_iff]
  refine ⟨hperm, fun b hb => ?_, hfirst, hsecond, fun b => (hperm.filter _).map _⟩
  have hb' : ∀ m ∈ moves', m.target ≠ b := fun m hm => hb m (hperm.mem_iff.2 hm)
  rw [hfirst, hsecond, Move.definitionsInto_eq_nil hb, Move.definitionsInto_eq_nil hb']

/-- A planned run on a sound program rearranges the lists as its moves say. -/
theorem Sound.rearranged_of_result (hs : p.Sound)
    (h : (p.hoistNodes options nodes).result = .ok report) :
    p.Planned report.moves ∧ p.Rearranged (p.hoistNodes options nodes).program
      (Move.placeAll report.moves p.members) := by
  obtain ⟨hd, hp, -⟩ := check_eq_nil_iff.1 hs.check
  obtain ⟨hplan, hrun, -⟩ := performAll_of_result h
  have hm := planned_of_plan hd hplan
  have hh := hm.homebound hd hs.bodies
  exact ⟨hm, hp.rearranged_of_performAll (fun _ => hm.lt_size) (fun _ => hh.isSome_target) hrun⟩

theorem perm_discover
    (hset : ∀ s, (∃ n ∈ nodes, p.nested? n = some s) ↔ ∃ n ∈ nodes', p.nested? n = some s) :
    (p.discover nodes).order.Perm (p.discover nodes').order := by
  apply (List.perm_ext_iff_of_nodup (p.discover nodes).nodup (p.discover nodes').nodup).2
  intro s
  rw [mem_discover, mem_discover, hset]

/-- A run that succeeds would have succeeded in another order as well. -/
theorem Sound.result_of_perm (hs : p.Sound)
    (hperm : (p.discover nodes).order.Perm (p.discover nodes').order)
    (h : (p.hoistNodes options nodes).result = .ok report) :
    ∃ report', (p.hoistNodes options nodes').result = .ok report' ∧
      report.moves.Perm report'.moves := by
  obtain ⟨hd, hp, -⟩ := check_eq_nil_iff.1 hs.check
  obtain ⟨hplan, -, hflat⟩ := performAll_of_result h
  obtain ⟨hm, hq⟩ := hs.rearranged_of_result h
  obtain ⟨moves', hplan', hmoves⟩ := mapM_perm hperm hplan
  have hm' : p.Planned moves' := planned_of_plan hd hplan'
  have hh' := hm'.homebound hd hs.bodies
  have hres := hoistNodes_of_plan (fun _ : options.verifyInput => hs.check) hplan' hp
    (fun _ => hm'.lt_size) (fun _ => hh'.isSome_target)
    fun hv q' hq' => hs.checkFlat_of_perm hm hm' hmoves hq hq' (hflat hv)
  exact ⟨_, hres.1, hmoves⟩

/-- A run depends on its enumeration only through the order in which it first hits the nested types.
On a sound program even that changes only the order in which the types arrive in each block. -/
theorem hoistNodes_order_only (p : Program) (options : HoistOptions) (nodes nodes' : List NodeId) :
    (p.firstFound nodes = p.firstFound nodes' →
      (p.hoistNodes options nodes).result.map Report.moves =
        (p.hoistNodes options nodes').result.map Report.moves ∧
      (p.hoistNodes options nodes).program = (p.hoistNodes options nodes').program ∧
      ∀ report, (p.hoistNodes options nodes).result = .ok report →
        report.scanned = nodes.length ∧ report.symbols = p.firstFound nodes ∧
        report.symbols.Nodup) ∧
    (p.check = [] → p.BodiesOwned →
      (∀ s, (∃ n ∈ nodes, p.nested? n = some s) ↔ ∃ n ∈ nodes', p.nested? n = some s) →
      ((∃ report, (p.hoistNodes options nodes).result = .ok report) ↔
        ∃ report', (p.hoistNodes options nodes').result = .ok report') ∧
      ∀ report report', (p.hoistNodes options nodes).result = .ok report →
        (p.hoistNodes options nodes').result = .ok report' →
        p.SameButOrder report.moves report'.moves (p.hoistNodes options nodes).program
          (p.hoistNodes options nodes').program) := by
  constructor
  · intro hfound
    have htypes : p.discover nodes = p.discover nodes' := by
      apply Discovery.ext
      rw [order_discover_eq, order_discover_eq, hfound]
    have hending := (p.hoistNodes_ending options nodes).trans
      (htypes ▸ (p.hoistNodes_ending options nodes').symm)
    obtain ⟨hresult, hprogram⟩ := Prod.mk.inj hending
    refine ⟨hresult, hprogram, fun report hreport => ?_⟩
    have hsymbols := symbols_of_result hreport
    refine ⟨scanned_of_result hreport, hsymbols, ?_⟩
    rw [hsymbols, ← order_discover_eq]
    exact (p.discover nodes).nodup
  · intro hcheck ho hset
    have hs : p.Sound := ⟨hcheck, ho⟩
    have hperm := perm_discover hset
    refine ⟨⟨?_, ?_⟩, ?_⟩
    · rintro ⟨report, h⟩
      obtain ⟨report', h', -⟩ := hs.result_of_perm hperm h
      exact ⟨report', h'⟩
    · rintro ⟨report', h'⟩
      obtain ⟨report, h, -⟩ := hs.result_of_perm hperm.symm h'
      exact ⟨report, h⟩
    · intro report report' h h'
      obtain ⟨_, h'', hmoves⟩ := hs.result_of_perm hperm h
      obtain rfl : report' = _ := by simpa [h'] using h''
      obtain ⟨hm, hq⟩ := hs.rearranged_of_result h
      obtain ⟨hm', hq'⟩ := hs.rearranged_of_result h'
      exact hm.sameButOrder hm' hmoves hq hq'

/-- The first two enumerations hit the innermost type first, once with repetitions and other nodes
in between; the third hits it last. -/
theorem hoistNodes_order_only_threeDeep :
    threeDeep.firstFound [⟨3⟩, ⟨9⟩, ⟨2⟩, ⟨0⟩, ⟨3⟩] = threeDeep.firstFound [⟨3⟩, ⟨2⟩] ∧
    (threeDeep.hoistNodes {} [⟨3⟩, ⟨9⟩, ⟨2⟩, ⟨0⟩, ⟨3⟩]).program =
      (threeDeep.hoistNodes {} [⟨3⟩, ⟨2⟩]).program ∧
    threeDeep.check = [] ∧ threeDeep.BodiesOwned ∧
    ∃ report report', (threeDeep.hoistNodes {} [⟨3⟩, ⟨2⟩]).result = .ok report ∧
      (threeDeep.hoistNodes {} [⟨2⟩, ⟨3⟩]).result = .ok report' ∧
      threeDeep.SameButOrder report.moves report'.moves
        (threeDeep.hoistNodes {} [⟨3⟩, ⟨2⟩]).program
        (threeDeep.hoistNodes {} [⟨2⟩, ⟨3⟩]).program := by
  have hfound : threeDeep.firstFound [⟨3⟩, ⟨9⟩, ⟨2⟩, ⟨0⟩, ⟨3⟩] =
      threeDeep.firstFound [⟨3⟩, ⟨2⟩] := by decide
  have hcheck : threeDeep.check = [] := by decide
  have ho : threeDeep.BodiesOwned := by decide
  have hset : ∀ s, (∃ n ∈ [⟨3⟩, ⟨2⟩], threeDeep.nested? n = some s) ↔
      ∃ n ∈ [⟨2⟩, ⟨3⟩], threeDeep.nested? n = some s := by
    intro s
    simp [or_comm]
  refine ⟨hfound, ((hoistNodes_order_only threeDeep {} _ _).1 hfound).2.1, hcheck, ho, ?_⟩
  obtain ⟨hiff, hsame⟩ := (hoistNodes_order_only threeDeep {} _ _).2 hcheck ho hset
  have hok : (threeDeep.hoistNodes {} [⟨3⟩, ⟨2⟩]).result =
      .ok ⟨2, [⟨⟨3⟩, ⟨3⟩, ⟨2⟩, ⟨0⟩, ⟨0⟩⟩, ⟨⟨2⟩, ⟨2⟩, ⟨1⟩, ⟨0⟩, ⟨0⟩⟩]⟩ := by decide
  obtain ⟨report', hok'⟩ := hiff.1 ⟨_, hok⟩
  exact ⟨_, report', hok, hok', hsame _ report' hok hok'⟩

end Program
end Hoist
