import Hoist.Proofs.Checking
import Hoist.Proofs.Enclosure
import Hoist.Proofs.Moving

/-! Hoisting on any program that passes its checks and whose bodies have their owners. -/
namespace Hoist

namespace Program

variable {p q : Program} {s t m : SymbolId} {n : NodeId} {b : BlockId} {move : Move}
  {moves : List Move} {nodes : List NodeId} {e : PlanError}

theorem nested?_eq_some_iff : p.nested? n = some s ↔ ∃ k t, p.kind? n = some k ∧
    k.typeDef? = some s ∧ p.isType s ∧ p.outer? s = some t ∧ p.isType t := by
  simp only [nested?, bind, Option.bind_eq_some_iff]
  grind

theorem mem_ids_of_nested? (h : (p.nested? n).isSome) : n ∈ p.nodes.ids := by
  obtain ⟨s, hs⟩ := Option.isSome_iff_exists.1 h
  obtain ⟨k, _, hk, _⟩ := nested?_eq_some_iff.1 hs
  obtain ⟨node, hn, _⟩ := kind?_eq_some_iff.1 hk
  exact Table.mem_ids.2 (Table.lt_size_of_getElem? hn)

theorem planMove_eq_ok_iff : p.planMove s = .ok move ↔ move.symbol = s ∧
    p.definition? s = some move.definition ∧ p.block? move.definition = some move.source ∧
      p.module? s = some move.module ∧ p.moduleBody? move.module = some move.target := by
  obtain ⟨symbol, definition, source, module, target⟩ := move
  unfold planMove
  cases hd : p.definition? s with
  | none => simp [throw, throwThe, MonadExceptOf.throw]
  | some d =>
    cases hb : p.block? d with
    | none =>
      simp [hb, throw, throwThe, MonadExceptOf.throw]
      grind
    | some b =>
      cases hm : p.module? s with
      | none => simp [hb, throw, throwThe, MonadExceptOf.throw]
      | some m =>
        cases ht : p.moduleBody? m with
        | none =>
          simp [hb, ht, throw, throwThe, MonadExceptOf.throw]
          grind
        | some t =>
          simp [hb, ht, pure, Except.pure]
          grind

theorem declared?_of_outer? (h : p.outer? s = some t) : ∃ n, p.declared? n = some t := by
  obtain ⟨d, _, hw⟩ := Option.bind_eq_some_iff.1 h
  obtain ⟨n, _, hn⟩ := Option.bind_eq_some_iff.1 hw
  exact ⟨n, hn⟩

theorem LeadsTo.declared (h : p.LeadsTo s m) (hs : ∃ n, p.declared? n = some s) :
    ∃ n, p.declared? n = some m := by
  obtain ⟨d, h⟩ := h
  induction d generalizing s with
  | zero => simp [moduleFrom] at h
  | succ d ih =>
    obtain ⟨e, he, hm⟩ := moduleFrom_succ_eq_some_iff.1 h
    split at hm
    · exact hm ▸ hs
    · obtain ⟨t, ht, hm⟩ := hm
      exact ih (declared?_of_outer? ht) hm

/-- The definition of a nested type is held by a block, and a type owns that block. -/
theorem exists_block_of_nested? (h : p.nested? n = some s) :
    ∃ d b o t, p.definition? s = some d ∧ p.block? d = some b ∧ p.owner? b = some (some o) ∧
      p.declared? o = some t ∧ p.isType t := by
  obtain ⟨k, t, -, -, -, houter, ht⟩ := nested?_eq_some_iff.1 h
  obtain ⟨d, hd, hwithin⟩ := Option.bind_eq_some_iff.1 houter
  obtain ⟨o, hparent, ho⟩ := Option.bind_eq_some_iff.1 hwithin
  obtain ⟨b, hb, howner⟩ := Option.bind_eq_some_iff.1 hparent
  obtain ⟨block, hblock, howner⟩ := Option.bind_eq_some_iff.1 howner
  exact ⟨d, b, o, t, hd, hb, by simp [owner?, hblock, howner], ho, ht⟩

/-- Why a type has no module to move to. -/
inductive Homeless (p : Program) (s : SymbolId) : PlanError → Prop
  | unrooted (nowhere : p.module? s = none) : Homeless p s (.unrootedType s (p.symbols.name s))
  | bodiless (m : SymbolId) (within : p.module? s = some m)
    (undefined : ∀ n t b, p.definition? m = some n → p.kind? n ≠ some (.module t b)) :
    Homeless p s (.missingModuleBody m)

theorem moduleBody?_eq_none_iff : p.moduleBody? m = none ↔
    ∀ n t b, p.definition? m = some n → p.kind? n ≠ some (.module t b) := by
  rw [Option.eq_none_iff_forall_ne_some]
  constructor
  · intro h n t b hn hk
    exact h b (moduleBody?_eq_some_iff.2 ⟨n, t, hn, hk⟩)
  · intro h b hb
    obtain ⟨n, t, hn, hk⟩ := moduleBody?_eq_some_iff.1 hb
    exact h n t b hn hk

/-- Planning the move of a nested type comes down to its module. -/
theorem planMove_eq_error_iff (h : p.nested? n = some s) :
    p.planMove s = .error e ↔ p.Homeless s e := by
  obtain ⟨d, b, -, -, hdef, hb, -⟩ := exists_block_of_nested? h
  constructor
  · intro he
    cases hm : p.module? s with
    | none =>
      obtain rfl : .unrootedType s (p.symbols.name s) = e := by
        simpa [planMove, hdef, hb, hm, throw, throwThe, MonadExceptOf.throw] using he
      exact .unrooted hm
    | some m =>
      cases hbody : p.moduleBody? m with
      | none =>
        obtain rfl : .missingModuleBody m = e := by
          simpa [planMove, hdef, hb, hm, hbody, throw, throwThe, MonadExceptOf.throw] using he
        exact .bodiless m hm (moduleBody?_eq_none_iff.1 hbody)
      | some target =>
        have hok : p.planMove s = .ok ⟨s, d, b, m, target⟩ :=
          planMove_eq_ok_iff.2 ⟨rfl, hdef, hb, hm, hbody⟩
        rw [hok] at he
        cases he
  · rintro (hm | ⟨m, hm, hundefined⟩)
    · simp [planMove, hdef, hb, hm, throw, throwThe, MonadExceptOf.throw]
    · have hbody := moduleBody?_eq_none_iff.2 hundefined
      simp [planMove, hdef, hb, hm, hbody, throw, throwThe, MonadExceptOf.throw]

/-- The only thing that can be missing for a nested type is a module node for its module. -/
theorem planMove_nested (hr : p.Rooted) (h : p.nested? n = some s) :
    ∃ m, p.module? s = some m ∧ ((∃ move, p.planMove s = .ok move) ∨
      p.moduleBody? m = none ∧ p.planMove s = .error (.missingModuleBody m)) := by
  obtain ⟨-, -, -, -, hty, -, -⟩ := nested?_eq_some_iff.1 h
  obtain ⟨d, b, -, -, hdef, hb, -⟩ := exists_block_of_nested? h
  obtain ⟨m, hm⟩ := Option.isSome_iff_exists.1 (hr s hty (by simp [hdef]))
  refine ⟨m, hm, ?_⟩
  cases hbody : p.moduleBody? m with
  | some target =>
    exact .inl ⟨⟨s, d, b, m, target⟩, planMove_eq_ok_iff.2 ⟨rfl, hdef, hb, hm, hbody⟩⟩
  | none =>
    have hundefined := moduleBody?_eq_none_iff.1 hbody
    exact .inr ⟨rfl, (planMove_eq_error_iff h).2 (.bodiless m hm hundefined)⟩

/-- A module found around a symbol is declared by its definition. -/
theorem Defined.exists_definition (hd : p.Defined) (hm : p.module? s = some m) :
    ∃ n, p.definition? m = some n ∧ p.declared? n = some m := by
  obtain ⟨t, ht, hlead⟩ := module?_eq_some_iff.1 hm
  obtain ⟨n, hn⟩ := hlead.declared (declared?_of_outer? ht)
  exact ⟨n, hd.declared n m hn, hn⟩

/-- A module without a body is one whose definition is something else than a module. -/
theorem definition_of_moduleBody?_eq_none (hd : p.Defined) (hm : p.module? s = some m)
    (h : p.moduleBody? m = none) :
    ∃ n k, p.definition? m = some n ∧ p.kind? n = some k ∧ ∀ s b, k ≠ .module s b := by
  obtain ⟨n, hdef, hn⟩ := hd.exists_definition hm
  obtain ⟨k, hk, _⟩ := Option.bind_eq_some_iff.1 hn
  refine ⟨n, k, hdef, hk, ?_⟩
  rintro s b rfl
  exact moduleBody?_eq_none_iff.1 h n s b hdef hk

/-- A nested type is declared by its definition. -/
theorem Defined.nested (hd : p.Defined) (h : p.nested? n = some s) :
    p.definition? s = some n ∧ p.declared? n = some s := by
  obtain ⟨k, -, hk, hs, -⟩ := nested?_eq_some_iff.1 h
  have hn : p.declared? n = some s := by simp [declared?, hk, NodeKind.declared?_of_typeDef? hs]
  exact ⟨hd.declared n s hn, hn⟩

/-- Every move was planned on `p`, and no definition moves twice. -/
structure Planned (p : Program) (moves : List Move) : Prop where
  each : ∀ move ∈ moves, p.planMove move.symbol = .ok move
  nodup : (moves.map Move.definition).Nodup

theorem Planned.definition? (h : p.Planned moves) (hmove : move ∈ moves) :
    p.definition? move.symbol = some move.definition :=
  (planMove_eq_ok_iff.1 (h.each move hmove)).2.1

theorem Planned.module? (h : p.Planned moves) (hmove : move ∈ moves) :
    p.module? move.symbol = some move.module :=
  (planMove_eq_ok_iff.1 (h.each move hmove)).2.2.2.1

theorem Planned.lt_size (h : p.Planned moves) (hmove : move ∈ moves) :
    move.definition.index < p.nodes.size :=
  lt_size_of_block? (planMove_eq_ok_iff.1 (h.each move hmove)).2.2.1

theorem mapM_planMove {l : List SymbolId} (h : l.mapM p.planMove = .ok moves) :
    moves.map Move.symbol = l ∧ ∀ move ∈ moves, p.planMove move.symbol = .ok move := by
  induction l generalizing moves with
  | nil =>
    obtain rfl : [] = moves := by simpa [pure, Except.pure] using h
    simp
  | cons s l ih =>
    obtain ⟨move, rest, hs, hl, rfl⟩ := mapM_cons_eq_ok h
    obtain ⟨hsym, heach⟩ := ih hl
    have hmove : move.symbol = s := (planMove_eq_ok_iff.1 hs).1
    refine ⟨by rw [List.map_cons, hmove, hsym], ?_⟩
    rintro m (_ | ⟨_, hm⟩)
    · rw [hmove, hs]
    · exact heach m hm

theorem mem_discover : s ∈ (p.discover nodes).order ↔ ∃ n ∈ nodes, p.nested? n = some s := by
  rw [discover, Discovery.mem_ofList, List.mem_filterMap]

/-- A planned move is the move of a nested type that was enumerated. -/
theorem exists_of_plan (hplan : p.plan (p.discover nodes) = .ok moves) (hmove : move ∈ moves) :
    ∃ n ∈ nodes, p.nested? n = some move.symbol := by
  apply mem_discover.1
  rw [← (mapM_planMove hplan).1]
  exact List.mem_map_of_mem hmove

theorem planned_of_plan (hd : p.Defined) (h : p.plan (p.discover nodes) = .ok moves) :
    p.Planned moves := by
  obtain ⟨hsym, heach⟩ := mapM_planMove h
  refine ⟨heach, List.Nodup.of_map p.declared? ?_⟩
  have heq : (moves.map Move.definition).map p.declared? = (moves.map Move.symbol).map some := by
    rw [List.map_map, List.map_map]
    refine List.map_congr_left fun move hmove => ?_
    obtain ⟨n, _, hn⟩ := exists_of_plan h hmove
    obtain ⟨hdef, hdecl⟩ := hd.nested hn
    obtain ⟨-, hdef', -⟩ := planMove_eq_ok_iff.1 (heach move hmove)
    obtain rfl : n = move.definition := by simpa [hdef] using hdef'
    exact hdecl
  rw [heq, hsym]
  exact (p.discover nodes).nodup.map fun _ _ h => Option.some.inj h

/-- Every move leads to a block that the module it names owns. -/
def Homebound (p : Program) (moves : List Move) : Prop :=
  ∀ move ∈ moves, ∃ d, p.owner? move.target = some (some d) ∧ p.declared? d = some move.module

theorem Homebound.isSome_target (h : p.Homebound moves) (hmove : move ∈ moves) :
    (p.blocks[move.target]?).isSome := by
  obtain ⟨d, howner, _⟩ := h move hmove
  simp [isSome_block, howner]

theorem Planned.homebound (hm : p.Planned moves) (hd : p.Defined) (ho : p.BodiesOwned) :
    p.Homebound moves := by
  intro move hmove
  obtain ⟨-, -, -, hmod, hbody⟩ := planMove_eq_ok_iff.1 (hm.each move hmove)
  obtain ⟨d, s, hdef, hk⟩ := moduleBody?_eq_some_iff.1 hbody
  obtain ⟨n, hdef', hn⟩ := hd.exists_definition hmod
  obtain rfl : n = d := by simpa [hdef] using hdef'.symm
  exact ⟨n, ho n _ _ hk rfl, hn⟩

section After

variable (hh : p.Homebound moves) (hm : p.Planned moves)
  (hq : p.Rearranged q (Move.placeAll moves p.members))

include hm hq in
theorem mem_members_after {c : BlockId} : n ∈ q.members c ↔
    n ∈ p.members c ∧ n ∉ moves.map Move.definition ∨
      ∃ move ∈ moves, move.target = c ∧ move.definition = n := by
  rw [hq.members, Move.placeAll_eq hm.nodup]
  simp [and_assoc]

include hm hq in
theorem block?_moved {move : Move} (hmove : move ∈ moves) :
    q.block? move.definition = some move.target := by
  rw [← hq.linked.mem_members, mem_members_after hm hq]
  exact .inr ⟨move, hmove, rfl, rfl⟩

include hm hq in
theorem block?_kept (hp : p.Linked) (hn : n ∉ moves.map Move.definition) :
    q.block? n = p.block? n := by
  apply Option.ext
  intro c
  rw [← hq.linked.mem_members, ← hp.mem_members, mem_members_after hm hq]
  constructor
  · rintro (h | ⟨move, hmove, _, rfl⟩)
    · exact h.1
    · exact absurd (List.mem_map_of_mem hmove) hn
  · exact fun h => .inl ⟨h, hn⟩

include hh hm hq in
theorem within?_moved {move : Move} (hmove : move ∈ moves) :
    q.within? move.definition = some move.module := by
  obtain ⟨d, howner, hdecl⟩ := hh move hmove
  obtain ⟨e, he, hed⟩ := Option.map_eq_some_iff.1 ((hq.relinked.owner _).trans howner)
  simp [within?, parent?, block?_moved hm hq hmove, he, hed, hq.relinked.declared?, hdecl]

include hm hq in
theorem within?_kept (hp : p.Linked) (hn : n ∉ moves.map Move.definition) :
    q.within? n = p.within? n := by
  have hparent : q.parent? n = p.parent? n := by
    simp only [parent?, block?_kept hm hq hp hn]
    cases hb : p.block? n with
    | none => rfl
    | some b =>
      have howner := hq.relinked.owner b
      simp only [owner?] at howner
      cases hqb : q.blocks[b]? <;> cases hpb : p.blocks[b]? <;> simp_all
  simp only [within?, hparent]
  exact bind_congr fun o => hq.relinked.declared? o

include hh hm hq in
/-- Whatever goes by a definition that moved stands in the module of the move. -/
theorem outer?_moved {move : Move} (hmove : move ∈ moves)
    (hs : p.definition? s = some move.definition) : q.outer? s = some move.module := by
  simp [outer?, hq.relinked.definition?, hs, within?_moved hh hm hq hmove]

include hm hq in
theorem outer?_kept (hp : p.Linked)
    (hs : ¬ ∃ move ∈ moves, p.definition? s = some move.definition) : q.outer? s = p.outer? s := by
  simp only [outer?, hq.relinked.definition?]
  cases hdef : p.definition? s with
  | none => rfl
  | some n =>
    refine within?_kept hm hq hp fun hn => ?_
    obtain ⟨move, hmove, rfl⟩ := List.mem_map.1 hn
    exact hs ⟨move, hmove, hdef⟩

/-- A symbol has the module of any move of its definition. -/
theorem Planned.module?_of_definition? (h : p.Planned moves) (hmove : move ∈ moves)
    (hs : p.definition? s = some move.definition) : p.module? s = some move.module := by
  rw [← h.module? hmove]
  exact module?_congr (hs.trans (h.definition? hmove).symm)

include hh hm hq in
/-- A move only shortens the way to the module around a symbol. -/
theorem LeadsTo.after (hp : p.Linked) (h : p.LeadsTo s m) : q.LeadsTo s m := by
  obtain ⟨depth, h⟩ := h
  induction depth generalizing s with
  | zero => simp [moduleFrom] at h
  | succ depth ih =>
    obtain ⟨e, he, hk⟩ := moduleFrom_succ_eq_some_iff.1 h
    have hqe : q.symbols[s]? = some e := by rw [hq.relinked.symbols, he]
    split at hk
    · obtain rfl := hk
      exact leadsTo_self hqe (by assumption)
    · obtain ⟨t, ht, hlead⟩ := hk
      by_cases hs : ∃ move ∈ moves, p.definition? s = some move.definition
      · obtain ⟨move, hmove, hs⟩ := hs
        have hmod := hm.module?_of_definition? hmove hs
        obtain rfl : move.module = m := by
          simpa [hmod] using module?_eq_some_iff.2 ⟨t, ht, depth, hlead⟩
        obtain ⟨e', he', hk'⟩ := moduleFrom_isModule hlead
        exact .of_outer hqe (by assumption) (outer?_moved hh hm hq hmove hs)
          (leadsTo_self (by rw [hq.relinked.symbols, he']) hk')
      · refine .of_outer hqe (by assumption) ?_ (ih hlead)
        rw [outer?_kept hm hq hp hs, ht]

include hh hm hq in
theorem module?_after (hp : p.Linked) (h : p.module? s = some m) : q.module? s = some m := by
  obtain ⟨t, ht, hlead⟩ := module?_eq_some_iff.1 h
  by_cases hs : ∃ move ∈ moves, p.definition? s = some move.definition
  · obtain ⟨move, hmove, hs⟩ := hs
    obtain rfl : move.module = m := by simpa [hm.module?_of_definition? hmove hs] using h
    obtain ⟨e, he, hk⟩ := hlead.isModule
    refine module?_eq_some_iff.2 ⟨_, outer?_moved hh hm hq hmove hs, leadsTo_self ?_ hk⟩
    rw [hq.relinked.symbols, he]
  · refine module?_eq_some_iff.2 ⟨t, ?_, hlead.after hh hm hq hp⟩
    rw [outer?_kept hm hq hp hs, ht]

include hh hm hq in
/-- No move makes a new way to a module. -/
theorem LeadsTo.before (hp : p.Linked) (h : q.LeadsTo s m) : p.LeadsTo s m := by
  obtain ⟨depth, h⟩ := h
  induction depth generalizing s with
  | zero => simp [moduleFrom] at h
  | succ depth ih =>
    obtain ⟨e, he, hk⟩ := moduleFrom_succ_eq_some_iff.1 h
    rw [hq.relinked.symbols] at he
    split at hk
    · obtain rfl := hk
      exact leadsTo_self he (by assumption)
    · obtain ⟨t, ht, hlead⟩ := hk
      by_cases hs : ∃ move ∈ moves, p.definition? s = some move.definition
      · -- what moved stands directly in its module, where the search ends
        obtain ⟨move, hmove, hs⟩ := hs
        obtain rfl : move.module = t := by simpa [outer?_moved hh hm hq hmove hs] using ht
        obtain ⟨t', ht', hlead'⟩ :=
          module?_eq_some_iff.1 (hm.module?_of_definition? hmove hs)
        obtain rfl := (ih hlead).eq_of_isModule hlead'.isModule
        exact .of_outer he (by assumption) ht' hlead'
      · rw [outer?_kept hm hq hp hs] at ht
        exact .of_outer he (by assumption) ht (ih hlead)

include hh hm hq in
/-- The module around a symbol, if there is one, is the same after the moves. -/
theorem module?_eq_after (hp : p.Linked) (s : SymbolId) : q.module? s = p.module? s := by
  apply Option.ext
  intro m
  refine ⟨fun h => ?_, module?_after hh hm hq hp⟩
  obtain ⟨t, ht, hlead⟩ := module?_eq_some_iff.1 h
  by_cases hs : ∃ move ∈ moves, p.definition? s = some move.definition
  · obtain ⟨move, hmove, hs⟩ := hs
    have hmod := hm.module?_of_definition? hmove hs
    obtain rfl : move.module = m := by simpa [module?_after hh hm hq hp hmod] using h
    exact hmod
  · rw [outer?_kept hm hq hp hs] at ht
    exact module?_eq_some_iff.2 ⟨t, ht, hlead.before hh hm hq hp⟩

include hh hm hq in
/-- The moves keep every invariant. -/
theorem check_after (hp : p.Linked) (hd : p.Defined) (hr : p.Rooted) : q.check = [] := by
  refine check_eq_nil_iff.2
    ⟨⟨fun n s hn => ?_, fun s symbol n hs hn => ?_, fun n k s hk hs => ?_⟩, hq.linked, ?_⟩
  · rw [hq.relinked.definition?]
    exact hd.declared n s (by rwa [hq.relinked.declared?] at hn)
  · rw [hq.relinked.declared?]
    exact hd.defined s symbol n (by rwa [hq.relinked.symbols] at hs) hn
  · rw [hq.relinked.isType]
    exact hd.typed n k s (by rwa [hq.relinked.kind?] at hk) hs
  · intro s hs hdef
    rw [hq.relinked.isType] at hs
    rw [hq.relinked.definition?] at hdef
    obtain ⟨m, hmod⟩ := Option.isSome_iff_exists.1 (hr s hs hdef)
    simp [module?_after hh hm hq hp hmod]

include hh hm hq in
/-- Moving every nested type leaves none. -/
theorem nested?_after (hp : p.Linked)
    (hall : ∀ n s, p.nested? n = some s → s ∈ moves.map Move.symbol) :
    q.nested? n = none := by
  cases h : q.nested? n with
  | none => rfl
  | some s =>
    obtain ⟨k, t, hk, hs, hty, ht, htt⟩ := nested?_eq_some_iff.1 h
    rw [hq.relinked.kind?] at hk
    rw [hq.relinked.isType] at hty htt
    by_cases hdef : ∃ move ∈ moves, p.definition? s = some move.definition
    · obtain ⟨move, hmove, hdef⟩ := hdef
      obtain rfl : move.module = t := by simpa [outer?_moved hh hm hq hmove hdef] using ht
      obtain ⟨_, _, hlead⟩ := module?_eq_some_iff.1 (hm.module? hmove)
      obtain ⟨e, he, hmod⟩ := hlead.isModule
      rw [isType_of_getElem? he] at htt
      simp_all [SymbolKind.isModule, SymbolKind.isType]
    · rw [outer?_kept hm hq hp hdef] at ht
      have hmem := hall n s (nested?_eq_some_iff.2 ⟨k, t, hk, hs, hty, ht, htt⟩)
      obtain ⟨move, hmove, rfl⟩ := List.mem_map.1 hmem
      exact absurd ⟨move, hmove, hm.definition? hmove⟩ hdef

include hh hm hq in
/-- Nothing is wrong with the program once every nested type has moved. -/
theorem checkFlat_after (hp : p.Linked) (hd : p.Defined) (hr : p.Rooted)
    (hall : ∀ n s, p.nested? n = some s → s ∈ moves.map Move.symbol) : q.checkFlat = [] :=
  checkFlat_eq_nil_iff.2
    ⟨check_after hh hm hq hp hd hr, fun _ => nested?_after hh hm hq hp hall⟩

end After

/-- Planning what was discovered can only fail at a module that no module node defines. -/
theorem plan_discover_cases (hr : p.Rooted) (nodes : List NodeId) :
    (∃ moves, p.plan (p.discover nodes) = .ok moves) ∨
      ∃ s m, p.module? s = some m ∧ p.moduleBody? m = none ∧
        p.plan (p.discover nodes) = .error (.missingModuleBody m) := by
  cases h : p.plan (p.discover nodes) with
  | ok moves => exact .inl ⟨moves, rfl⟩
  | error e =>
    obtain ⟨before, s, after, horder, -, he⟩ := mapM_eq_error_iff.1 h
    obtain ⟨n, _, hn⟩ := mem_discover.1 (horder ▸ List.mem_append_cons_self)
    obtain ⟨m, hm, ⟨move, hok⟩ | ⟨hbody, herr⟩⟩ := planMove_nested hr hn
    · simp [hok] at he
    · obtain rfl : e = .missingModuleBody m := by simpa [he] using herr
      exact .inr ⟨s, m, hm, hbody, rfl⟩

/-- Once planned on a sound program, a run succeeds, whatever it checks. -/
theorem hoistNodes_planned (options : HoistOptions) (hcheck : p.check = []) (ho : p.BodiesOwned)
    (hnodes : ∀ n, (p.nested? n).isSome → n ∈ nodes)
    (hplan : p.plan (p.discover nodes) = .ok moves) :
    (p.hoistNodes options nodes).result = .ok ⟨nodes.length, moves⟩ ∧
      p.Rearranged (p.hoistNodes options nodes).program (Move.placeAll moves p.members) ∧
      (p.hoistNodes options nodes).program.checkFlat = [] := by
  obtain ⟨hd, hp, hr⟩ := check_eq_nil_iff.1 hcheck
  have hm := planned_of_plan hd hplan
  have hh := hm.homebound hd ho
  have hall : ∀ n s, p.nested? n = some s → s ∈ moves.map Move.symbol := by
    intro n s hn
    rw [(mapM_planMove hplan).1, mem_discover]
    exact ⟨n, hnodes n (by simp [hn]), hn⟩
  have hflat : ∀ q, p.Rearranged q (Move.placeAll moves p.members) → q.checkFlat = [] :=
    fun q hq => checkFlat_after hh hm hq hp hd hr hall
  obtain ⟨hres, hre⟩ := hoistNodes_of_plan (fun _ : options.verifyInput => hcheck) hplan hp
    (fun _ => hm.lt_size) (fun _ => hh.isSome_target) fun _ => hflat
  exact ⟨hres, hre, hflat _ hre⟩

/-- A run either finds a module that no module node defines, and changes nothing, or it leaves no
type inside another and each definition that moved directly in its module. -/
theorem hoistNodes_flattens (p : Program) (hcheck : p.check = []) (ho : p.BodiesOwned)
    (options : HoistOptions) (nodes : List NodeId)
    (hnodes : ∀ n, (p.nested? n).isSome → n ∈ nodes) :
    (∃ m e n k, (p.hoistNodes options nodes).result = .error (.plan (.missingModuleBody m)) ∧
      (p.hoistNodes options nodes).program = p ∧ p.symbols[m]? = some e ∧ e.kind = .module ∧
      p.definition? m = some n ∧ p.kind? n = some k ∧ ∀ s b, k ≠ .module s b) ∨
    ∃ report, (p.hoistNodes options nodes).result = .ok report ∧
      (p.hoistNodes options nodes).program.checkFlat = [] ∧
      ∀ move ∈ report.moves, p.definition? move.symbol = some move.definition ∧
        p.module? move.symbol = some move.module ∧
        (p.hoistNodes options nodes).program.within? move.definition = some move.module := by
  obtain ⟨hd, hp, hr⟩ := check_eq_nil_iff.1 hcheck
  rcases plan_discover_cases hr nodes with ⟨moves, hplan⟩ | ⟨s, m, hmod, hbody, hplan⟩
  · obtain ⟨hres, hre, hflat⟩ := hoistNodes_planned options hcheck ho hnodes hplan
    have hm := planned_of_plan hd hplan
    have hh := hm.homebound hd ho
    refine .inr ⟨_, hres, hflat, fun move hmove => ?_⟩
    exact ⟨hm.definition? hmove, hm.module? hmove, within?_moved hh hm hre hmove⟩
  · obtain ⟨hres, hsame⟩ := hoistNodes_of_plan_error (fun _ : options.verifyInput => hcheck) hplan
    obtain ⟨n, k, hdef, hk, hne⟩ := definition_of_moduleBody?_eq_none hd hmod hbody
    obtain ⟨_, _, hlead⟩ := module?_eq_some_iff.1 hmod
    obtain ⟨e, he, hkind⟩ := hlead.isModule
    have hmodule : e.kind = .module := by simpa [SymbolKind.isModule] using hkind
    exact .inl ⟨m, e, n, k, hres, hsame, he, hmodule, hdef, hk, hne⟩

/-- A module with a type in a type in a type. -/
def threeDeep : Program where
  nodes := ⟨#[{ kind := .module ⟨0⟩ ⟨0⟩ },
    { kind := .typeDef ⟨1⟩ .classType ⟨1⟩, link := { block := some ⟨0⟩ } },
    { kind := .typeDef ⟨2⟩ .classType ⟨2⟩, link := { block := some ⟨1⟩ } },
    { kind := .typeDef ⟨3⟩ .recordType ⟨3⟩, link := { block := some ⟨2⟩ } }]⟩
  blocks := ⟨#[⟨some ⟨0⟩, some ⟨1⟩, some ⟨1⟩, 1⟩, ⟨some ⟨1⟩, some ⟨2⟩, some ⟨2⟩, 1⟩,
    ⟨some ⟨2⟩, some ⟨3⟩, some ⟨3⟩, 1⟩, { owner := some ⟨3⟩ }]⟩
  symbols := ⟨#[{ id := ⟨0⟩, name := "m", kind := .module, definition := some ⟨0⟩ },
    { id := ⟨1⟩, name := "a", kind := .type, definition := some ⟨1⟩ },
    { id := ⟨2⟩, name := "b", kind := .type, definition := some ⟨2⟩ },
    { id := ⟨3⟩, name := "c", kind := .type, definition := some ⟨3⟩ }]⟩
  roots := [⟨0⟩]

theorem hoistNodes_flattens_threeDeep :
    threeDeep.check = [] ∧ threeDeep.BodiesOwned ∧
    (∀ n, (threeDeep.nested? n).isSome → n ∈ [⟨3⟩, ⟨9⟩, ⟨2⟩, ⟨3⟩]) ∧
    ∃ report, (threeDeep.hoistNodes {} [⟨3⟩, ⟨9⟩, ⟨2⟩, ⟨3⟩]).result = .ok report ∧
      (threeDeep.hoistNodes {} [⟨3⟩, ⟨9⟩, ⟨2⟩, ⟨3⟩]).program.checkFlat = [] ∧
      ∀ move ∈ report.moves, threeDeep.definition? move.symbol = some move.definition ∧
        threeDeep.module? move.symbol = some move.module ∧
        (threeDeep.hoistNodes {} [⟨3⟩, ⟨9⟩, ⟨2⟩, ⟨3⟩]).program.within? move.definition =
          some move.module := by
  have hcheck : threeDeep.check = [] := by decide
  have ho : threeDeep.BodiesOwned := by decide
  have hids : ∀ n ∈ threeDeep.nodes.ids, (threeDeep.nested? n).isSome →
      n ∈ ([⟨3⟩, ⟨9⟩, ⟨2⟩, ⟨3⟩] : List NodeId) := by decide
  have hnodes : ∀ n, (threeDeep.nested? n).isSome → n ∈ ([⟨3⟩, ⟨9⟩, ⟨2⟩, ⟨3⟩] : List NodeId) :=
    fun n hn => hids n (mem_ids_of_nested? hn) hn
  refine ⟨hcheck, ho, hnodes, ?_⟩
  rcases hoistNodes_flattens threeDeep hcheck ho {} _ hnodes with ⟨m, e, n, k, hres, _⟩ | h
  · have hok : (threeDeep.hoistNodes {} [⟨3⟩, ⟨9⟩, ⟨2⟩, ⟨3⟩]).result.isOk := by decide
    simp [hres, Except.isOk, Except.toBool] at hok
  · exact h

end Program
end Hoist
