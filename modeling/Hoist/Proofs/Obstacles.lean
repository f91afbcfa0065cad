import Hoist.Proofs.Reordering

/-! What can go wrong with a plan, however corrupt the program is. -/
namespace Hoist.Program

variable {p : Program} {s : SymbolId} {n : NodeId} {e : PlanError} {nodes : List NodeId}
  {moves : List Move}

theorem exists_planMove_iff (h : p.nested? n = some s) :
    (∃ move, p.planMove s = .ok move) ↔ ∀ e, ¬ p.Homeless s e := by
  constructor
  · rintro ⟨move, hok⟩ e he
    rw [(planMove_eq_error_iff h).2 he] at hok
    cases hok
  · intro hhome
    cases hplan : p.planMove s with
    | ok move => exact ⟨move, rfl⟩
    | error e => exact absurd ((planMove_eq_error_iff h).1 hplan) (hhome e)

theorem nested?_of_mem_firstFound (h : s ∈ p.firstFound nodes) : ∃ n, p.nested? n = some s := by
  rw [← order_discover_eq] at h
  obtain ⟨n, -, hn⟩ := mem_discover.1 h
  exact ⟨n, hn⟩

/-- A plan ends at the first type that has no module to move to. -/
theorem plan_discover_eq_error_iff : p.plan (p.discover nodes) = .error e ↔
    ∃ before s after, p.firstFound nodes = before ++ s :: after ∧
      (∀ t ∈ before, ∀ e', ¬ p.Homeless t e') ∧ p.Homeless s e := by
  rw [plan, mapM_eq_error_iff, order_discover_eq]
  refine exists_congr fun before => exists_congr fun s => exists_congr fun after =>
    and_congr_right fun hfound => ?_
  have hnested : ∀ t ∈ before ++ s :: after, ∃ n, p.nested? n = some t := by
    intro t ht
    exact nested?_of_mem_firstFound (hfound ▸ ht)
  apply and_congr
  · refine forall₂_congr fun t ht => ?_
    obtain ⟨n, hn⟩ := hnested t (List.mem_append_left _ ht)
    exact exists_planMove_iff hn
  · obtain ⟨n, hn⟩ := hnested s List.mem_append_cons_self
    exact planMove_eq_error_iff hn

/-- Every block from which a plan takes a definition belongs to a type. -/
theorem owner_of_plan (h : p.plan (p.discover nodes) = .ok moves) {move : Move}
    (hmove : move ∈ moves) : ∃ o t, p.owner? move.source = some (some o) ∧
      p.declared? o = some t ∧ p.isType t := by
  obtain ⟨hsymbols, heach⟩ := mapM_planMove h
  have hmem : move.symbol ∈ (p.discover nodes).order := hsymbols ▸ List.mem_map_of_mem hmove
  obtain ⟨n, -, hn⟩ := mem_discover.1 hmem
  obtain ⟨d, b, o, t, hd, hb, howner, ho, ht⟩ := exists_block_of_nested? hn
  obtain ⟨-, hdef, hsource, -, -⟩ := planMove_eq_ok_iff.1 (heach move hmove)
  obtain rfl : d = move.definition := Option.some.inj (hd.symm.trans hdef)
  obtain rfl : b = move.source := Option.some.inj (hb.symm.trans hsource)
  exact ⟨o, t, howner, ho, ht⟩

/-- A plan of what was discovered fails exactly at the first type that has no module, or one that no
module node defines. Otherwise it takes each type once out of a block that belongs to a type. -/
theorem plan_discover_exact (p : Program) (nodes : List NodeId) :
    (∀ e, p.plan (p.discover nodes) = .error e ↔
      ∃ before s after, p.firstFound nodes = before ++ s :: after ∧
        (∀ t ∈ before, ∀ e', ¬ p.Homeless t e') ∧ p.Homeless s e) ∧
    (∀ s name, p.plan (p.discover nodes) ≠ .error (.missingDefinition s name) ∧
      p.plan (p.discover nodes) ≠ .error (.detachedDefinition s name)) ∧
    ∀ moves, p.plan (p.discover nodes) = .ok moves →
      moves.map Move.symbol = p.firstFound nodes ∧ (moves.map Move.symbol).Nodup ∧
      ∀ move ∈ moves, ∃ o t, p.owner? move.source = some (some o) ∧ p.declared? o = some t ∧
        p.isType t := by
  refine ⟨fun e => plan_discover_eq_error_iff, fun s name => ⟨?_, ?_⟩, fun moves h => ?_⟩
  · intro h
    obtain ⟨_, _, _, -, -, hhomeless⟩ := plan_discover_eq_error_iff.1 h
    cases hhomeless
  · intro h
    obtain ⟨_, _, _, -, -, hhomeless⟩ := plan_discover_eq_error_iff.1 h
    cases hhomeless
  · rw [← order_discover_eq, (mapM_planMove h).1]
    exact ⟨rfl, (p.discover nodes).nodup, fun move hmove => owner_of_plan h hmove⟩

/-- Two nodes claim the type `b`, one of them in no block, and a third node in the body of `a` is
given as its definition. The type `d` stands in `c`, and `c` stands in nothing. -/
def twoClaimants : Program where
  nodes := ⟨#[{ kind := .module ⟨0⟩ ⟨0⟩ },
    { kind := .typeDef ⟨1⟩ .classType ⟨1⟩, link := { block := some ⟨0⟩ } },
    { kind := .typeDef ⟨2⟩ .classType ⟨2⟩, link := { block := some ⟨1⟩, next := some ⟨4⟩ } },
    { kind := .typeDef ⟨2⟩ .recordType ⟨2⟩ },
    { kind := .literal (.int 0), link := { block := some ⟨1⟩, prev := some ⟨2⟩ } },
    { kind := .typeDef ⟨3⟩ .classType ⟨3⟩ },
    { kind := .typeDef ⟨4⟩ .classType ⟨2⟩, link := { block := some ⟨3⟩ } }]⟩
  blocks := ⟨#[⟨some ⟨0⟩, some ⟨1⟩, some ⟨1⟩, 1⟩, ⟨some ⟨1⟩, some ⟨2⟩, some ⟨4⟩, 2⟩,
    { owner := some ⟨2⟩ }, ⟨some ⟨5⟩, some ⟨6⟩, some ⟨6⟩, 1⟩]⟩
  symbols := ⟨#[{ id := ⟨0⟩, name := "m", kind := .module, definition := some ⟨0⟩ },
    { id := ⟨1⟩, name := "a", kind := .type, definition := some ⟨1⟩ },
    { id := ⟨2⟩, name := "b", kind := .type, definition := some ⟨4⟩ },
    { id := ⟨3⟩, name := "c", kind := .type, definition := some ⟨5⟩ },
    { id := ⟨4⟩, name := "d", kind := .type, definition := some ⟨6⟩ }]⟩
  roots := [⟨0⟩]

/-- The first enumeration hits `b` only, through either claimant; the second goes on to `d`. -/
theorem plan_discover_exact_twoClaimants :
    (∃ moves, twoClaimants.plan (twoClaimants.discover [⟨3⟩, ⟨2⟩]) = .ok moves ∧
      moves.map Move.symbol = [⟨2⟩] ∧
      ∀ move ∈ moves, ∃ o t, twoClaimants.owner? move.source = some (some o) ∧
        twoClaimants.declared? o = some t ∧ twoClaimants.isType t) ∧
    twoClaimants.plan (twoClaimants.discover [⟨3⟩, ⟨2⟩, ⟨6⟩]) = .error (.unrootedType ⟨4⟩ "d") ∧
    ∃ before s after, twoClaimants.firstFound [⟨3⟩, ⟨2⟩, ⟨6⟩] = before ++ s :: after ∧
      (∀ t ∈ before, ∀ e', ¬ twoClaimants.Homeless t e') ∧
      twoClaimants.Homeless s (.unrootedType ⟨4⟩ "d") := by
  have hok : twoClaimants.plan (twoClaimants.discover [⟨3⟩, ⟨2⟩]) =
      .ok [⟨⟨2⟩, ⟨4⟩, ⟨1⟩, ⟨0⟩, ⟨0⟩⟩] := by decide
  have herror : twoClaimants.plan (twoClaimants.discover [⟨3⟩, ⟨2⟩, ⟨6⟩]) =
      .error (.unrootedType ⟨4⟩ "d") := by decide
  obtain ⟨-, -, hmoves⟩ := plan_discover_exact twoClaimants [⟨3⟩, ⟨2⟩]
  obtain ⟨hfail, -, -⟩ := plan_discover_exact twoClaimants [⟨3⟩, ⟨2⟩, ⟨6⟩]
  exact ⟨⟨_, hok, rfl, (hmoves _ hok).2.2⟩, herror, (hfail _).1 herror⟩

end Hoist.Program
