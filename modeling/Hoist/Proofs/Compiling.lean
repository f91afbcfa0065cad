import Hoist.Compile
import Hoist.Proofs.Flattening
import Hoist.Proofs.Lowering

/-! Compiling: after lowering, hoisting cannot fail, so only a diagnostic can end a compilation. -/
namespace Hoist

namespace Program

variable {p : Program} {n : NodeId} {s m : SymbolId} {ts : List Tree} {ids : List NodeId}
  (h : p.Holds ts ids)

include h

theorem Holds.perm_enumerate (e : Enumeration) : (p.enumerate e).Perm p.nodes.ids := by
  cases e with
  | tree =>
    rw [enumerate, h.preorder_eq]
    exact h.perm
  | allocation => exact .refl _

/-- A module around something is defined by a module node, so it has a body. -/
theorem Holds.moduleBody?_ne_none (hm : p.module? s = some m) : p.moduleBody? m ≠ none := by
  intro hnone
  obtain ⟨n, k, hn, hk, hne⟩ := definition_of_moduleBody?_eq_none h.defined hm hnone
  obtain ⟨t, _, hlead⟩ := module?_eq_some_iff.1 hm
  obtain ⟨e, he, hmod⟩ := hlead.isModule
  obtain ⟨k', hk', hs⟩ := Option.bind_eq_some_iff.1 (h.declared?_of_definition? hn)
  obtain rfl : k = k' := by simpa [hk] using hk'
  obtain ⟨e', he', -, hkind⟩ := h.kinded hk m hs
  obtain rfl : e = e' := by simpa [he] using he'
  have hmodule : e.kind = .module := by simpa [SymbolKind.isModule] using hmod
  cases k with
  | module s' b => exact hne s' b rfl
  | _ => simp_all [NodeKind.symbolKind?]

theorem Holds.exists_plan (nodes : List NodeId) :
    ∃ moves, p.plan (p.discover nodes) = .ok moves := by
  rcases plan_discover_cases h.rooted nodes with hplan | ⟨s, m, hm, hnone, _⟩
  · exact hplan
  · exact (h.moduleBody?_ne_none hm hnone).elim

/-- Hoisting succeeds with any options. -/
theorem Holds.hoist_ok (options : HoistOptions) :
    ∃ moves, p.plan (p.discover (p.enumerate options.enumeration)) = .ok moves ∧
      (p.hoist options).result = .ok ⟨p.nodes.size, moves⟩ ∧
      p.Rearranged (p.hoist options).program (Move.placeAll moves p.members) ∧
      (p.hoist options).program.checkFlat = [] := by
  obtain ⟨moves, hplan⟩ := h.exists_plan (p.enumerate options.enumeration)
  have hperm := h.perm_enumerate options.enumeration
  have hlength : (p.enumerate options.enumeration).length = p.nodes.size := by
    rw [hperm.length_eq, Table.length_ids]
  have hall : ∀ n, (p.nested? n).isSome → n ∈ p.enumerate options.enumeration := by
    intro n hn
    exact hperm.mem_iff.2 (mem_ids_of_nested? hn)
  have hrun := hoistNodes_planned options h.check h.formed.bodies hall hplan
  rw [hlength] at hrun
  exact ⟨moves, hplan, hrun⟩

end Program

namespace Source.Program

/-- A compilation ends with the diagnostics of lowering, exactly if there are any and they are not
allowed. Otherwise it succeeds, and nothing is wrong with the flat program. -/
theorem compile_result (source : Source.Program) (options : CompileOptions) :
    ∃ l, source.lower = .ok l ∧
      if l.diagnostics ≠ [] ∧ options.allowDiagnostics = false then
        (source.compile options).result = .error (.diagnostics l.diagnostics)
      else
        ∃ c, (source.compile options).result = .ok c ∧ c.diagnostics = l.diagnostics ∧
          c.program.checkFlat = [] := by
  obtain ⟨p, ids, hlower, hp, _⟩ := source.lower_holds
  obtain ⟨moves, _, hres, _, hflat⟩ := hp.hoist_ok options.hoist
  refine ⟨_, hlower, ?_⟩
  split
  · next hstop => simp [compile, hlower, Lowered.compile, hstop]
  · next hgo =>
    have hcond : (!source.resolve.diagnostics.isEmpty && !options.allowDiagnostics) = false := by
      simpa using hgo
    refine ⟨⟨_, _, ⟨p.nodes.size, moves⟩⟩, ?_, rfl, hflat⟩
    simp [compile, hlower, Lowered.compile, hcond, hres]

end Source.Program

end Hoist
