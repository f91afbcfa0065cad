import Hoist.Proofs.Compiling
import Hoist.Proofs.References
import Hoist.Proofs.Reporting

/-! Diagnostics are exact: each fault of the source is reported, and nothing else is. -/
namespace Hoist

/-- The node stands for a name that got no symbol. -/
def Program.isUnbound (p : Program) (n : NodeId) : Bool :=
  (p.reference? n).any (·.symbol.isNone)

theorem Use.fault?_ne_duplicateSymbol (u : Use) : u.fault? ≠ some .duplicateSymbol := by
  simp only [fault?]
  split
  · simp
  · split <;> simp

theorem Use.kind_eq_type {u : Use} {sig : Signature} (hu : u.fault? = none)
    (hsig : u.found = some sig) (htype : u.asType) : sig.kind = .type := by
  by_contra hne
  simp [fault?, hsig, htype, SymbolKind.isType, hne] at hu

theorem faults_unresolvedSymbol (uses : List Use) :
    faults uses .unresolvedSymbol = uses.countP (·.found.isNone) := by
  refine List.countP_congr fun u _ => ?_
  cases hu : u.found with
  | none => simp [Use.fault?, hu]
  | some sig => simp [Use.fault?, hu]

theorem faults_expectedType (uses : List Use) :
    faults uses .expectedType =
      uses.countP fun u => u.asType && u.found.any (!·.kind.isType) := by
  refine List.countP_congr fun u _ => ?_
  cases hu : u.found with
  | none => simp [Use.fault?, hu]
  | some sig => simp [Use.fault?, hu]

theorem faults_duplicateSymbol (uses : List Use) : faults uses .duplicateSymbol = 0 := by
  refine List.countP_eq_zero.2 fun u _ => ?_
  simp [u.fault?_ne_duplicateSymbol]

/-- A use is at fault in one of two ways, and not in both. -/
theorem countP_fault? (uses : List Use) : uses.countP (·.fault?.isSome) =
    faults uses .unresolvedSymbol + faults uses .expectedType := by
  induction uses with
  | nil => rfl
  | cons u uses ih =>
    have hne := u.fault?_ne_duplicateSymbol
    simp only [faults, List.countP_cons] at ih ⊢
    rcases hu : u.fault? with _ | (_ | _ | _)
    · simp [ih]
    · simp [ih]
      omega
    · exact absurd hu hne
    · simp [ih]
      omega

namespace Survey

theorem reports_of_ne {code : DiagnosticCode} (s : Survey) (h : code ≠ .duplicateSymbol) :
    s.reports code = faults s.uses code := by
  simp [reports, repeated, h]

theorem reports_duplicateSymbol (s : Survey) :
    s.reports .duplicateSymbol = (s.scopes.map (repeats [])).sum := by
  simp [reports, repeated, faults_duplicateSymbol]

end Survey

theorem countP_isNone {T : Symbols} {uses : List Use} {refs : List Reference}
    (h : List.Forall₂ (Use.Answered T) uses refs) :
    refs.countP (·.symbol.isNone) = uses.countP (·.fault?.isSome) := by
  induction h with
  | nil => rfl
  | cons hu _ ih => rw [List.countP_cons, List.countP_cons, ih, hu.isNone]

/-- The reference has a symbol in the table, of its name and, where a type is needed, a type. -/
def Reference.Bound (T : Symbols) (r : Reference) : Prop :=
  ∃ s e, r.symbol = some s ∧ T[s]? = some e ∧ e.name = r.name ∧ (r.asType → e.kind = .type)

theorem Use.Answered.bound {T : Symbols} {u : Use} {r : Reference} (h : u.Answered T r)
    (hu : u.fault? = none) : r.Bound T := by
  have hsome : r.symbol.isNone = false := by rw [h.isNone, hu]; rfl
  obtain ⟨s, hs⟩ := Option.isSome_iff_exists.1 (Option.isNone_eq_false_iff.1 hsome)
  obtain ⟨sig, hfound, hname, hhas⟩ := h.has s hs
  obtain ⟨e, he, hbare⟩ := Option.map_eq_some_iff.1 hhas
  refine ⟨s, e, hs, he, ?_, fun htype => ?_⟩
  · exact (congrArg Symbol.name hbare).trans (hname.trans h.name.symm)
  · exact (congrArg Symbol.kind hbare).trans (kind_eq_type hu hfound (h.asType ▸ htype))

theorem bound_of_answered {T : Symbols} {uses : List Use} {refs : List Reference}
    (h : List.Forall₂ (Use.Answered T) uses refs) (hu : ∀ u ∈ uses, u.fault? = none) :
    ∀ r ∈ refs, r.Bound T := by
  induction h with
  | nil => simp
  | cons hr _ ih =>
    intro r hmem
    rcases List.mem_cons.1 hmem with rfl | hmem
    · exact hr.bound (hu _ (by simp))
    · exact ih (fun u hmu => hu u (by simp [hmu])) r hmem

namespace Program

variable {p q : Program} {ts : List Tree} {ids : List NodeId} {n : NodeId} {r : Reference}

theorem Relinked.reference? (h : p.Relinked q) (n : NodeId) : q.reference? n = p.reference? n := by
  rw [Program.reference?, Program.reference?, h.kind?]

theorem Holds.countP_isUnbound (h : p.Holds ts ids) : p.nodes.ids.countP p.isUnbound =
    (ids.filterMap p.reference?).countP (·.symbol.isNone) := by
  rw [← h.perm.countP_eq, List.countP_filterMap]
  refine List.countP_congr fun n _ => ?_
  cases hr : p.reference? n <;> simp [isUnbound, hr]

theorem Holds.mem_references (h : p.Holds ts ids) (hr : p.reference? n = some r) :
    r ∈ ids.filterMap p.reference? := by
  obtain ⟨k, hk, -⟩ := Option.bind_eq_some_iff.1 hr
  exact List.mem_filterMap.2 ⟨n, h.mem_ids.2 (lt_size_of_kind? hk), hr⟩

end Program

namespace Source.Program

variable {source : Source.Program} {options : CompileOptions} {c : Compiled}

/-- Where no diagnostic is allowed, a program comes out only if there was none. -/
theorem compile_clean {p : Hoist.Program} {ids : List NodeId}
    (hlower : source.lower = .ok ⟨p, source.resolve.diagnostics⟩)
    (hp : p.Holds source.resolve.modules ids) (hallow : options.allowDiagnostics = false)
    (hc : (source.compile options).result = .ok c) :
    source.resolve.diagnostics = [] ∧ p.Relinked c.program := by
  obtain ⟨moves, -, hres, hre, -⟩ := hp.hoist_ok options.hoist
  have hnil : source.resolve.diagnostics = [] := by
    by_contra hne
    simp [compile, hlower, Lowered.compile, hne, hallow] at hc
  refine ⟨hnil, ?_⟩
  simp only [compile, hlower, Lowered.compile, hnil, hres] at hc
  cases hc
  exact hre.relinked

/-- Lowering reports exactly the faults of the survey. So if no diagnostic is allowed, every name in
a compiled program has a symbol of that name, and that of a type where one is needed. -/
theorem lower_diagnostics (source : Source.Program) :
    ∃ l, source.lower = .ok l ∧
      l.diagnostics.countP (·.code = .unresolvedSymbol) =
        source.survey.uses.countP (·.found.isNone) ∧
      l.diagnostics.countP (·.code = .expectedType) =
        source.survey.uses.countP (fun u => u.asType && u.found.any (!·.kind.isType)) ∧
      l.diagnostics.countP (·.code = .unresolvedSymbol) +
        l.diagnostics.countP (·.code = .expectedType) =
          l.program.nodes.ids.countP l.program.isUnbound ∧
      l.diagnostics.countP (·.code = .duplicateSymbol) =
        (source.survey.scopes.map (repeats [])).sum ∧
      ∀ options c, options.allowDiagnostics = false → (source.compile options).result = .ok c →
        ∀ n r, c.program.reference? n = some r → r.Bound c.program.symbols := by
  obtain ⟨p, ids, hlower, hp, hrefers⟩ := source.lower_refers
  have hunresolved := source.countP_resolve .unresolvedSymbol
  have hexpected := source.countP_resolve .expectedType
  have hduplicate := source.countP_resolve .duplicateSymbol
  rw [Survey.reports_of_ne _ (by decide)] at hunresolved hexpected
  rw [Survey.reports_duplicateSymbol] at hduplicate
  have hfaults := countP_fault? source.survey.uses
  refine ⟨_, hlower, ?_, ?_, ?_, hduplicate, ?_⟩
  · rw [hunresolved, faults_unresolvedSymbol]
  · rw [hexpected, faults_expectedType]
  · rw [hunresolved, hexpected, hp.countP_isUnbound, countP_isNone hrefers, hfaults]
  · intro options c hallow hc n r hr
    obtain ⟨hnil, hrel⟩ := compile_clean hlower hp hallow hc
    rw [hrel.reference?] at hr
    rw [hrel.symbols]
    have hnone : ∀ u ∈ source.survey.uses, u.fault? = none := by
      rw [hnil, List.countP_nil] at hunresolved hexpected
      have hzero : source.survey.uses.countP (·.fault?.isSome) = 0 := by omega
      intro u hu
      simpa using List.countP_eq_zero.1 hzero u hu
    exact bound_of_answered hrefers hnone r (hp.mem_references hr)

/-- A class whose method takes and returns an object of the class. -/
def fluent : Source.Program :=
  ⟨[⟨⟨"m", none⟩, [.type ⟨.exported, .classType, ⟨"C", none⟩,
    [.method ⟨.exported, ⟨"f", none⟩, [⟨⟨"x", none⟩, some (.named ⟨"C", none⟩)⟩],
      some (.named ⟨"C", none⟩), [.ret (some (.ident ⟨"x", none⟩))]⟩]⟩], none⟩]⟩

theorem lower_diagnostics_fluent : ∃ c, (fluent.compile {}).result = .ok c ∧
    (c.program.nodes.ids.filterMap c.program.reference?).length = 3 ∧
    ∀ n r, c.program.reference? n = some r → r.Bound c.program.symbols := by
  obtain ⟨l, -, -, -, -, -, hbound⟩ := lower_diagnostics fluent
  have hlength : ((fluent.compile {}).result.toOption.map fun c =>
      (c.program.nodes.ids.filterMap c.program.reference?).length) = some 3 := by decide +kernel
  cases hc : (fluent.compile {}).result with
  | ok c =>
    rw [hc] at hlength
    exact ⟨c, rfl, Option.some.inj hlength, hbound {} c rfl hc⟩
  | error e =>
    rw [hc] at hlength
    cases hlength

/-- A parameter that repeats the first one and has it for a type, and a name without declaration. -/
example : DiagnosticCode.all.map (⟨[⟨⟨"m", none⟩, [.function ⟨.exported, ⟨"f", none⟩,
    [⟨⟨"a", some ⟨0, 1⟩⟩, none⟩, ⟨⟨"a", none⟩, some (.named ⟨"a", none⟩)⟩], none,
    [.eval (.ident ⟨"b", none⟩)]⟩], none⟩]⟩ : Source.Program).survey.reports = [1, 2, 1] := by
  decide +kernel

end Source.Program

end Hoist
