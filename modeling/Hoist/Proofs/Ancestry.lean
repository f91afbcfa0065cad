import Hoist.Proofs.Enclosure

/-! The way outwards from a symbol, without a bound, and the first module on it. -/
namespace Hoist.Program

variable {p : Program} {s t m : SymbolId} {i j : Nat}

/-- The symbol that is `i` steps outwards. -/
def around? (p : Program) : (i : Nat) → (s : SymbolId) → Option SymbolId
  | 0, s => some s
  | i + 1, s => do p.around? i (← p.outer? s)

/-- What kind of symbol this is, if there is such a symbol. -/
def symbolKind? (p : Program) (s : SymbolId) : Option SymbolKind := p.symbols[s]?.map Symbol.kind

/-- The way from `s`, itself included, leads `i` steps through symbols that are no modules. -/
def Passes (p : Program) (s : SymbolId) (i : Nat) : Prop :=
  ∀ j < i, ∃ t k, p.around? j s = some t ∧ p.symbolKind? t = some k ∧ k ≠ .module

/-- The first module among the symbols around `s`. The symbol itself is not one of them yet. -/
def FirstAround (p : Program) (s m : SymbolId) : Prop :=
  ∃ i, p.around? (i + 1) s = some m ∧ p.symbolKind? m = some .module ∧
    ∀ j < i, ∃ t k, p.around? (j + 1) s = some t ∧ p.symbolKind? t = some k ∧ k ≠ .module

/-- None of the first `i` symbols around `s` is a module. -/
def NoModuleWithin (p : Program) (s : SymbolId) (i : Nat) : Prop :=
  ∀ j < i, ∀ t, p.around? (j + 1) s = some t → p.symbolKind? t ≠ some .module

/-- How the way outwards can come to nothing. -/
inductive Misses (p : Program) (s : SymbolId) : Prop
  | ends (i : Nat) (free : p.NoModuleWithin s i) (nothing : p.around? (i + 1) s = none)
  | leaves (i : Nat) (t : SymbolId) (free : p.NoModuleWithin s i)
    (here : p.around? (i + 1) s = some t) (unknown : p.symbolKind? t = none)
  | loops (i j : Nat) (t : SymbolId) (lt : i < j) (free : p.NoModuleWithin s j)
    (first : p.around? (i + 1) s = some t) (again : p.around? (j + 1) s = some t)

theorem around?_succ (ht : p.outer? s = some t) : p.around? (i + 1) s = p.around? i t := by
  simp [around?, ht]

/-- Going on from where the first steps have led. -/
theorem around?_add (h : p.around? i s = some t) : p.around? (i + j) s = p.around? j t := by
  induction i generalizing s with
  | zero =>
    obtain rfl : s = t := by simpa [around?] using h
    rw [Nat.zero_add]
  | succ i ih =>
    obtain ⟨u, hu, hi⟩ := Option.bind_eq_some_iff.1 h
    rw [Nat.add_right_comm, around?_succ hu]
    exact ih hi

theorem symbolKind?_eq_some_iff {k : SymbolKind} :
    p.symbolKind? s = some k ↔ ∃ e, p.symbols[s]? = some e ∧ e.kind = k := by
  simp [symbolKind?]

theorem Passes.tail (h : p.Passes s (i + 1)) (ht : p.outer? s = some t) : p.Passes t i := by
  intro j hj
  obtain ⟨u, k, hu, hk⟩ := h (j + 1) (by omega)
  rw [around?_succ ht] at hu
  exact ⟨u, k, hu, hk⟩

theorem passes_succ {k : SymbolKind} (hs : p.symbolKind? s = some k) (hk : k ≠ .module)
    (ht : p.outer? s = some t) (h : p.Passes t i) : p.Passes s (i + 1) := by
  intro j hj
  cases j with
  | zero => exact ⟨s, k, rfl, hs, hk⟩
  | succ j =>
    rw [around?_succ ht]
    exact h j (by omega)

/-- A search of any depth stops at the first module on the way. -/
theorem leadsTo_iff : p.LeadsTo s m ↔
    ∃ i, p.around? i s = some m ∧ p.symbolKind? m = some .module ∧ p.Passes s i := by
  constructor
  · rintro ⟨depth, h⟩
    induction depth generalizing s with
    | zero => simp [moduleFrom] at h
    | succ depth ih =>
      obtain ⟨e, he, hm⟩ := moduleFrom_succ_eq_some_iff.1 h
      have hs : p.symbolKind? s = some e.kind := symbolKind?_eq_some_iff.2 ⟨e, he, rfl⟩
      split at hm
      · next hk =>
        subst hm
        have hkind : e.kind = .module := by simpa [SymbolKind.isModule] using hk
        exact ⟨0, rfl, hkind ▸ hs, fun j hj => by omega⟩
      · next hk =>
        obtain ⟨t, ht, hm⟩ := hm
        obtain ⟨i, hi, hmod, hpass⟩ := ih hm
        refine ⟨i + 1, (around?_succ ht).trans hi, hmod, passes_succ hs ?_ ht hpass⟩
        simpa [SymbolKind.isModule] using hk
  · rintro ⟨i, hi, hmod, hpass⟩
    induction i generalizing s with
    | zero =>
      obtain rfl : s = m := by simpa [around?] using hi
      obtain ⟨e, he, hk⟩ := symbolKind?_eq_some_iff.1 hmod
      exact leadsTo_self he (by simp [hk, SymbolKind.isModule])
    | succ i ih =>
      obtain ⟨t, ht, hi⟩ := Option.bind_eq_some_iff.1 hi
      obtain ⟨u, k, hu, hk, hne⟩ := hpass 0 (by omega)
      obtain rfl : s = u := by simpa [around?] using hu
      obtain ⟨e, he, rfl⟩ := symbolKind?_eq_some_iff.1 hk
      exact .of_outer he (by simpa [SymbolKind.isModule] using hne) ht (ih hi (hpass.tail ht))

theorem module?_eq_some_iff_firstAround : p.module? s = some m ↔ p.FirstAround s m := by
  rw [module?_eq_some_iff]
  constructor
  · rintro ⟨t, ht, hlead⟩
    obtain ⟨i, hi, hmod, hpass⟩ := leadsTo_iff.1 hlead
    refine ⟨i, (around?_succ ht).trans hi, hmod, fun j hj => ?_⟩
    rw [around?_succ ht]
    exact hpass j hj
  · rintro ⟨i, hi, hmod, hpass⟩
    obtain ⟨t, ht, hi⟩ := Option.bind_eq_some_iff.1 hi
    refine ⟨t, ht, leadsTo_iff.2 ⟨i, hi, hmod, fun j hj => ?_⟩⟩
    rw [← around?_succ ht]
    exact hpass j hj

theorem FirstAround.not_misses (h : p.FirstAround s m) : ¬ p.Misses s := by
  obtain ⟨i, hi, hmod, hpass⟩ := h
  -- whatever happens on the way happens before the first module or not before it
  rintro (⟨k, free, nothing⟩ | ⟨k, t, free, here, unknown⟩ | ⟨k, l, t, lt, free, first, again⟩)
  · rcases Nat.lt_trichotomy k i with hlt | rfl | hgt
    · obtain ⟨t, _, ht, _⟩ := hpass k hlt
      simp [nothing] at ht
    · simp [nothing] at hi
    · exact free i hgt m hi hmod
  · rcases Nat.lt_trichotomy k i with hlt | rfl | hgt
    · obtain ⟨u, _, hu, hk, _⟩ := hpass k hlt
      obtain rfl : t = u := by simpa [here] using hu
      simp [unknown] at hk
    · obtain rfl : t = m := by simpa [here] using hi
      simp [unknown] at hmod
    · exact free i hgt m hi hmod
  · by_cases hil : i < l
    · exact free i hil m hi hmod
    · -- one round earlier the way has met the same module
      obtain ⟨d, rfl⟩ : ∃ d, i = l + d := ⟨i - l, by omega⟩
      have hearlier : p.around? (k + d + 1) s = some m := by
        rw [Nat.add_right_comm, around?_add first, ← around?_add again, Nat.add_right_comm]
        exact hi
      obtain ⟨u, kind, hu, hk, hne⟩ := hpass (k + d) (by omega)
      obtain rfl : m = u := by simpa [hearlier] using hu
      exact hne (by simpa [hmod] using hk.symm)

/-- More steps than there are symbols come to one of them twice. -/
theorem exists_around?_eq (h : ∀ i, ∃ t, p.around? (i + 1) s = some t ∧ p.symbolKind? t ≠ none) :
    ∃ i j t, i < j ∧ p.around? (i + 1) s = some t ∧ p.around? (j + 1) s = some t := by
  have hentry : ∀ i ≤ p.symbols.size,
      ∃ t, p.around? (i + 1) s = some t ∧ (p.symbols[t]?).isSome := by
    intro i _
    obtain ⟨t, ht, hknown⟩ := h i
    obtain ⟨k, hk⟩ := Option.ne_none_iff_exists'.1 hknown
    obtain ⟨e, he, _⟩ := symbolKind?_eq_some_iff.1 hk
    exact ⟨t, ht, by simp [he]⟩
  obtain ⟨i, j, t, hij, _, hi, hj⟩ := Table.exists_repeated hentry
  exact ⟨i, j, t, hij, hi, hj⟩

/-- The way outwards meets a first module or goes on without one. -/
theorem firstAround_or_misses (p : Program) (s : SymbolId) :
    (∃ m, p.FirstAround s m) ∨ p.Misses s := by
  by_cases hmet : ∃ i m, p.around? (i + 1) s = some m ∧ p.symbolKind? m = some .module
  · classical
    obtain ⟨m, hm, hmod⟩ := Nat.find_spec hmet
    have free : ∀ i ≤ Nat.find hmet, p.NoModuleWithin s i := by
      intro i hi j hj t ht hk
      exact Nat.find_min hmet (by omega) ⟨t, ht, hk⟩
    by_cases hpass : ∀ j < Nat.find hmet, ∃ t k, p.around? (j + 1) s = some t ∧
        p.symbolKind? t = some k ∧ k ≠ .module
    · exact .inl ⟨m, _, hm, hmod, hpass⟩
    · push Not at hpass
      obtain ⟨j, hj, hbad⟩ := hpass
      cases ht : p.around? (j + 1) s with
      | none => exact .inr (.ends j (free j (by omega)) ht)
      | some t =>
        cases hk : p.symbolKind? t with
        | none => exact .inr (.leaves j t (free j (by omega)) ht hk)
        | some k =>
          obtain rfl := hbad t k ht hk
          exact absurd hk (free (j + 1) (by omega) j (by omega) t ht)
  · push Not at hmet
    have free : ∀ i, p.NoModuleWithin s i := fun i j _ t ht => hmet j t ht
    right
    by_cases hall : ∀ i, ∃ t, p.around? (i + 1) s = some t ∧ p.symbolKind? t ≠ none
    · obtain ⟨i, j, t, hij, hi, hj⟩ := exists_around?_eq hall
      exact .loops i j t hij (free j) hi hj
    · push Not at hall
      obtain ⟨i, hi⟩ := hall
      cases ht : p.around? (i + 1) s with
      | none => exact .ends i (free i) ht
      | some t => exact .leaves i t (free i) ht (hi t ht)

/-- With any more steps the search would find the same. -/
theorem bind_moduleFrom_eq (p : Program) (s : SymbolId) (extra : Nat) :
    (p.outer? s).bind (p.moduleFrom (p.symbols.size + extra)) = p.module? s := by
  apply Option.ext
  intro m
  rw [module?_eq_some_iff, Option.bind_eq_some_iff]
  refine exists_congr fun t => and_congr_right fun _ => ⟨fun h => ⟨_, h⟩, ?_⟩
  rintro ⟨depth, h⟩
  exact moduleFrom_mono (moduleFrom_size h) (by omega)

/-- On any program, the module around a symbol is the first one that the way outwards meets. There
is none exactly if that way ends, leaves the table or comes back without having met one. -/
theorem module?_exact (p : Program) (s : SymbolId) :
    (∀ m, p.module? s = some m ↔ p.FirstAround s m) ∧ (p.module? s = none ↔ p.Misses s) ∧
      ∀ extra, (p.outer? s).bind (p.moduleFrom (p.symbols.size + extra)) = p.module? s := by
  refine ⟨fun m => module?_eq_some_iff_firstAround, ⟨fun hnone => ?_, fun hmiss => ?_⟩,
    p.bind_moduleFrom_eq s⟩
  · rcases p.firstAround_or_misses s with ⟨m, hm⟩ | hmiss
    · simp [module?_eq_some_iff_firstAround.2 hm] at hnone
    · exact hmiss
  · cases h : p.module? s with
    | none => rfl
    | some m => exact absurd hmiss (module?_eq_some_iff_firstAround.1 h).not_misses

end Hoist.Program
