import Hoist.Proofs.Links

/-! The innermost module around a definition, without a bound on how far out the search goes. -/
namespace Hoist.Program

variable {p : Program} {s t m : SymbolId} {b : BlockId} {d d' : Nat}

/-- Going outwards from `s`, the first module met is `m`. -/
def LeadsTo (p : Program) (s m : SymbolId) : Prop := ∃ depth, p.moduleFrom depth s = some m

theorem moduleFrom_succ_eq_some_iff : p.moduleFrom (d + 1) s = some m ↔
    ∃ e, p.symbols[s]? = some e ∧
      if e.kind.isModule then s = m else ∃ t, p.outer? s = some t ∧ p.moduleFrom d t = some m := by
  simp only [moduleFrom, bind, Option.bind_eq_some_iff]
  refine exists_congr fun e => and_congr_right fun _ => ?_
  split <;> simp [Option.bind_eq_some_iff]

theorem moduleFrom_mono (h : p.moduleFrom d s = some m) (hd : d ≤ d') :
    p.moduleFrom d' s = some m := by
  induction d generalizing s d' with
  | zero => simp [moduleFrom] at h
  | succ d ih =>
    obtain ⟨d', rfl⟩ : ∃ k, d' = k + 1 := ⟨d' - 1, by omega⟩
    rw [moduleFrom_succ_eq_some_iff] at h ⊢
    obtain ⟨e, he, hm⟩ := h
    refine ⟨e, he, ?_⟩
    split at hm
    · rwa [if_pos (by assumption)]
    · obtain ⟨t, ht, hm⟩ := hm
      rw [if_neg (by assumption)]
      exact ⟨t, ht, ih hm (by omega)⟩

theorem moduleFrom_isModule (h : p.moduleFrom d s = some m) :
    ∃ e, p.symbols[m]? = some e ∧ e.kind.isModule := by
  induction d generalizing s with
  | zero => simp [moduleFrom] at h
  | succ d ih =>
    obtain ⟨e, he, hm⟩ := moduleFrom_succ_eq_some_iff.1 h
    split at hm
    · exact ⟨e, hm ▸ he, by assumption⟩
    · obtain ⟨t, _, hm⟩ := hm
      exact ih hm

/-- Different depths are the least sufficient ones of different symbols, one for each depth. -/
theorem exists_path (h : p.moduleFrom d s = some m) (hmin : p.moduleFrom (d - 1) s = none) :
    ∃ l : List SymbolId, l.length = d ∧ l.Nodup ∧ ∀ t ∈ l, t.index < p.symbols.size ∧
      ∃ k, k ≤ d ∧ p.moduleFrom k t = some m ∧ p.moduleFrom (k - 1) t = none := by
  induction d generalizing s with
  | zero => exact ⟨[], rfl, .nil, by simp⟩
  | succ d ih =>
    obtain ⟨e, he, hm⟩ := moduleFrom_succ_eq_some_iff.1 h
    have hs := Table.lt_size_of_getElem? he
    cases d with
    | zero =>
      refine ⟨[s], rfl, by simp, fun t ht => ?_⟩
      obtain rfl := List.mem_singleton.1 ht
      exact ⟨hs, 1, Nat.le_refl _, h, hmin⟩
    | succ d =>
      by_cases hk : e.kind.isModule
      · simp [moduleFrom, he, hk] at hmin
      · obtain ⟨t, ht, hm⟩ := by simpa [hk] using hm
        have hmin' : p.moduleFrom d t = none := by simpa [moduleFrom, he, hk, ht] using hmin
        obtain ⟨l, hlen, hnd, hl⟩ := ih hm hmin'
        refine ⟨s :: l, by simp [hlen], List.nodup_cons.2 ⟨fun hsl => ?_, hnd⟩, ?_⟩
        · obtain ⟨_, k, hk, hsm, _⟩ := hl s hsl
          exact absurd hmin (by simp [moduleFrom_mono hsm hk])
        · rintro u (_ | ⟨_, hu⟩)
          · exact ⟨hs, _, Nat.le_refl _, h, hmin⟩
          · obtain ⟨hi, k, hk, hu⟩ := hl u hu
            exact ⟨hi, k, by omega, hu⟩

/-- A search that succeeds at any depth succeeds within as many steps as there are symbols. -/
theorem moduleFrom_size (h : p.moduleFrom d s = some m) :
    p.moduleFrom p.symbols.size s = some m := by
  induction d with
  | zero => simp [moduleFrom] at h
  | succ d ih =>
    cases hd : p.moduleFrom d s with
    | some m' =>
      have := moduleFrom_mono hd (Nat.le_succ d)
      exact ih (by rw [hd, ← this, h])
    | none =>
      obtain ⟨l, hlen, hnd, hl⟩ := exists_path h hd
      have hle := Table.length_le_size hnd fun t ht => (hl t ht).1
      exact moduleFrom_mono h (by omega)

theorem leadsTo_self {e : Symbol} (he : p.symbols[s]? = some e) (hk : e.kind.isModule) :
    p.LeadsTo s s :=
  ⟨1, moduleFrom_succ_eq_some_iff.2 ⟨e, he, by simp [hk]⟩⟩

theorem LeadsTo.of_outer {e : Symbol} (he : p.symbols[s]? = some e) (hk : ¬ e.kind.isModule)
    (ht : p.outer? s = some t) (h : p.LeadsTo t m) : p.LeadsTo s m := by
  obtain ⟨d, h⟩ := h
  exact ⟨d + 1, moduleFrom_succ_eq_some_iff.2 ⟨e, he, by simp [hk, ht, h]⟩⟩

theorem LeadsTo.isModule (h : p.LeadsTo s m) : ∃ e, p.symbols[m]? = some e ∧ e.kind.isModule := by
  obtain ⟨d, h⟩ := h
  exact moduleFrom_isModule h

/-- The search outwards from a module stops there. -/
theorem LeadsTo.eq_of_isModule (h : p.LeadsTo s m)
    (hs : ∃ e, p.symbols[s]? = some e ∧ e.kind.isModule) : s = m := by
  obtain ⟨d, h⟩ := h
  obtain ⟨e, he, hk⟩ := hs
  cases d with
  | zero => simp [moduleFrom] at h
  | succ d => simpa [moduleFrom, he, hk] using h

theorem module?_eq_some_iff :
    p.module? s = some m ↔ ∃ t, p.outer? s = some t ∧ p.LeadsTo t m := by
  simp only [module?, bind, Option.bind_eq_some_iff]
  refine exists_congr fun t => and_congr_right fun _ => ⟨fun h => ⟨_, h⟩, ?_⟩
  rintro ⟨d, h⟩
  exact moduleFrom_mono (moduleFrom_size h) (Nat.le_succ _)

theorem moduleBody?_eq_some_iff : p.moduleBody? m = some b ↔
    ∃ d s, p.definition? m = some d ∧ p.kind? d = some (.module s b) := by
  simp only [moduleBody?, bind, Option.bind_eq_some_iff]
  constructor
  · rintro ⟨d, hd, k, hk, hb⟩
    cases k <;> simp_all
  · rintro ⟨d, s, hd, hk⟩
    exact ⟨d, hd, _, hk, rfl⟩

end Hoist.Program
