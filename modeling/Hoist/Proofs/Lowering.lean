import Hoist.Proofs.Enclosure
import Hoist.Proofs.Planting
import Hoist.Proofs.Regular

/-! Lowering gives a program in which nothing is wrong, and which stores the source only. -/
namespace Hoist

theorem NodeKind.symbolKind?_blank (k : NodeKind) : k.blank.symbolKind? = k.symbolKind? := by
  cases k <;> rfl

theorem NodeKind.isSome_body?_blank (k : NodeKind) : k.blank.body?.isSome = k.body?.isSome := by
  cases k <;> rfl

theorem NodeKind.typeDef?_blank (k : NodeKind) : k.blank.typeDef? = k.typeDef? := by
  cases k <;> rfl

/-- The body of a module. -/
def NodeKind.moduleBody? : NodeKind → Option BlockId
  | .module _ b => some b
  | _ => none

theorem NodeKind.isSome_moduleBody?_blank (k : NodeKind) :
    k.blank.moduleBody?.isSome = k.moduleBody?.isSome := by
  cases k <;> rfl

theorem NodeKind.eq_module_of_moduleBody? {k : NodeKind} {b : BlockId}
    (h : k.moduleBody? = some b) : ∃ s, k = .module s b := by
  cases k <;> simp_all [NodeKind.moduleBody?]

theorem NodeKind.declared?_of_body? {k : NodeKind} {b : BlockId} (h : k.body? = some b) :
    ∃ s, k.declared? = some s := by
  cases k <;> simp_all [NodeKind.body?, NodeKind.declared?]

namespace Program

variable {p : Program} {n m : NodeId} {b d : BlockId} {k : NodeKind} {s c : SymbolId}
  {ts : List Tree} {ns ids : List NodeId} {inBody inType : Bool}

def IsModule (p : Program) (n : NodeId) : Prop := ∃ s b, p.kind? n = some (.module s b)

/-- The program stores the trees and nothing else. Each tree is a module, and the program's symbols
are those that the trees declare. -/
structure Holds (p : Program) (ts : List Tree) (ids : List NodeId) : Prop where
  formed : p.Formed
  stores : p.Stores ts p.roots ids
  regular : Tree.Regular p.symbols true ts
  modules : ∀ t ∈ ts, ∃ s span body, t = .module s span body
  unlinked : ∀ n ∈ p.roots, p.block? n = none
  perm : ids.Perm p.nodes.ids
  ordered : (ids.filter p.hasBody).Pairwise (·.index < ·.index)
  declared : ∀ n s, p.declared? n = some s → p.definition? s = some n
  symbols : ∀ s, s ∈ Tree.symbolsAll ts ↔ s.index < p.symbols.size

/-- What stands in a body is enclosed by the declaration that has the body. -/
theorem Formed.within?_eq (hp : p.Formed) (hk : p.kind? n = some k) (hb : k.body? = some b)
    (hm : m ∈ p.members b) : p.within? m = k.declared? := by
  have hblock := hp.linked.mem_members.1 hm
  obtain ⟨e, he, ho⟩ := Option.map_eq_some_iff.1 (hp.bodies n k b hk hb)
  have hparent : p.parent? m = some n := by simp [parent?, hblock, he, ho]
  simp [within?, hparent, declared?, hk]

theorem outer?_eq (hd : p.definition? s = some n) : p.outer? s = p.within? n := by
  simp [outer?, hd]

/-- A declaration's symbol goes by its place and is of the declaration's kind. -/
def Kinded (p : Program) (k : NodeKind) : Prop :=
  ∀ s, k.declared? = some s →
    ∃ e, p.symbols[s]? = some e ∧ e.id = s ∧ k.symbolKind? = some e.kind

theorem kinded_of_blank {t : Tree} (hk : k.blank = t.blank)
    (ht : ∀ s, t.declared? = some s →
      ∃ e, p.symbols[s]? = some e ∧ e.id = s ∧ t.blank.symbolKind? = some e.kind) :
    p.Kinded k := by
  intro s hs
  rw [← NodeKind.symbolKind?_blank, hk]
  exact ht s (by rw [← declared?_eq_of_blank hk, hs])

theorem Stores.kinded (h : p.Stores ts ns ids) (hr : Tree.Regular p.symbols inBody ts)
    (hn : n ∈ ids) (hk : p.kind? n = some k) : p.Kinded k := by
  induction h generalizing inBody with
  | nil => simp at hn
  | @cons t x k' ops inner rest ts ns hx hblank _ _ _ iho ihb ihr =>
    rcases hr with _ | ⟨_, hd, ho, hc, hrest⟩
    simp only [List.cons_append, List.mem_cons, List.mem_append] at hn
    rcases hn with rfl | (hn | hn) | hn
    · obtain rfl : k' = k := by simpa [kind?_eq_content?, hx] using hk
      exact kinded_of_blank hblank hd
    · exact iho ho hn
    · exact ihb hc hn
    · exact ihr hrest hn

/-- The node stands in the body of a type or of something else, as `inType` says, and the body of
the innermost module around it is `d`. -/
def Stands (p : Program) (n : NodeId) (inType : Bool) (d : BlockId) : Prop :=
  ∃ c r, p.within? n = some c ∧ p.isType c = inType ∧ p.LeadsTo c r ∧ p.moduleBody? r = some d

theorem Stands.module? (h : p.Stands n inType d) (hd : p.definition? s = some n) :
    ∃ r, p.module? s = some r ∧ p.moduleBody? r = some d := by
  obtain ⟨c, r, hc, _, hlead, hr⟩ := h
  exact ⟨r, module?_eq_some_iff.2 ⟨c, by rw [outer?_eq hd, hc], hlead⟩, hr⟩

theorem Kinded.isType (hk : p.Kinded k) (hs : k.declared? = some s) :
    p.isType s = k.typeDef?.isSome := by
  obtain ⟨⟨id, name, kind, span, definition⟩, he, -, hkind⟩ := hk s hs
  rw [isType_of_getElem? he]
  cases k <;> cases hkind <;> rfl

/-- Around what stands in the body of a module is that module, and around what stands in any other
body is the module around that. -/
theorem Formed.stands_body (hp : p.Formed)
    (hd : ∀ n s, p.declared? n = some s → p.definition? s = some n) (hn : p.kind? n = some k)
    (hk : p.Kinded k) (hin : p.hasBody n → p.IsModule n ∨ p.Stands n inType d)
    (hm : m ∈ p.body k) : p.Stands m k.typeDef?.isSome (k.moduleBody?.getD d) := by
  cases hb : k.body? with
  | none => simp [body, hb] at hm
  | some b =>
    obtain ⟨s, hs⟩ := NodeKind.declared?_of_body? hb
    obtain ⟨e, he, -, hek⟩ := hk s hs
    have hdef := hd n s (by simp [Program.declared?, hn, hs])
    have hwithin : p.within? m = some s := by
      rw [hp.within?_eq hn hb (by simpa [body, hb] using hm), hs]
    by_cases hmod : e.kind = .module
    · obtain ⟨b', rfl⟩ : ∃ b', k = .module s b' := by
        cases k <;> simp_all [NodeKind.symbolKind?, NodeKind.declared?]
      exact ⟨s, s, hwithin, hk.isType hs, leadsTo_self he (by simp [hmod, SymbolKind.isModule]),
        moduleBody?_eq_some_iff.2 ⟨n, s, hdef, hn⟩⟩
    · rcases hin (by simp [hasBody, hn, hb]) with ⟨s', b', hn'⟩ | ⟨c, r, hc, _, hlead, hr⟩
      · obtain rfl : k = .module s' b' := by simpa [hn] using hn'
        simp_all [NodeKind.symbolKind?]
      · have hbody : k.moduleBody? = none := by
          cases k <;> simp_all [NodeKind.symbolKind?, NodeKind.moduleBody?]
        rw [hbody]
        refine ⟨s, r, hwithin, hk.isType hs, hlead.of_outer he ?_ ?_, hr⟩
        · simpa [SymbolKind.isModule] using hmod
        · rw [outer?_eq hdef, hc]

/-- Only what stands in a body has a body. -/
theorem Stores.inBody_of_hasBody {t : Tree} (hn : p.content? n = some (k, t.span))
    (hk : k.blank = t.blank) (hb : p.hasBody n) (ht : inBody = false → t.blank.body? = none) :
    inBody = true := by
  by_contra hne
  have hsome : k.body?.isSome := by simpa [hasBody, kind?_eq_content?, hn] using hb
  rw [← NodeKind.isSome_body?_blank, hk, ht (by simpa using hne)] at hsome
  cases hsome

/-- If `d` is the body of the module around every node of `ns` that is no module, then the module
around a node below has the body `d`, or is itself below. -/
theorem Stores.stands {all : List NodeId} (h : p.Stores ts ns ids)
    (hr : Tree.Regular p.symbols inBody ts) (hp : p.Formed)
    (hd : ∀ n s, p.declared? n = some s → p.definition? s = some n) (hall : ids ⊆ all)
    (hns : inBody = true → ∀ n ∈ ns, p.IsModule n ∨ p.Stands n inType d) (hn : n ∈ ids)
    (hb : p.hasBody n) :
    p.IsModule n ∨ ∃ c d', p.Stands n c d' ∧
      (d' = d ∨ ∃ y ∈ all, ∃ k, p.kind? y = some k ∧ k.moduleBody? = some d') := by
  induction h generalizing inBody inType d with
  | nil => simp at hn
  | @cons t x k ops inner rest ts ns hx hblank _ _ _ iho ihb ihr =>
    rcases hr with _ | ⟨hbody, hdecl, hro, hrc, hrest⟩
    simp only [List.cons_append, List.cons_subset, List.append_subset] at hall
    simp only [List.cons_append, List.mem_cons, List.mem_append] at hn
    have hkind : p.kind? x = some k := by simp [kind?_eq_content?, hx]
    have hin : p.hasBody x → p.IsModule x ∨ p.Stands x inType d := fun hxb =>
      hns (inBody_of_hasBody hx hblank hxb hbody) x (by simp)
    rcases hn with rfl | (hn | hn) | hn
    · exact (hin hb).imp_right fun h => ⟨inType, d, h, .inl rfl⟩
    · have hops : false = true → ∀ n ∈ k.operands, p.IsModule n ∨ p.Stands n false d := by simp
      exact iho hro hall.2.1.1 hops hn
    · have hcontents := fun y => hp.stands_body (m := y) hd hkind (kinded_of_blank hblank hdecl) hin
      rcases ihb hrc hall.2.1.2 (fun _ y hy => .inr (hcontents y hy)) hn with
        h | ⟨c, d', h, rfl | hy⟩
      · exact .inl h
      · refine .inr ⟨c, _, h, ?_⟩
        cases hmb : k.moduleBody? with
        | none => exact .inl rfl
        | some b => exact .inr ⟨x, hall.1, k, hkind, hmb⟩
      · exact .inr ⟨c, d', h, .inr hy⟩
    · exact ihr hrest hall.2.2 (fun hin m hm => hns hin m (by simp [hm])) hn

/-- A node with a body is listed in a body, or else it is the node of one of the trees. -/
theorem Stores.linked_or_mem (h : p.Stores ts ns ids) (hr : Tree.Regular p.symbols inBody ts)
    (hp : p.Linked) (hn : n ∈ ids) (hb : p.hasBody n) :
    (p.block? n).isSome ∨ inBody = true ∧ n ∈ ns := by
  induction h generalizing inBody with
  | nil => simp at hn
  | @cons t x k ops inner rest ts ns hx hblank hops hcont _ iho ihb ihr =>
    rcases hr with _ | ⟨hbody, _, hro, hrc, hrest⟩
    simp only [List.cons_append, List.mem_cons, List.mem_append] at hn
    rcases hn with rfl | (hn | hn) | hn
    · exact .inr ⟨inBody_of_hasBody hx hblank hb hbody, by simp⟩
    · rcases iho hro hn with h | ⟨h, _⟩
      · exact .inl h
      · cases h
    · rcases ihb hrc hn with h | ⟨_, h⟩
      · exact .inl h
      · cases hkb : k.body? with
        | none => simp [body, hkb] at h
        | some b =>
          have hmem : n ∈ p.members b := by simpa [body, hkb] using h
          simp [hp.mem_members.1 hmem]
    · exact (ihr hrest hn).imp_right fun h => ⟨h.1, by simp [h.2]⟩

section Holds

variable (h : p.Holds ts ids)

include h

theorem Holds.mem_ids : n ∈ ids ↔ n.index < p.nodes.size := by
  rw [h.perm.mem_iff, Table.mem_ids]

theorem Holds.kinded (hk : p.kind? n = some k) : p.Kinded k :=
  h.stores.kinded h.regular (h.mem_ids.2 (lt_size_of_kind? hk)) hk

theorem Holds.exists_declared (hs : s.index < p.symbols.size) : ∃ n, p.declared? n = some s := by
  rw [← h.symbols, ← h.stores.filterMap_declared?] at hs
  obtain ⟨n, _, hn⟩ := List.mem_filterMap.1 hs
  exact ⟨n, hn⟩

theorem Holds.declared?_of_definition? (hs : p.definition? s = some n) :
    p.declared? n = some s := by
  obtain ⟨e, he, _⟩ := definition?_eq_some_iff.1 hs
  obtain ⟨m, hm⟩ := h.exists_declared (Table.lt_size_of_getElem? he)
  obtain rfl : n = m := by simpa [hs] using h.declared m s hm
  exact hm

theorem Holds.defined : p.Defined where
  declared := h.declared
  defined s symbol n he hn := by
    have hdecl := h.declared?_of_definition? (definition?_eq_some_iff.2 ⟨symbol, he, hn⟩)
    obtain ⟨k, hk, hks⟩ := Option.bind_eq_some_iff.1 hdecl
    obtain ⟨e, he', hid, -⟩ := h.kinded hk s hks
    obtain rfl : symbol = e := by simpa [he] using he'
    rw [hid, hdecl]
  typed n k s hn hs := by
    cases k with
    | typeDef s' aggregate b =>
      obtain rfl : s' = s := by simpa [NodeKind.typeDef?] using hs
      obtain ⟨e, he, -, hek⟩ := h.kinded hn s' rfl
      rw [isType_of_getElem? he]
      simpa [NodeKind.symbolKind?, SymbolKind.isType] using hek.symm
    | _ => simp [NodeKind.typeDef?] at hs

theorem Holds.isModule_of_root (hn : n ∈ p.roots) : p.IsModule n := by
  obtain ⟨t, ht, k, hk, hblank⟩ := h.stores.exists_tree hn
  obtain ⟨s, span, body, rfl⟩ := h.modules t ht
  cases k with
  | module s' b => exact ⟨s', b, by simp [kind?_eq_content?, hk]⟩
  | _ => simp [NodeKind.blank, Tree.blank] at hblank

theorem Holds.stands (hb : p.hasBody n) : p.IsModule n ∨ ∃ c d, p.Stands n c d := by
  have hn : n ∈ ids := by
    rw [h.mem_ids]
    obtain ⟨k, hk, _⟩ := (Option.any_eq_true _ _).1 hb
    exact lt_size_of_kind? hk
  have hroots : true = true → ∀ n ∈ p.roots, p.IsModule n ∨ p.Stands n false ⟨0⟩ :=
    fun _ n hn => .inl (h.isModule_of_root hn)
  rcases h.stores.stands h.regular h.formed h.declared (List.Subset.refl _) hroots hn hb with
    hm | ⟨c, d, hs, _⟩
  · exact .inl hm
  · exact .inr ⟨c, d, hs⟩

theorem Holds.rooted : p.Rooted := by
  intro s hs hdef
  obtain ⟨n, hn⟩ := Option.isSome_iff_exists.1 hdef
  obtain ⟨k, hk, hks⟩ := Option.bind_eq_some_iff.1 (h.declared?_of_definition? hn)
  have htype : k.typeDef?.isSome := by rw [← (h.kinded hk).isType hks, hs]
  have hb : p.hasBody n := by
    cases k <;> simp_all [hasBody, NodeKind.body?, NodeKind.typeDef?]
  rcases h.stands hb with ⟨s', b, hmod⟩ | ⟨c, d, hstands⟩
  · obtain rfl : k = .module s' b := by simpa [hk] using hmod
    simp [NodeKind.typeDef?] at htype
  · obtain ⟨r, hr, _⟩ := hstands.module? hn
    simp [hr]

theorem Holds.mem_roots : n ∈ p.roots ↔ p.IsModule n ∧ p.block? n = none := by
  constructor
  · exact fun hn => ⟨h.isModule_of_root hn, h.unlinked n hn⟩
  · rintro ⟨⟨s, b, hn⟩, hfree⟩
    rcases h.stores.linked_or_mem h.regular h.formed.linked (h.mem_ids.2 (lt_size_of_kind? hn))
      (by simp [hasBody, hn, NodeKind.body?]) with hl | ⟨_, hm⟩
    · simp [hfree] at hl
    · exact hm

theorem Holds.exists_block (hn : p.kind? n = some k) (hb : k.body? = some b) :
    ∃ e, p.blocks[b]? = some e ∧ e.owner = some n :=
  Option.map_eq_some_iff.1 (h.formed.bodies n k b hn hb)

theorem Holds.existsUnique_body {e : Block} (he : p.blocks[b]? = some e) :
    ∃! n, ∃ k, p.kind? n = some k ∧ k.body? = some b := by
  obtain ⟨n, k, ho, hk, hb⟩ := h.formed.blocks b e.owner (by simp [owner?, he])
  refine ⟨n, ⟨k, hk, hb⟩, ?_⟩
  rintro m ⟨k', hk', hb'⟩
  simpa [owner?, he, ho] using (h.formed.bodies m k' b hk' hb').symm

theorem Holds.exists_definition {e : Symbol} (he : p.symbols[s]? = some e) :
    ∃ n, e.definition = some n ∧ ∀ m, p.declared? m = some s ↔ m = n := by
  obtain ⟨n, hn⟩ := h.exists_declared (Table.lt_size_of_getElem? he)
  have hdef := h.declared n s hn
  refine ⟨n, by simpa [definition?, he] using hdef, fun m => ⟨fun hm => ?_, fun hm => hm ▸ hn⟩⟩
  simpa [hdef] using (h.declared m s hm).symm

theorem Holds.isSome_symbol (hn : p.declared? n = some s) : (p.symbols[s]?).isSome := by
  obtain ⟨e, he, _⟩ := definition?_eq_some_iff.1 (h.declared n s hn)
  simp [he]

/-- Going through the trees meets every node once. -/
theorem Holds.preorder_eq : p.preorder = ids := by
  have hsize : ids.length = p.nodes.size := by rw [h.perm.length_eq, Table.length_ids]
  exact h.stores.preorderFrom_filter (by omega)

theorem Holds.check : p.check = [] :=
  check_eq_nil_iff.2 ⟨h.defined, h.formed.linked, h.rooted⟩

end Holds

theorem formed_empty (T : Symbols) : ({ Program.empty with symbols := T } : Program).Formed where
  linked := ⟨by simp [Program.empty], by simp [Program.empty, block?, link?]⟩
  bodies n k b hn := by simp [Program.empty, kind?] at hn
  blocks b o ho := by simp [Program.empty, owner?] at ho

theorem Linked.withRoots (hp : p.Linked) (ns : List NodeId) :
    ({ p with roots := ns } : Program).Linked ∧
      ∀ b, ({ p with roots := ns } : Program).members b = p.members b := by
  refine hp.of_agree (q := { p with roots := ns }) (fun _ => rfl) (fun _ _ _ => rfl)
    (fun _ _ h => h) fun b e he hb => ?_
  simp [hb] at he

theorem Formed.withRoots (hp : p.Formed) (ns : List NodeId) :
    ({ p with roots := ns } : Program).Formed where
  linked := (hp.linked.withRoots ns).1
  bodies := hp.bodies
  blocks := hp.blocks

/-- The node stores the module as it was written. -/
def StoresModule (p : Program) (decl : Source.Module) (n : NodeId) : Prop :=
  ∃ t js, p.Stores [t] [n] js ∧ decl.Matches p.symbols t

theorem Stores.storesModule {decls : List Source.Module} (h : p.Stores ts ns ids)
    (hm : List.Forall₂ (Source.Module.Matches p.symbols) decls ts) :
    List.Forall₂ p.StoresModule decls ns := by
  have hs := h.forall₂
  clear h
  induction hm generalizing ns with
  | nil =>
    cases hs
    exact .nil
  | cons hd _ ih =>
    rcases hs with _ | ⟨⟨js, hjs⟩, hrest⟩
    exact .cons ⟨_, js, hjs, hd⟩ (ih hrest)

end Program

/-- Trees that declare each symbol of the table once can be stored. -/
theorem Resolved.build_holds (r : Resolved)
    (hcount : ∀ s, (Tree.symbolsAll r.modules).count s = if s.index < r.symbols.size then 1 else 0)
    (hreg : ∀ T, r.symbols.Keeps T → Tree.Regular T true r.modules)
    (hmod : ∀ t ∈ r.modules, ∃ s span body, t = .module s span body) :
    ∃ p ids, r.build = .ok p ∧ p.Holds r.modules ids ∧ r.symbols.Keeps p.symbols := by
  have hmem : ∀ s, s ∈ Tree.symbolsAll r.modules ↔ s.index < r.symbols.size := by
    intro s
    rw [← List.count_pos_iff, hcount]
    split <;> simp_all
  have hdecl : ({ Program.empty with symbols := r.symbols } : Program).Declarable r.modules := by
    refine ⟨List.nodup_iff_count_le_one.2 fun s => ?_, fun s => (hmem s).1⟩
    rw [hcount]
    split <;> simp
  obtain ⟨ns, q, ids, hrun, hq, hfree⟩ := Edit.plantAll_ok r.modules _
    (Program.formed_empty r.symbols) hdecl
  have hkeeps : r.symbols.Keeps q.symbols := by
    intro s sig hs
    rw [Symbols.Has, hq.bare]
    exact hs
  refine ⟨{ q with roots := ns }, ids, ?_, ⟨hq.formed.withRoots ns, ?_, hreg _ hkeeps, hmod, hfree,
    ?_, hq.ordered, ?_, ?_⟩, hkeeps⟩
  · rw [Resolved.build, EStateM.run, hrun]
  · exact hq.stores.congr (fun _ _ => rfl) fun _ _ _ b _ _ => (hq.formed.linked.withRoots ns).2 b
  · have hperm := hq.fresh.map (EntityId.mk (e := .node))
    have hid : (EntityId.mk ∘ EntityId.index : NodeId → NodeId) = id := rfl
    simpa [Program.empty, Table.ids, List.range_eq_range', hid] using hperm
  · intro n s hn
    obtain ⟨k, hk, _⟩ := Option.bind_eq_some_iff.1 hn
    exact hq.defined n (hq.mem_ids.2 ⟨Nat.zero_le _, Program.lt_size_of_kind? hk⟩) s hn
  · intro s
    rw [hmem, ← hq.symbols_size]

namespace Source.Program

theorem eq_module {T : Symbols} {decls : List Module} {ts : List Tree}
    (h : List.Forall₂ (Module.Matches T) decls ts) {t : Tree} (ht : t ∈ ts) :
    ∃ s span body, t = .module s span body := by
  induction h with
  | nil => simp at ht
  | @cons decl u _ _ hu _ ih =>
    rcases List.mem_cons.1 ht with rfl | ht
    · obtain ⟨name, items, span⟩ := decl
      obtain ⟨s, ts, rfl, _⟩ := hu
      exact ⟨_, _, _, rfl⟩
    · exact ih ht

theorem lower_holds (source : Source.Program) :
    ∃ p ids, source.lower = .ok ⟨p, source.resolve.diagnostics⟩ ∧
      p.Holds source.resolve.modules ids ∧
      List.Forall₂ (Module.Matches p.symbols) source.modules source.resolve.modules := by
  obtain ⟨hmatch, hcount⟩ := source.resolve_matches
  obtain ⟨p, ids, hbuild, hp, hkeeps⟩ := source.resolve.build_holds hcount
    (fun T hT => Tree.regular_modules (hmatch T hT)) fun t ht => eq_module (hmatch _ (.refl _)) ht
  refine ⟨p, ids, ?_, hp, hmatch _ hkeeps⟩
  simp [lower, hbuild, bind, Except.bind, pure, Except.pure]

/-- Lowering always succeeds, and nothing is wrong with the program. Bodies belong to blocks and
declaring nodes to symbols one to one, and the roots store the top-level modules in order. -/
theorem lower_sound (source : Source.Program) :
    ∃ l, source.lower = .ok l ∧ l.program.check = [] ∧
      (∀ n k b, l.program.kind? n = some k → k.body? = some b →
        ∃ e, l.program.blocks[b]? = some e ∧ e.owner = some n) ∧
      (∀ (b : BlockId) e, l.program.blocks[b]? = some e →
        ∃! n, ∃ k, l.program.kind? n = some k ∧ k.body? = some b) ∧
      (∀ (s : SymbolId) e, l.program.symbols[s]? = some e →
        ∃ n, e.definition = some n ∧ ∀ m, l.program.declared? m = some s ↔ m = n) ∧
      (∀ n s, l.program.declared? n = some s → (l.program.symbols[s]?).isSome) ∧
      List.Forall₂ l.program.StoresModule source.modules l.program.roots ∧
      ∀ n, n ∈ l.program.roots ↔ l.program.IsModule n ∧ l.program.block? n = none := by
  obtain ⟨p, ids, hlower, hp, hmatch⟩ := source.lower_holds
  exact ⟨_, hlower, hp.check, fun n k b => hp.exists_block, fun b e => hp.existsUnique_body,
    fun s e => hp.exists_definition, fun n s => hp.isSome_symbol, hp.stores.storesModule hmatch,
    fun n => hp.mem_roots⟩

end Source.Program

end Hoist
