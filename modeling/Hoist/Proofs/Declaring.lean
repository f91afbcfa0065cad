import Hoist.Proofs.Environment

/-! Declaring many names at once, in any state that a resolver can come to. -/
namespace Hoist

/-- The reports on a declaration whose name `s` already has: one at its own place, and one at the
place of `s`, if it has one. -/
def Symbols.clash (symbols : Symbols) (sig : Signature) (s : SymbolId) : List Diagnostic :=
  let pointer : Option Diagnostic := do
    let holder ← symbols[s]?
    let span ← holder.span
    return ⟨.duplicateSymbol, "previous `" ++ holder.kind.text ++ "` definition here", span⟩
  ⟨.duplicateSymbol, "duplicate definition of " ++ sig.kind.text ++ " `" ++ sig.name.name ++ "`",
    sig.name.span.getD ⟨0, 0⟩⟩ :: pointer.toList

namespace Resolver

/-- What a resolver can come to. A symbol may be changed in any way, as it is when it is defined. -/
inductive Reachable : Resolver → Prop
  | init : Reachable init
  | enter {r : Resolver} (h : Reachable r) : Reachable r.enter.2
  | leave {r : Resolver} (h : Reachable r) : Reachable r.leave.2
  | declare {r : Resolver} (h : Reachable r) (sig : Signature) : Reachable (r.declare sig).2
  | hide {r : Resolver} (h : Reachable r) (sig : Signature) : Reachable (r.hide sig).2
  | amend {r : Resolver} (h : Reachable r) (s : SymbolId) (f : Symbol → Symbol) :
    Reachable { r with symbols := r.symbols.modify s f }

/-- The symbol that has a name in the current scope once `sigs` are declared there: the one that has
it already, or else the one of the first declaration. -/
def taken? (r : Resolver) (sigs : List Signature) (name : String) : Option SymbolId :=
  (r.bound? name).or
    ((sigs.findIdx? fun sig => sig.name.name = name).map fun i => ⟨r.symbols.size + i⟩)

/-- The open scopes are there, and names lead to symbols that are there. -/
structure Intact (r : Resolver) : Prop where
  opened : ∀ id ∈ r.entered ++ [root], id.index < r.scopes.size
  known : ∀ (id : ScopeId) (scope : Scope), r.scopes[id]? = some scope → ∀ entry ∈ scope.names,
    entry.2.index < r.symbols.size

variable {r : Resolver} {name : String} {s : SymbolId}

@[simp] theorem taken?_nil (r : Resolver) (name : String) : r.taken? [] name = r.bound? name := by
  simp [taken?]

theorem intact_init : init.Intact where
  opened := by simp [init, root]
  known := by
    intro id scope hscope entry hentry
    rw [init, Table.getElem?_push] at hscope
    split at hscope
    · cases hscope
      cases hentry
    · simp at hscope

theorem Intact.enter (h : r.Intact) : r.enter.2.Intact where
  opened := by
    intro id hid
    rw [Resolver.enter, Table.size_push]
    rcases List.mem_cons.1 hid with rfl | hid
    · exact Nat.lt_succ_self _
    · exact Nat.lt_succ_of_lt (h.opened id hid)
  known := by
    intro id scope hscope entry hentry
    rw [Resolver.enter, Table.getElem?_push] at hscope
    split at hscope
    · cases hscope
      cases hentry
    · exact h.known id scope hscope entry hentry

theorem Intact.leave (h : r.Intact) : r.leave.2.Intact := by
  rw [Resolver.leave]
  split
  · exact h
  · next id rest hr =>
    refine ⟨fun i hi => h.opened i ?_, h.known⟩
    rw [hr]
    exact List.mem_cons_of_mem _ hi

/-- The table of symbols may change in any way that loses none. -/
theorem Intact.withSymbols (h : r.Intact) {symbols : Symbols}
    (hle : r.symbols.size ≤ symbols.size) : ({ r with symbols } : Resolver).Intact where
  opened := h.opened
  known := by
    intro id scope hscope entry hentry
    exact Nat.lt_of_lt_of_le (h.known id scope hscope entry hentry) hle

theorem Intact.hide (h : r.Intact) (sig : Signature) : (r.hide sig).2.Intact :=
  h.withSymbols (by simp)

theorem Intact.bind (h : r.Intact) (name : String) (hs : s.index < r.symbols.size) :
    (r.bind name s).Intact where
  opened := by
    intro id hid
    rw [Resolver.bind, Table.size_modify]
    exact h.opened id hid
  known := by
    intro id scope hscope entry hentry
    rw [Resolver.bind, Table.getElem?_modify] at hscope
    split at hscope
    · obtain ⟨old, hold, rfl⟩ := Option.map_eq_some_iff.1 hscope
      rcases List.mem_cons.1 hentry with rfl | hentry
      · exact hs
      · exact h.known id old hold entry hentry
    · exact h.known id scope hscope entry hentry

theorem Intact.hideBind (h : r.Intact) (sig : Signature) :
    ((r.hide sig).2.bind sig.name.name r.symbols.nextId).Intact :=
  (h.hide sig).bind _ (by simp [Resolver.hide, Table.nextId])

theorem Intact.declare (h : r.Intact) (sig : Signature) : (r.declare sig).2.Intact := by
  rw [Resolver.declare]
  split
  · exact h
  · exact h.hideBind sig

theorem Reachable.intact (h : r.Reachable) : r.Intact := by
  induction h with
  | init => exact intact_init
  | enter _ ih => exact ih.enter
  | leave _ ih => exact ih.leave
  | declare _ sig ih => exact ih.declare sig
  | hide _ sig ih => exact ih.hide sig
  | amend _ s f ih => exact ih.withSymbols (by simp)

theorem Intact.exists_current (h : r.Intact) : ∃ scope, r.scopes[r.current]? = some scope := by
  obtain ⟨ids, hids⟩ := r.open_eq
  apply Option.isSome_iff_exists.1
  rw [← Table.lt_size_iff_isSome]
  exact h.opened r.current (by simp [hids])

theorem Intact.lt_size_of_bound? (h : r.Intact) (hs : r.bound? name = some s) :
    s.index < r.symbols.size := by
  obtain ⟨scope, hscope, hlookup⟩ := Option.bind_eq_some_iff.1 hs
  obtain ⟨before, after, hnames, -⟩ := List.lookup_eq_some_iff.1 hlookup
  exact h.known _ scope hscope (name, s) (by simp [hnames])

/-- A search ends where it starts if the current scope has the name. -/
theorem find?_of_bound? (hs : r.bound? name = some s) : r.find? name = some s := by
  obtain ⟨scope, hscope, hlookup⟩ := Option.bind_eq_some_iff.1 hs
  have hlt := Table.lt_size_of_getElem? hscope
  obtain ⟨depth, hdepth⟩ : ∃ depth, r.scopes.size = depth + 1 := ⟨r.scopes.size - 1, by omega⟩
  rw [find?, hdepth, findFrom, hscope]
  simp [hlookup]

theorem bound?_bind (h : r.Intact) (name : String) (s : SymbolId) (other : String) :
    (r.bind name s).bound? other = if other = name then some s else r.bound? other := by
  obtain ⟨scope, hscope⟩ := h.exists_current
  have hcurrent : (r.bind name s).current = r.current := rfl
  have hafter : (r.bind name s).scopes[r.current]? =
      some { scope with names := (name, s) :: scope.names } := by
    rw [bind, Table.getElem?_modify, if_pos rfl, hscope]
    rfl
  by_cases hname : other = name
  · subst hname
    simp [bound?, hcurrent, hafter]
  · simp [bound?, hcurrent, hafter, hscope, List.lookup_cons, beq_false_of_ne hname, hname]

/-- All that a search reads of a scope is its parent, and what the name stands for there. -/
theorem findFrom_congr {r' : Resolver} (h : ∀ id : ScopeId,
      (r'.scopes[id]?).map (fun scope => (scope.parent, scope.names.lookup name)) =
        (r.scopes[id]?).map fun scope => (scope.parent, scope.names.lookup name))
    (depth : Nat) (id : ScopeId) : r'.findFrom name depth id = r.findFrom name depth id := by
  induction depth generalizing id with
  | zero => rfl
  | succ depth ih =>
    have hid := h id
    rw [findFrom, findFrom]
    cases hscope : r.scopes[id]? with
    | none =>
      rw [hscope, Option.map_none, Option.map_eq_none_iff] at hid
      rw [hid]
      rfl
    | some scope =>
      rw [hscope] at hid
      obtain ⟨scope', hscope', hsame⟩ := Option.map_eq_some_iff.1 hid
      obtain ⟨hparent, hlookup⟩ := Prod.mk.inj hsame
      simp only [hscope', hparent, hlookup, ih, Option.bind_eq_bind, Option.bind_some]

theorem find?_hide (r : Resolver) (sig : Signature) (name : String) :
    (r.hide sig).2.find? name = r.find? name := by
  apply findFrom_congr
  intro id
  rfl

theorem find?_bind (h : r.Intact) (name : String) (s : SymbolId) (other : String) :
    (r.bind name s).find? other = if other = name then some s else r.find? other := by
  by_cases hname : other = name
  · rw [if_pos hname]
    apply find?_of_bound?
    rw [bound?_bind h, if_pos hname]
  · have hsize : (r.bind name s).scopes.size = r.scopes.size := by simp [bind]
    rw [if_neg hname, find?, hsize]
    refine findFrom_congr (fun id => ?_) _ _
    rw [bind, Table.getElem?_modify]
    by_cases hid : r.current = id
    · simp [hid, List.lookup_cons, beq_false_of_ne hname, Function.comp_def]
    · rw [if_neg hid]

/-- A name that is free goes to the next symbol; any other declaration only adds that symbol. -/
theorem introduce_eq (r : Resolver) (sig : Signature) : r.introduce sig =
    match r.bound? sig.name.name with
    | none => ((r.symbols.nextId, []), (r.hide sig).2.bind sig.name.name r.symbols.nextId)
    | some s => ((r.symbols.nextId, .duplicate sig :: r.previous s), (r.hide sig).2) := by
  rw [introduce, declare]
  cases r.bound? sig.name.name <;> rfl

theorem symbol_introduce (r : Resolver) (sig : Signature) :
    (r.introduce sig).1.1 = r.symbols.nextId := by
  rw [introduce_eq]
  split <;> rfl

theorem symbols_introduce (r : Resolver) (sig : Signature) :
    (r.introduce sig).2.symbols = r.symbols.push (sig.symbol r.symbols.nextId) := by
  rw [introduce_eq]
  split <;> rfl

theorem Intact.introduce (h : r.Intact) (sig : Signature) : (r.introduce sig).2.Intact := by
  rw [introduce_eq]
  split
  · exact h.hideBind sig
  · exact h.hide sig

theorem bound?_introduce (h : r.Intact) (sig : Signature) (name : String) :
    (r.introduce sig).2.bound? name = r.taken? [sig] name := by
  have hsame : (r.hide sig).2.bound? name = r.bound? name := rfl
  rw [introduce_eq, taken?, List.findIdx?_singleton]
  by_cases hname : name = sig.name.name
  · subst hname
    split
    · next hfree => simp [bound?_bind (h.hide sig), hfree, Table.nextId]
    · next s hs => simp [hsame, hs]
  · have hother : sig.name.name ≠ name := Ne.symm hname
    split
    · simp [bound?_bind (h.hide sig), hsame, hname, hother]
    · simp [hsame, hother]

theorem find?_introduce (h : r.Intact) (sig : Signature) (name : String) :
    (r.introduce sig).2.find? name = (r.taken? [sig] name).or (r.find? name) := by
  cases hbound : (r.introduce sig).2.bound? name with
  | some s =>
    rw [find?_of_bound? hbound, ← bound?_introduce h, hbound]
    rfl
  | none =>
    rw [← bound?_introduce h, hbound, Option.none_or]
    rw [introduce_eq] at hbound ⊢
    split at hbound
    · rw [bound?_bind (h.hide sig)] at hbound
      have hname : name ≠ sig.name.name := by
        intro hname
        simp [hname] at hbound
      rw [find?_bind (h.hide sig), if_neg hname, find?_hide]
    · exact r.find?_hide sig name

/-- What is declared first may as well be in the state as at the head of the list. -/
theorem taken?_introduce (h : r.Intact) (sig : Signature) (sigs : List Signature) (name : String) :
    (r.introduce sig).2.taken? sigs name = r.taken? (sig :: sigs) name := by
  rw [taken?, bound?_introduce h, symbols_introduce, Table.size_push, taken?, taken?,
    List.findIdx?_singleton, List.findIdx?_cons]
  by_cases hname : sig.name.name = name
  · cases r.bound? name <;> simp [hname]
  · have hshift : ∀ i, (⟨r.symbols.size + 1 + i⟩ : SymbolId) = ⟨r.symbols.size + (i + 1)⟩ := by
      intro i
      rw [Nat.add_assoc, Nat.add_comm 1]
    simp [hname, hshift, Function.comp_def]

theorem ids_introduceAll (r : Resolver) (sigs : List Signature) :
    (r.introduceAll sigs).1.1 = (List.range' r.symbols.size sigs.length).map EntityId.mk := by
  induction sigs generalizing r with
  | nil => rfl
  | cons sig sigs ih =>
    have hrest := ih (r.introduce sig).2
    rw [symbols_introduce, Table.size_push] at hrest
    rw [List.length_cons, List.range'_succ, List.map_cons, ← hrest]
    exact congrArg (· :: _) (r.symbol_introduce sig)

/-- The symbols that were there stay as they are. -/
theorem getElem?_introduceAll (sigs : List Signature) (hs : s.index < r.symbols.size) :
    (r.introduceAll sigs).2.symbols[s]? = r.symbols[s]? := by
  induction sigs generalizing r with
  | nil => rfl
  | cons sig sigs ih =>
    have hpush := r.symbols_introduce sig
    have hlt : s.index < (r.introduce sig).2.symbols.size := by
      rw [hpush, Table.size_push]
      omega
    calc (r.introduceAll (sig :: sigs)).2.symbols[s]?
        = (r.introduce sig).2.symbols[s]? := ih hlt
      _ = r.symbols[s]? := by rw [hpush, Table.getElem?_push, if_neg (Table.ne_nextId hs)]

theorem forall₂_introduceAll (r : Resolver) (sigs : List Signature) :
    List.Forall₂ (fun s sig => (r.introduceAll sigs).2.symbols[s]? = some (Signature.symbol sig s))
      (r.introduceAll sigs).1.1 sigs := by
  induction sigs generalizing r with
  | nil => exact .nil
  | cons sig sigs ih =>
    refine .cons ?_ (ih (r.introduce sig).2)
    have hpush := r.symbols_introduce sig
    have hlt : (r.introduce sig).1.1.index < (r.introduce sig).2.symbols.size := by
      simp [symbol_introduce, hpush, Table.nextId]
    calc (r.introduceAll (sig :: sigs)).2.symbols[(r.introduce sig).1.1]?
        = (r.introduce sig).2.symbols[(r.introduce sig).1.1]? := getElem?_introduceAll sigs hlt
      _ = some (sig.symbol (r.introduce sig).1.1) := by
        rw [symbol_introduce, hpush, Table.getElem?_push, if_pos rfl]

theorem find?_introduceAll (h : r.Intact) (sigs : List Signature) (name : String) :
    (r.introduceAll sigs).2.find? name = (r.taken? sigs name).or (r.find? name) := by
  induction sigs generalizing r with
  | nil =>
    rw [taken?_nil]
    cases hbound : r.bound? name with
    | none => rfl
    | some s => exact find?_of_bound? hbound
  | cons sig sigs ih =>
    have hrest := ih (h.introduce sig)
    rw [taken?_introduce h, find?_introduce h] at hrest
    refine hrest.trans ?_
    cases htaken : r.taken? (sig :: sigs) name with
    | some s => rfl
    | none =>
      -- a name that none of the declarations takes is not taken by the first one either
      rw [← taken?_introduce h, taken?, Option.or_eq_none_iff, bound?_introduce h] at htaken
      rw [htaken.1]
      rfl

theorem clash_eq (r : Resolver) (sig : Signature) (s : SymbolId) :
    r.symbols.clash sig s = .duplicate sig :: r.previous s := by
  rw [Symbols.clash, previous]
  cases r.symbols[s]? with
  | none => rfl
  | some holder =>
    obtain ⟨_, _, _, span, _⟩ := holder
    cases span <;> rfl

theorem reports_introduce (r : Resolver) (sig : Signature) : (r.introduce sig).1.2 =
    (r.bound? sig.name.name).elim [] (r.symbols.clash sig) := by
  rw [introduce_eq]
  cases r.bound? sig.name.name with
  | none => rfl
  | some s => exact (r.clash_eq sig s).symm

theorem reports_introduceAll (h : r.Intact) (sigs : List Signature) :
    (r.introduceAll sigs).1.2 = (sigs.mapIdx fun i sig =>
      (r.taken? (sigs.take i) sig.name.name).elim []
        ((r.introduceAll sigs).2.symbols.clash sig)).flatten := by
  induction sigs generalizing r with
  | nil => rfl
  | cons sig sigs ih =>
    have hrest := ih (h.introduce sig)
    simp only [taken?_introduce h] at hrest
    have hfirst : (r.introduce sig).1.2 = (r.taken? [] sig.name.name).elim []
        ((r.introduceAll (sig :: sigs)).2.symbols.clash sig) := by
      rw [reports_introduce, taken?_nil]
      cases hbound : r.bound? sig.name.name with
      | none => rfl
      | some s =>
        have hkept := getElem?_introduceAll (sig :: sigs) (h.lt_size_of_bound? hbound)
        simp only [Option.elim_some, Symbols.clash, hkept]
    rw [List.mapIdx_cons, List.flatten_cons]
    exact congr (congrArg _ hfirst) hrest

/-- In any state, declarations get the next symbols of the table, one for each. A name goes to the
symbol that the scope has for it, or else to its first declaration, and every other declaration of
it is reported. -/
theorem introduceAll_exact (h : r.Reachable) (sigs : List Signature) :
    ∃ ss found after, r.introduceAll sigs = ((ss, found), after) ∧
      ss = (List.range' r.symbols.size sigs.length).map EntityId.mk ∧
      List.Forall₂ (fun (s : SymbolId) (sig : Signature) => after.symbols[s]? = some
        { id := s, name := sig.name.name, kind := sig.kind, span := sig.name.span,
          definition := none }) ss sigs ∧
      (∀ s : SymbolId, s.index < r.symbols.size → after.symbols[s]? = r.symbols[s]?) ∧
      (∀ name, after.find? name = (r.taken? sigs name).or (r.find? name)) ∧
      found = (sigs.mapIdx fun i sig =>
        (r.taken? (sigs.take i) sig.name.name).elim [] (after.symbols.clash sig)).flatten := by
  have hintact := h.intact
  refine ⟨_, _, _, rfl, r.ids_introduceAll sigs, r.forall₂_introduceAll sigs, ?_, ?_, ?_⟩
  · intro s hs
    exact getElem?_introduceAll sigs hs
  · intro name
    exact find?_introduceAll hintact sigs name
  · exact reports_introduceAll hintact sigs

/-- A scope that has `x`, inside one that has `y` and `z`. -/
def twoScopes : Resolver :=
  let outer := ((init.declare ⟨⟨"y", none⟩, .type⟩).2.declare ⟨⟨"z", none⟩, .type⟩).2
  (outer.enter.2.declare ⟨⟨"x", some ⟨4, 5⟩⟩, .field⟩).2

/-- One name that the scope has, and one that is declared three times in the list. -/
theorem introduceAll_exact_twoScopes : twoScopes.Reachable ∧
    ∃ ss found after, twoScopes.introduceAll [⟨⟨"x", none⟩, .function⟩,
        ⟨⟨"y", some ⟨7, 8⟩⟩, .field⟩, ⟨⟨"y", some ⟨9, 10⟩⟩, .field⟩, ⟨⟨"y", none⟩, .function⟩] =
          ((ss, found), after) ∧
      ss = [⟨3⟩, ⟨4⟩, ⟨5⟩, ⟨6⟩] ∧
      ["x", "y", "z", "w"].map after.find? = [some ⟨2⟩, some ⟨4⟩, some ⟨1⟩, none] ∧
      found.map Diagnostic.span = [⟨0, 0⟩, ⟨4, 5⟩, ⟨9, 10⟩, ⟨7, 8⟩, ⟨0, 0⟩, ⟨7, 8⟩] := by
  have hreach : twoScopes.Reachable := .declare (.enter (.declare (.declare .init _) _)) _
  obtain ⟨ss, found, after, hrun, hss, -, -, hfind, hfound⟩ := introduceAll_exact hreach
    [⟨⟨"x", none⟩, .function⟩, ⟨⟨"y", some ⟨7, 8⟩⟩, .field⟩, ⟨⟨"y", some ⟨9, 10⟩⟩, .field⟩,
      ⟨⟨"y", none⟩, .function⟩]
  refine ⟨hreach, ss, found, after, hrun, hss, ?_, ?_⟩
  · simp only [List.map_cons, List.map_nil, hfind]
    decide
  · obtain rfl : _ = after := congrArg Prod.snd hrun
    rw [hfound]
    decide

end Resolver
end Hoist
