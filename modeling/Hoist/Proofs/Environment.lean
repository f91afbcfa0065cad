import Hoist.Proofs.Naming

/-! Environments: what the scopes around a place declare, and what a resolver sees of it. -/
namespace Hoist

/-- A declaration, and the symbol that it got. -/
structure Declaration where
  sig : Signature
  symbol : SymbolId
  deriving DecidableEq, Repr

/-- What one scope declares, in order. -/
abbrev Frame := List Declaration

/-- The first declaration of a name keeps it. -/
def Frame.declaration? (frame : Frame) (name : String) : Option Declaration :=
  frame.find? fun d => d.sig.name.name = name

/-- The declarations of a body that got these symbols. -/
def Frame.ofSymbols (sigs : List Signature) (ss : List SymbolId) : Frame :=
  List.zipWith Declaration.mk sigs ss

/-- The scopes around a place, innermost first. -/
abbrev Environment := List Frame

namespace Environment

/-- What an inner scope declares hides what the outer ones do. -/
def declaration? (env : Environment) (name : String) : Option Declaration :=
  env.findSome? fun frame => Frame.declaration? frame name

def symbol? (env : Environment) (name : String) : Option SymbolId :=
  (env.declaration? name).map Declaration.symbol

/-- A name that does not stand for a type here is no type, even if it is one further out. -/
def type? (env : Environment) (name : String) : Option SymbolId :=
  ((env.declaration? name).filter (·.sig.kind.isType)).map Declaration.symbol

end Environment

theorem Frame.declaration?_append (frame : Frame) (d : Declaration) (name : String) :
    Frame.declaration? (frame ++ [d]) name =
      (frame.declaration? name).or (if d.sig.name.name = name then some d else none) := by
  simp [declaration?, List.find?_append, List.find?_singleton]

namespace Resolver

/-- The scopes, from an inner one out to the root, bind names as the frames declare them. -/
inductive Opens (scopes : Table .scope Scope) : List ScopeId → Environment → Prop
  | nil : Opens scopes [] []
  | cons {id : ScopeId} {ids : List ScopeId} {frame : Frame} {env : Environment} (scope : Scope)
      (entry : scopes[id]? = some scope) (parent : scope.parent = ids.head?)
      (older : ∀ i ∈ ids, i.index < id.index)
      (binds : ∀ name, scope.names.lookup name =
        (frame.declaration? name).map Declaration.symbol)
      (outer : Opens scopes ids env) : Opens scopes (id :: ids) (frame :: env)

/-- The open scopes are those of the environment, and the symbols are as it declares them. -/
structure Sees (r : Resolver) (env : Environment) : Prop where
  opens : Opens r.scopes (r.entered ++ [root]) env
  has : ∀ frame ∈ env, ∀ d ∈ frame, r.symbols.Has d.symbol d.sig

namespace Opens

variable {scopes scopes' : Table .scope Scope} {id : ScopeId} {ids : List ScopeId} {frame : Frame}
  {env : Environment}

theorem lt_size (h : Opens scopes ids env) : ∀ i ∈ ids, i.index < scopes.size := by
  intro i hi
  induction h with
  | nil => simp at hi
  | cons _ entry _ _ _ _ ih =>
    rcases List.mem_cons.1 hi with rfl | hi
    · exact Table.lt_size_of_getElem? entry
    · exact ih hi

theorem congr (h : Opens scopes ids env) (heq : ∀ i ∈ ids, scopes'[i]? = scopes[i]?) :
    Opens scopes' ids env := by
  induction h with
  | nil => exact .nil
  | cons scope entry parent older binds _ ih =>
    refine .cons scope ?_ parent older binds (ih fun i hi => heq i (by simp [hi]))
    rw [heq _ (by simp), entry]

/-- A search that may visit as many scopes as there are up to this one finds what is visible. -/
theorem findFrom_eq {r : Resolver} (h : Opens r.scopes (id :: ids) env) (name : String)
    {depth : Nat} (hdepth : id.index < depth) : r.findFrom name depth id = env.symbol? name := by
  generalize hids : id :: ids = l at h
  induction h generalizing id ids depth with
  | nil => simp at hids
  | @cons _ _ frame _ scope entry parent older binds outer ih =>
    obtain ⟨rfl, rfl⟩ := List.cons.inj hids
    cases depth with
    | zero => omega
    | succ depth =>
      simp only [findFrom, entry, binds, Environment.symbol?, Environment.declaration?,
        List.findSome?_cons, Option.bind_eq_bind, Option.bind_some]
      cases frame.declaration? name with
      | some d => rfl
      | none =>
        simp only [Option.map_none, parent]
        cases ids with
        | nil =>
          cases outer
          rfl
        | cons i ids =>
          -- the parent is older, so what is left of the depth is enough for it
          have hi : i.index < depth := by
            have hlt := older i (by simp)
            omega
          exact ih hi rfl

/-- A name that is declared again keeps its first declaration. -/
theorem again (h : Opens scopes ids (frame :: env)) {d : Declaration}
    (hd : (frame.declaration? d.sig.name.name).isSome) :
    Opens scopes ids ((frame ++ [d]) :: env) := by
  cases h with
  | cons scope entry parent older binds outer =>
    refine .cons scope entry parent older (fun name => ?_) outer
    rw [binds, Frame.declaration?_append]
    by_cases hname : d.sig.name.name = name
    · obtain ⟨d', hd'⟩ := Option.isSome_iff_exists.1 (hname ▸ hd)
      simp [hd']
    · simp [hname]

/-- A new name goes into the innermost scope. -/
theorem declare (h : Opens scopes (id :: ids) (frame :: env)) {d : Declaration}
    (hd : frame.declaration? d.sig.name.name = none) :
    Opens (scopes.modify id fun scope =>
      { scope with names := (d.sig.name.name, d.symbol) :: scope.names })
      (id :: ids) ((frame ++ [d]) :: env) := by
  cases h with
  | cons scope entry parent older binds outer =>
    refine .cons { scope with names := (d.sig.name.name, d.symbol) :: scope.names } ?_ parent older
      (fun name => ?_) (outer.congr fun i hi => ?_)
    · simp [Table.getElem?_modify, entry]
    · rw [List.lookup_cons, binds, Frame.declaration?_append]
      by_cases hname : d.sig.name.name = name
      · subst hname
        simp [hd]
      · simp [hname, beq_false_of_ne (Ne.symm hname)]
    · have hne : id ≠ i := by
        rintro rfl
        exact Nat.lt_irrefl _ (older _ hi)
      rw [Table.getElem?_modify, if_neg hne]

end Opens

section Sees

variable {r : Resolver} {frame : Frame} {env : Environment}

theorem open_eq (r : Resolver) : ∃ ids, r.entered ++ [root] = r.current :: ids := by
  cases hr : r.entered with
  | nil => exact ⟨[], by simp [current, hr]⟩
  | cons id rest => exact ⟨rest ++ [root], by simp [current, hr]⟩

theorem sees_init : init.Sees [[]] where
  opens := .cons { parent := none } rfl rfl (by simp) (fun _ => rfl) .nil
  has := by simp

theorem Sees.ne_nil (h : r.Sees env) : env ≠ [] := by
  obtain ⟨ids, hids⟩ := r.open_eq
  rintro rfl
  have hnil := h.opens
  rw [hids] at hnil
  cases hnil

theorem Sees.find?_eq (h : r.Sees env) (name : String) : r.find? name = env.symbol? name := by
  obtain ⟨ids, hids⟩ := r.open_eq
  have hopens := h.opens
  rw [hids] at hopens
  exact hopens.findFrom_eq name (hopens.lt_size _ (by simp))

/-- What a name stands for has the kind that it was declared with. -/
theorem Sees.kind_eq (h : r.Sees env) {name : String} {d : Declaration}
    (hd : env.declaration? name = some d) :
    ∃ entry, r.symbols[d.symbol]? = some entry ∧ entry.kind = d.sig.kind := by
  obtain ⟨frame, hframe, hfind⟩ := List.exists_of_findSome?_eq_some hd
  have hhas := h.has frame hframe d (List.mem_of_find?_eq_some hfind)
  obtain ⟨entry, hentry, hbare⟩ := Option.map_eq_some_iff.1 hhas
  exact ⟨entry, hentry, congrArg Symbol.kind hbare⟩

theorem Sees.bound?_eq (h : r.Sees (frame :: env)) (name : String) :
    r.bound? name = (frame.declaration? name).map Declaration.symbol := by
  obtain ⟨ids, hids⟩ := r.open_eq
  have hopens := h.opens
  rw [hids] at hopens
  cases hopens with
  | cons _ entry _ _ binds _ => simp [bound?, entry, binds]

theorem Sees.enter (h : r.Sees env) : r.enter.2.Sees ([] :: env) where
  opens := by
    obtain ⟨ids, hids⟩ := r.open_eq
    have hlt := h.opens.lt_size
    refine .cons { parent := some r.current } ?_ ?_ hlt (fun _ => rfl) ?_
    · simp [Resolver.enter, Table.getElem?_push]
    · simp [hids]
    · refine h.opens.congr fun i hi => ?_
      simp [Resolver.enter, Table.getElem?_push, Table.ne_nextId (hlt i hi)]
  has := by simpa [Resolver.enter] using h.has

theorem Sees.leave (h : r.Sees (frame :: env)) (henv : env ≠ []) : r.leave.2.Sees env := by
  have hopens := h.opens
  simp only [Resolver.leave]
  cases hr : r.entered with
  | nil =>
    -- only the root is open, and nothing is visible around it
    rw [hr] at hopens
    cases hopens with
    | cons _ _ _ _ _ outer =>
      cases outer
      exact absurd rfl henv
  | cons id rest =>
    rw [hr] at hopens
    cases hopens with
    | cons _ _ _ _ _ outer => exact ⟨outer, fun f hf => h.has f (by simp [hf])⟩

/-- Declaring a name adds to the innermost frame, also if the name is taken. -/
theorem Sees.introduce (h : r.Sees (frame :: env)) (sig : Signature) :
    (r.introduce sig).2.Sees ((frame ++ [⟨sig, (r.introduce sig).1.1⟩]) :: env) := by
  have hopens : Opens (r.introduce sig).2.scopes ((r.introduce sig).2.entered ++ [root])
      ((frame ++ [⟨sig, (r.introduce sig).1.1⟩]) :: env) := by
    have hbound := h.bound?_eq sig.name.name
    cases hd : frame.declaration? sig.name.name with
    | none =>
      obtain ⟨ids, hids⟩ := r.open_eq
      have hopens := h.opens
      simp only [Resolver.introduce, Resolver.declare, hbound, hd, Option.map_none, hide, bind]
      rw [hids] at hopens ⊢
      exact hopens.declare (d := ⟨sig, r.symbols.nextId⟩) hd
    | some d =>
      simp only [Resolver.introduce, Resolver.declare, hbound, hd, Option.map_some, hide]
      exact h.opens.again (by simp [hd])
  refine ⟨hopens, ?_⟩
  obtain ⟨s, found, r', hrun, hi⟩ := r.introduce_introduces sig
  rw [hrun]
  intro f hf d hd
  rcases List.mem_cons.1 hf with rfl | hf
  · rcases List.mem_append.1 hd with hd | hd
    · exact hi.keeps _ _ (h.has frame (by simp) d hd)
    · obtain rfl := List.mem_singleton.1 hd
      cases hi.has with
      | cons hs _ => exact hs
  · exact hi.keeps _ _ (h.has f (by simp [hf]) d hd)

/-- Adding and defining symbols changes nothing about the scopes. -/
theorem Sees.withSymbols (h : r.Sees env) {symbols : Symbols} (hk : r.symbols.Keeps symbols) :
    ({ r with symbols } : Resolver).Sees env :=
  ⟨h.opens, fun frame hframe d hd => hk _ _ (h.has frame hframe d hd)⟩

theorem Sees.hide (h : r.Sees env) (sig : Signature) : (r.hide sig).2.Sees env :=
  h.withSymbols (Symbols.keeps_push _ _)

theorem Sees.define (h : r.Sees env) (s : SymbolId) (n : NodeId) : (r.define s n).Sees env := by
  refine h.withSymbols fun t sig ht => ?_
  rw [Symbols.Has, Symbols.define_bare]
  exact ht

/-- A name that is free in the current scope is bound there and nowhere else. -/
theorem Sees.declare (h : r.Sees (frame :: env)) {sig : Signature}
    (hfree : r.bound? sig.name.name = none) :
    (r.declare sig).2.Sees ((frame ++ [⟨sig, r.symbols.nextId⟩]) :: env) := by
  have hintro := h.introduce sig
  simp only [Resolver.introduce, Resolver.declare, hfree, Resolver.hide] at hintro ⊢
  exact hintro

/-- The declarations of a body, with the symbols that they got. -/
theorem Sees.introduceAll (sigs : List Signature) (h : r.Sees (frame :: env)) :
    (r.introduceAll sigs).1.1.length = sigs.length ∧
      (r.introduceAll sigs).2.Sees
        ((frame ++ .ofSymbols sigs (r.introduceAll sigs).1.1) :: env) := by
  induction sigs generalizing r frame with
  | nil => exact ⟨rfl, by simpa [Resolver.introduceAll, Frame.ofSymbols] using h⟩
  | cons sig sigs ih =>
    obtain ⟨hlen, hsees⟩ := ih (h.introduce sig)
    simp only [Resolver.introduceAll, List.length_cons, hlen, true_and]
    simpa [Frame.ofSymbols] using hsees

end Sees

end Resolver
end Hoist
