import Hoist.Proofs.Scoping

/-! Surroundings: an environment without its symbols, as it can be read off the source. -/
namespace Hoist

/-- The declarations of the scopes around a place, innermost scope first. -/
abbrev Surroundings := List (List Signature)

namespace Surroundings

/-- What a name stands for: its first declaration in the innermost scope that has one. -/
def declared? (around : Surroundings) (name : String) : Option Signature :=
  around.findSome? fun sigs => sigs.find? fun sig => sig.name.name = name

def knows (around : Surroundings) (name : String) : Bool := (around.declared? name).isSome

/-- The innermost declaration decides, so a field hides a type further out. -/
def knowsType (around : Surroundings) (name : String) : Bool :=
  (around.declared? name).any (·.kind.isType)

end Surroundings

theorem Frame.map_sig_ofSymbols {sigs : List Signature} {ss : List SymbolId}
    (h : ss.length = sigs.length) : (Frame.ofSymbols sigs ss).map Declaration.sig = sigs := by
  induction sigs generalizing ss with
  | nil => rfl
  | cons sig sigs ih =>
    cases ss with
    | nil => simp at h
    | cons s ss => exact congrArg (sig :: ·) (ih (by simpa using h))

namespace Environment

variable {env : Environment} {name : String}

def surroundings (env : Environment) : Surroundings := env.map (·.map Declaration.sig)

@[simp] theorem surroundings_nil : surroundings [] = [] := rfl

@[simp] theorem surroundings_cons (frame : Frame) (env : Environment) :
    surroundings (frame :: env) = frame.map Declaration.sig :: env.surroundings := rfl

theorem declared?_surroundings (env : Environment) (name : String) :
    env.surroundings.declared? name = (env.declaration? name).map Declaration.sig := by
  induction env with
  | nil => rfl
  | cons frame env ih =>
    have hfind : (frame.map Declaration.sig).find? (fun sig => sig.name.name = name) =
        (frame.declaration? name).map Declaration.sig := List.find?_map ..
    simp only [surroundings_cons, Surroundings.declared?, declaration?, List.findSome?_cons, hfind]
    cases frame.declaration? name with
    | some d => rfl
    | none => exact ih

theorem isSome_symbol? (env : Environment) (name : String) :
    (env.symbol? name).isSome = env.surroundings.knows name := by
  simp [symbol?, Surroundings.knows, declared?_surroundings]

theorem isSome_type? (env : Environment) (name : String) :
    (env.type? name).isSome = env.surroundings.knowsType name := by
  rw [type?, Surroundings.knowsType, declared?_surroundings]
  cases env.declaration? name with
  | none => rfl
  | some d => cases hd : d.sig.kind.isType <;> simp [hd]

end Environment

namespace Source

variable {T : Symbols} {env : Environment} {frame : Frame} {s : SymbolId} {ss : List SymbolId}
  {t : Tree} {ts : List Tree}

theorem Module.Scoped.has {decl : Module} (hs : decl.Scoped env s t) (hm : decl.Matches T t) :
    T.Has s decl.signature := by
  obtain ⟨name, items, span⟩ := decl
  obtain ⟨ss, ts, rfl, -⟩ := hs
  obtain ⟨_, _, heq, hhas, -⟩ := hm
  cases heq
  exact hhas

theorem TypeDecl.Scoped.has {decl : TypeDecl} (hs : decl.Scoped env s t)
    (hm : decl.Matches T t) : T.Has s ⟨decl.name, .type⟩ := by
  obtain ⟨visibility, aggregate, name, members⟩ := decl
  obtain ⟨ss, ts, rfl, -⟩ := hs
  obtain ⟨_, _, heq, hhas, -⟩ := hm
  cases heq
  exact hhas

theorem Function.Scoped.has {decl : Function} (hs : decl.Scoped env s t)
    (hm : decl.Matches T t) : T.Has s ⟨decl.name, .function⟩ := by
  obtain ⟨visibility, name, params, result, body⟩ := decl
  obtain ⟨qs, ps, ss, ts, rfl, -⟩ := hs
  obtain ⟨_, _, _, _, heq, hhas, -⟩ := hm
  cases heq
  exact hhas

theorem Item.Scoped.has {decl : Item} (hs : decl.Scoped env s t) (hm : decl.Matches T t) :
    T.Has s decl.signature := by
  cases decl with
  | module decl => exact Module.Scoped.has hs hm
  | type decl => exact TypeDecl.Scoped.has hs hm
  | function decl => exact Function.Scoped.has hs hm

theorem Member.Scoped.has {decl : Member} (hs : decl.Scoped env s t) (hm : decl.Matches T t) :
    T.Has s decl.signature := by
  cases decl with
  | field decl =>
    obtain rfl := hs
    obtain ⟨_, _, heq, hhas, -⟩ := hm
    cases heq
    exact hhas
  | method decl => exact Function.Scoped.has hs hm
  | type decl => exact TypeDecl.Scoped.has hs hm

theorem Item.ScopedAll.has {decls : List Item} (hs : Item.ScopedAll env decls ss ts)
    (hm : Item.MatchAll T decls ts) : List.Forall₂ T.Has ss (decls.map Item.signature) := by
  induction decls generalizing ss ts with
  | nil =>
    obtain ⟨rfl, -⟩ := hs
    exact .nil
  | cons decl rest ih =>
    obtain ⟨s, ss', t, ts', rfl, rfl, ht, hrest⟩ := hs
    obtain ⟨_, _, heq, hmt, hmrest⟩ := hm
    cases heq
    exact .cons (ht.has hmt) (ih hrest hmrest)

theorem Member.ScopedAll.has {decls : List Member} (hs : Member.ScopedAll env decls ss ts)
    (hm : Member.MatchAll T decls ts) : List.Forall₂ T.Has ss (decls.map Member.signature) := by
  induction decls generalizing ss ts with
  | nil =>
    obtain ⟨rfl, -⟩ := hs
    exact .nil
  | cons decl rest ih =>
    obtain ⟨s, ss', t, ts', rfl, rfl, ht, hrest⟩ := hs
    obtain ⟨_, _, heq, hmt, hmrest⟩ := hm
    cases heq
    exact .cons (ht.has hmt) (ih hrest hmrest)

theorem Param.ScopedAll.has {decls : List Param} (hs : Param.ScopedAll env frame decls ss ts)
    (hm : List.Forall₂ (Param.Matches T) decls ts) :
    List.Forall₂ T.Has ss (decls.map Param.signature) := by
  induction decls generalizing frame ss ts with
  | nil =>
    obtain ⟨rfl, -⟩ := hs
    exact .nil
  | cons decl rest ih =>
    obtain ⟨s, ss', ts', rfl, rfl, hrest⟩ := hs
    cases hm with
    | cons hdecl hm =>
      obtain ⟨_, _, heq, hhas, -⟩ := hdecl
      cases heq
      exact .cons hhas (ih hrest hm)

/-- The symbols are those of the declarations among the statements. -/
theorem Stmt.ScopedAll.has {body : List Stmt} (hs : Stmt.ScopedAll env frame body ss ts)
    (hm : Stmt.MatchAll T body ts) :
    List.Forall₂ T.Has ss (body.filterMap Stmt.signature?) := by
  induction body generalizing frame ss ts with
  | nil =>
    obtain ⟨rfl, -⟩ := hs
    exact .nil
  | cons stmt rest ih =>
    cases stmt with
    | item decl =>
      obtain ⟨s, ss', t, ts', rfl, rfl, ht, hrest⟩ := hs
      obtain ⟨_, _, heq, hmt, hmrest⟩ := hm
      cases heq
      exact .cons (Item.Scoped.has ht hmt) (ih hrest hmrest)
    | binding decl =>
      obtain ⟨s, ts', rfl, hrest⟩ := hs
      obtain ⟨_, _, heq, -, hmrest⟩ := hm
      cases heq
      exact ih hrest hmrest
    | eval e =>
      obtain ⟨ts', rfl, hrest⟩ := hs
      obtain ⟨_, _, heq, -, hmrest⟩ := hm
      cases heq
      exact ih hrest hmrest
    | ret value =>
      obtain ⟨ts', rfl, hrest⟩ := hs
      obtain ⟨_, _, heq, -, hmrest⟩ := hm
      cases heq
      exact ih hrest hmrest

theorem Param.ScopedAll.length_eq {decls : List Param}
    (h : Param.ScopedAll env frame decls ss ts) : ss.length = decls.length := by
  induction decls generalizing frame ss ts with
  | nil => simp [h.1]
  | cons decl rest ih =>
    obtain ⟨s, ss', ts', rfl, -, hrest⟩ := h
    simp [ih hrest]

theorem Item.matchAll_modules {decls : List Module}
    (h : List.Forall₂ (Module.Matches T) decls ts) : Item.MatchAll T (decls.map .module) ts := by
  induction h with
  | nil => rfl
  | cons ht _ ih => exact ⟨_, _, rfl, ht, ih⟩

theorem Item.scopedAll_modules {decls : List Module} (hlen : ss.length = decls.length)
    (h : List.Forall₂ (fun (decl, s) t => decl.Scoped env s t) (decls.zip ss) ts) :
    Item.ScopedAll env (decls.map .module) ss ts := by
  induction decls generalizing ss ts with
  | nil =>
    obtain rfl := List.eq_nil_of_length_eq_zero hlen
    cases h
    exact ⟨rfl, rfl⟩
  | cons decl rest ih =>
    cases ss with
    | nil => simp at hlen
    | cons s ss =>
      cases h with
      | cons ht hrest => exact ⟨s, ss, _, _, rfl, rfl, ht, ih (by simpa using hlen) hrest⟩

namespace Program

/-- The top-level modules, as items of the outermost scope. -/
def items (source : Source.Program) : List Item := source.modules.map .module

theorem signature_items (source : Source.Program) :
    source.items.map Item.signature = source.modules.map Module.signature := by
  rw [items, List.map_map]
  rfl

theorem Scoped.items {source : Source.Program} (h : source.Scoped ts) :
    ∃ ss, Item.ScopedAll [.ofSymbols (source.items.map Item.signature) ss] source.items ss ts := by
  obtain ⟨ss, hlen, hts⟩ := h
  rw [signature_items]
  exact ⟨ss, Item.scopedAll_modules hlen hts⟩

end Program

end Source

end Hoist
