import Hoist.Proofs.HoistedTree

/-! Hoisting a lowered program gives what the hoisted source stands for. -/
namespace Hoist.Source

mutual

/-- The module with every type that stood in a type at its end. -/
def Module.hoisted : Module → Module
  | ⟨name, items, span⟩ => ⟨name, Item.hoistedAll items ++ (Item.liftAll items).map .type, span⟩

def Item.hoistedAll : List Item → List Item
  | [] => []
  | decl :: rest => decl.hoisted :: Item.hoistedAll rest

def Item.hoisted : Item → Item
  | .module decl => .module decl.hoisted
  | .type decl => .type decl.hoisted
  | .function decl => .function decl.hoisted

def TypeDecl.hoisted : TypeDecl → TypeDecl
  | ⟨visibility, aggregate, name, members⟩ => ⟨visibility, aggregate, name, Member.keep members⟩

/-- The members of a type that are not types. -/
def Member.keep : List Member → List Member
  | [] => []
  | .field decl :: rest => .field decl :: Member.keep rest
  | .method decl :: rest => .method decl.hoisted :: Member.keep rest
  | .type _ :: rest => Member.keep rest

def Function.hoisted : Function → Function
  | ⟨visibility, name, params, result, body⟩ =>
    ⟨visibility, name, params, result, Stmt.hoistedAll body⟩

def Stmt.hoistedAll : List Stmt → List Stmt
  | [] => []
  | stmt :: rest => stmt.hoisted :: Stmt.hoistedAll rest

def Stmt.hoisted : Stmt → Stmt
  | .item decl => .item decl.hoisted
  | stmt => stmt

/-- The types that leave an item for the module around it, in pre-order. -/
def Item.leaving : Item → List TypeDecl
  | .module _ => []
  | .type decl => decl.leaving
  | .function decl => decl.leaving

def Item.liftAll : List Item → List TypeDecl
  | [] => []
  | decl :: rest => decl.leaving ++ Item.liftAll rest

def TypeDecl.leaving : TypeDecl → List TypeDecl
  | ⟨_, _, _, members⟩ => Member.liftAll members

def Member.liftAll : List Member → List TypeDecl
  | [] => []
  | .field _ :: rest => Member.liftAll rest
  | .method decl :: rest => decl.leaving ++ Member.liftAll rest
  | .type decl :: rest => decl.hoisted :: decl.leaving ++ Member.liftAll rest

def Function.leaving : Function → List TypeDecl
  | ⟨_, _, _, _, body⟩ => Stmt.liftAll body

def Stmt.liftAll : List Stmt → List TypeDecl
  | [] => []
  | .item decl :: rest => decl.leaving ++ Stmt.liftAll rest
  | _ :: rest => Stmt.liftAll rest

end

mutual

/-- The types that stand in another type within a module, in pre-order. -/
def Module.nested : Module → List TypeDecl
  | ⟨_, items, _⟩ => Item.nestedAll items

def Item.nestedAll : List Item → List TypeDecl
  | [] => []
  | decl :: rest => decl.nested ++ Item.nestedAll rest

def Item.nested : Item → List TypeDecl
  | .module decl => decl.nested
  | .type decl => decl.nested
  | .function decl => decl.nested

def TypeDecl.nested : TypeDecl → List TypeDecl
  | ⟨_, _, _, members⟩ => Member.nestedAll members

def Member.nestedAll : List Member → List TypeDecl
  | [] => []
  | .field _ :: rest => Member.nestedAll rest
  | .method decl :: rest => decl.nested ++ Member.nestedAll rest
  | .type decl :: rest => decl :: decl.nested ++ Member.nestedAll rest

def Function.nested : Function → List TypeDecl
  | ⟨_, _, _, _, body⟩ => Stmt.nestedAll body

def Stmt.nestedAll : List Stmt → List TypeDecl
  | [] => []
  | .item decl :: rest => decl.nested ++ Stmt.nestedAll rest
  | _ :: rest => Stmt.nestedAll rest

end

def Program.hoisted (source : Source.Program) : Source.Program :=
  ⟨source.modules.map Module.hoisted⟩

def Program.nested (source : Source.Program) : List TypeDecl := source.modules.flatMap Module.nested

variable {T : Symbols} {t : Tree} {ts us : List Tree}

/-- The symbol carries the name of the type. -/
def TypeDecl.Names (T : Symbols) (decl : TypeDecl) (s : SymbolId) : Prop :=
  T.Has s ⟨decl.name, .type⟩

theorem Item.matchAll_append {ds es : List Item} (h : Item.MatchAll T ds ts)
    (h' : Item.MatchAll T es us) : Item.MatchAll T (ds ++ es) (ts ++ us) := by
  induction ds generalizing ts with
  | nil =>
    obtain rfl := h
    exact h'
  | cons d ds ih =>
    obtain ⟨u, ts, rfl, hu, hts⟩ := h
    exact ⟨u, ts ++ us, rfl, hu, ih hts⟩

theorem Item.matchAll_types {ds : List TypeDecl} (h : List.Forall₂ (TypeDecl.Matches T) ds ts) :
    Item.MatchAll T (ds.map .type) ts := by
  induction h with
  | nil => exact rfl
  | cons h _ ih => exact ⟨_, _, rfl, h, ih⟩

mutual

/-- Hoisting a module and hoisting its tree are the same. -/
theorem Module.hoisted_matches (decl : Module) (t : Tree) (h : decl.Matches T t) :
    decl.hoisted.Matches T t.hoisted ∧ List.Forall₂ (TypeDecl.Names T) decl.nested t.nested := by
  cases decl with
  | mk name items span =>
    obtain ⟨s, ts, rfl, hs, hts⟩ := h
    obtain ⟨h₁, h₂, h₃⟩ := Item.hoistedAll_match items ts hts
    rw [Module.hoisted, Tree.hoisted, Module.nested, Tree.nested]
    exact ⟨⟨s, _, rfl, hs, Item.matchAll_append h₁ (Item.matchAll_types h₂)⟩, h₃⟩

theorem Item.hoistedAll_match (decls : List Item) (ts : List Tree) (h : Item.MatchAll T decls ts) :
    Item.MatchAll T (Item.hoistedAll decls) (Tree.keep false ts) ∧
      List.Forall₂ (TypeDecl.Matches T) (Item.liftAll decls) (Tree.lift false ts) ∧
      List.Forall₂ (TypeDecl.Names T) (Item.nestedAll decls) (Tree.nestedIn false ts) := by
  cases decls with
  | nil =>
    obtain rfl := h
    simp [Item.hoistedAll, Item.liftAll, Item.nestedAll, Tree.keep, Tree.lift, Tree.nestedIn,
      Item.MatchAll]
  | cons decl rest =>
    obtain ⟨u, us, rfl, hu, hus⟩ := h
    obtain ⟨h₁, h₂, h₃⟩ := Item.hoisted_matches decl u hu
    obtain ⟨h₁', h₂', h₃'⟩ := Item.hoistedAll_match rest us hus
    rw [Item.hoistedAll, Item.liftAll, Item.nestedAll, Tree.keep, Tree.lift, Tree.nestedIn]
    exact ⟨⟨_, _, rfl, h₁, h₁'⟩, List.rel_append h₂ h₂', List.rel_append h₃ h₃'⟩

theorem Item.hoisted_matches (decl : Item) (t : Tree) (h : decl.Matches T t) :
    decl.hoisted.Matches T t.hoisted ∧
      List.Forall₂ (TypeDecl.Matches T) decl.leaving t.leaving ∧
      List.Forall₂ (TypeDecl.Names T) decl.nested t.nested := by
  cases decl with
  | module decl =>
    obtain ⟨h₁, h₂⟩ := Module.hoisted_matches decl t h
    rw [Item.hoisted, Item.leaving, Item.nested]
    refine ⟨h₁, ?_, h₂⟩
    obtain ⟨name, items, span⟩ := decl
    obtain ⟨s, ts, rfl, _⟩ := h
    simp [Tree.leaving]
  | type decl =>
    rw [Item.hoisted, Item.leaving, Item.nested]
    exact TypeDecl.hoisted_matches decl t h
  | function decl =>
    rw [Item.hoisted, Item.leaving, Item.nested]
    exact Function.hoisted_matches decl t h

theorem TypeDecl.hoisted_matches (decl : TypeDecl) (t : Tree) (h : decl.Matches T t) :
    decl.hoisted.Matches T t.hoisted ∧
      List.Forall₂ (TypeDecl.Matches T) decl.leaving t.leaving ∧
      List.Forall₂ (TypeDecl.Names T) decl.nested t.nested := by
  cases decl with
  | mk visibility aggregate name members =>
    obtain ⟨s, ts, rfl, hs, hts⟩ := h
    obtain ⟨h₁, h₂, h₃⟩ := Member.keep_match members ts hts
    rw [TypeDecl.hoisted, TypeDecl.leaving, TypeDecl.nested, Tree.hoisted, Tree.leaving,
      Tree.nested]
    exact ⟨⟨s, _, rfl, hs, h₁⟩, h₂, h₃⟩

/-- Of the members of a type, the types leave and the others stay. -/
theorem Member.keep_match (decls : List Member) (ts : List Tree)
    (h : Member.MatchAll T decls ts) :
    Member.MatchAll T (Member.keep decls) (Tree.keep true ts) ∧
      List.Forall₂ (TypeDecl.Matches T) (Member.liftAll decls) (Tree.lift true ts) ∧
      List.Forall₂ (TypeDecl.Names T) (Member.nestedAll decls) (Tree.nestedIn true ts) := by
  cases decls with
  | nil =>
    obtain rfl := h
    simp [Member.keep, Member.liftAll, Member.nestedAll, Tree.keep, Tree.lift, Tree.nestedIn,
      Member.MatchAll]
  | cons decl rest =>
    obtain ⟨u, us, rfl, hu, hus⟩ := h
    obtain ⟨h₁', h₂', h₃'⟩ := Member.keep_match rest us hus
    rw [Tree.keep, Tree.lift, Tree.nestedIn]
    cases decl with
    | field decl =>
      obtain ⟨h₁, h₂, h₃⟩ := Tree.hoisted_of_leaf (Tree.regular_field hu).body?
      obtain ⟨s, type, rfl, _⟩ := id hu
      rw [Member.keep, Member.liftAll, Member.nestedAll, h₁, h₂, h₃]
      exact ⟨⟨_, _, rfl, hu, h₁'⟩, h₂', h₃'⟩
    | method decl =>
      obtain ⟨h₁, h₂, h₃⟩ := Function.hoisted_matches decl u hu
      rw [Member.keep, Member.liftAll, Member.nestedAll]
      have htype : u.blank.typeDef? = none := by
        obtain ⟨visibility, name, params, result, body⟩ := decl
        obtain ⟨s, ps, r, ts, rfl, _⟩ := hu
        rfl
      rw [Tree.isType, htype]
      exact ⟨⟨_, _, rfl, h₁, h₁'⟩, List.rel_append h₂ h₂', List.rel_append h₃ h₃'⟩
    | type decl =>
      obtain ⟨h₁, h₂, h₃⟩ := TypeDecl.hoisted_matches decl u hu
      rw [Member.keep, Member.liftAll, Member.nestedAll]
      obtain ⟨s, htype, hs⟩ : ∃ s, u.blank.typeDef? = some s ∧ decl.Names T s := by
        obtain ⟨visibility, aggregate, name, members⟩ := decl
        obtain ⟨s, ts, rfl, hs, _⟩ := hu
        exact ⟨s, rfl, hs⟩
      rw [Tree.isType, htype]
      exact ⟨h₁', .cons h₁ (List.rel_append h₂ h₂'), .cons hs (List.rel_append h₃ h₃')⟩

theorem Function.hoisted_matches (decl : Function) (t : Tree) (h : decl.Matches T t) :
    decl.hoisted.Matches T t.hoisted ∧
      List.Forall₂ (TypeDecl.Matches T) decl.leaving t.leaving ∧
      List.Forall₂ (TypeDecl.Names T) decl.nested t.nested := by
  cases decl with
  | mk visibility name params result body =>
    obtain ⟨s, ps, r, ts, rfl, hs, hps, hr, hts⟩ := h
    obtain ⟨h₁, h₂, h₃⟩ := Stmt.hoistedAll_match body ts hts
    rw [Function.hoisted, Function.leaving, Function.nested, Tree.hoisted, Tree.leaving,
      Tree.nested]
    exact ⟨⟨s, ps, r, _, rfl, hs, hps, hr, h₁⟩, h₂, h₃⟩

theorem Stmt.hoistedAll_match (stmts : List Stmt) (ts : List Tree)
    (h : Stmt.MatchAll T stmts ts) :
    Stmt.MatchAll T (Stmt.hoistedAll stmts) (Tree.keep false ts) ∧
      List.Forall₂ (TypeDecl.Matches T) (Stmt.liftAll stmts) (Tree.lift false ts) ∧
      List.Forall₂ (TypeDecl.Names T) (Stmt.nestedAll stmts) (Tree.nestedIn false ts) := by
  cases stmts with
  | nil =>
    obtain rfl := h
    simp [Stmt.hoistedAll, Stmt.liftAll, Stmt.nestedAll, Tree.keep, Tree.lift, Tree.nestedIn,
      Stmt.MatchAll]
  | cons stmt rest =>
    obtain ⟨u, us, rfl, hu, hus⟩ := h
    obtain ⟨h₁', h₂', h₃'⟩ := Stmt.hoistedAll_match rest us hus
    rw [Stmt.hoistedAll, Tree.keep, Tree.lift, Tree.nestedIn]
    cases stmt with
    | item decl =>
      obtain ⟨h₁, h₂, h₃⟩ := Item.hoisted_matches decl u hu
      rw [Stmt.hoisted, Stmt.liftAll, Stmt.nestedAll]
      exact ⟨⟨_, _, rfl, h₁, h₁'⟩, List.rel_append h₂ h₂', List.rel_append h₃ h₃'⟩
    | binding decl =>
      obtain ⟨h₁, h₂, h₃⟩ := Tree.hoisted_of_leaf (Tree.regular_binding hu).body?
      simp only [Stmt.hoisted, Stmt.liftAll, Stmt.nestedAll, h₁, h₂, h₃]
      exact ⟨⟨_, _, rfl, hu, h₁'⟩, h₂', h₃'⟩
    | eval e =>
      have hleaf : u.blank.body? = none := (Tree.regular_expr e u false hu (T := T)).body?
      obtain ⟨h₁, h₂, h₃⟩ := Tree.hoisted_of_leaf hleaf
      simp only [Stmt.hoisted, Stmt.liftAll, Stmt.nestedAll, h₁, h₂, h₃]
      exact ⟨⟨_, _, rfl, hu, h₁'⟩, h₂', h₃'⟩
    | ret value =>
      obtain ⟨v, rfl, hv⟩ := hu
      obtain ⟨h₁, h₂, h₃⟩ := Tree.hoisted_of_leaf (t := .ret v) rfl
      simp only [Stmt.hoisted, Stmt.liftAll, Stmt.nestedAll, h₁, h₂, h₃]
      exact ⟨⟨_, _, rfl, ⟨v, rfl, hv⟩, h₁'⟩, h₂', h₃'⟩

end

theorem Module.map_hoisted_match {decls : List Module}
    (h : List.Forall₂ (Module.Matches T) decls ts) :
    List.Forall₂ (Module.Matches T) (decls.map Module.hoisted) (ts.map Tree.hoisted) ∧
      List.Forall₂ (TypeDecl.Names T) (decls.flatMap Module.nested) (ts.flatMap Tree.nested) := by
  induction h with
  | nil => exact ⟨.nil, .nil⟩
  | cons h _ ih =>
    obtain ⟨h₁, h₂⟩ := Module.hoisted_matches _ _ h
    exact ⟨.cons h₁ ih.1, List.rel_append h₂ ih.2⟩

end Hoist.Source

namespace Hoist

/-- The program is the source tree and nothing else: its roots store the trees `ts`, which are the
modules of the source with every name resolved, and each node belongs to one of them once. -/
structure Program.Represents (p : Program) (source : Source.Program) (ts : List Tree) : Prop where
  resolved : List.Forall₂ (Source.Module.Matches p.symbols) source.modules ts
  stored : ∃ ids, p.Stores ts p.roots ids ∧ ids.Perm p.nodes.ids

/-- Lowering and then hoisting, in either order of enumeration, gives the program that the hoisted
source stands for. What moves are the types that stand in a type, once each and in pre-order. -/
theorem Source.Program.hoist_lower (source : Source.Program) (options : HoistOptions) :
    ∃ l report, source.lower = .ok l ∧ (l.program.hoist options).result = .ok report ∧
      l.program.Represents source source.resolve.modules ∧
      (l.program.hoist options).program.Represents source.hoisted
        (source.resolve.modules.map Tree.hoisted) ∧
      report.symbols = source.resolve.modules.flatMap Tree.nested ∧ report.symbols.Nodup ∧
      List.Forall₂ (TypeDecl.Names l.program.symbols) source.nested report.symbols ∧
      ∀ n k, l.program.kind? n = some k →
        (l.program.hoist options).program.body k = l.program.bodyAfter report.moves k := by
  obtain ⟨p, ids, hlower, hp, hmatch⟩ := source.lower_holds
  obtain ⟨moves, js, hres, hsym, hnd, hre, hstores, hperm, hbody⟩ := hp.hoist_stores options
  obtain ⟨hhoisted, hnested⟩ := Module.map_hoisted_match hmatch
  refine ⟨_, _, hlower, hres, ⟨hmatch, ids, hp.stores, hp.perm⟩, ⟨?_, js, ?_, ?_⟩, hsym, hnd, ?_,
    hbody⟩
  · rw [hre.symbols]
    exact hhoisted
  · rw [hre.roots]
    exact hstores
  · rw [Table.ids, hre.nodes_size]
    exact hperm
  · rw [Report.symbols, hsym]
    exact hnested

end Hoist
