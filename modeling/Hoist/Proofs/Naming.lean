import Mathlib.Data.List.Forall2
import Hoist.Proofs.Growth
import Hoist.Proofs.Stored

/-! Resolution keeps the shape of a source tree and gives each declaration its own symbol. -/
namespace Hoist

namespace Symbols

/-- The symbol is in the table as its signature says, whether or not it has a definition. -/
def Has (T : Symbols) (s : SymbolId) (sig : Signature) : Prop :=
  (T[s]?).map Symbol.bare = some (sig.symbol s)

/-- What one table has, the other has as well. -/
def Keeps (T T' : Symbols) : Prop := ∀ s sig, T.Has s sig → T'.Has s sig

end Symbols

namespace Source

def TypeExpr.Matches : TypeExpr → Tree → Prop
  | .builtin type, t => t = .builtinType type
  | .named i, t => ∃ s, t = .typeRef i.name i.span s

mutual

def Expr.Matches : Expr → Tree → Prop
  | .ident i, t => ∃ s, t = .ident i.name i.span s
  | .int value, t => t = .literal (.int value)
  | .string value, t => t = .literal (.string value)
  | .bool value, t => t = .literal (.bool value)
  | .call callee args, t => ∃ c ts, t = .call c ts ∧ callee.Matches c ∧ Expr.MatchAll args ts
  | .new type args, t => ∃ c ts, t = .new c ts ∧ type.Matches c ∧ Expr.MatchAll args ts

def Expr.MatchAll : List Expr → List Tree → Prop
  | [], ts => ts = []
  | e :: rest, ts => ∃ u us, ts = u :: us ∧ e.Matches u ∧ Expr.MatchAll rest us

end

variable (T : Symbols)

def Param.Matches (decl : Param) (t : Tree) : Prop :=
  ∃ s type, t = .param s decl.name.span type ∧ T.Has s ⟨decl.name, .param⟩ ∧
    Option.Rel TypeExpr.Matches decl.type type

def Field.Matches (decl : Field) (t : Tree) : Prop :=
  ∃ s type, t = .field s decl.name.span type ∧ T.Has s ⟨decl.name, .field⟩ ∧
    decl.type.Matches type

def Binding.Matches (decl : Binding) (t : Tree) : Prop :=
  ∃ s type value, t = .binding s (decl.span.or decl.name.span) type value ∧
    T.Has s ⟨decl.name, .binding⟩ ∧ Option.Rel TypeExpr.Matches decl.type type ∧
    Option.Rel Expr.Matches decl.value value

mutual

/-- The tree is the module with every name resolved, where `T` has the symbols it declares. -/
def Module.Matches : Module → Tree → Prop
  | ⟨name, items, span⟩, t => ∃ s ts, t = .module s (span.or name.span) ts ∧
    T.Has s ⟨name, .module⟩ ∧ Item.MatchAll items ts

def Item.MatchAll : List Item → List Tree → Prop
  | [], ts => ts = []
  | decl :: rest, ts => ∃ u us, ts = u :: us ∧ decl.Matches u ∧ Item.MatchAll rest us

def Item.Matches : Item → Tree → Prop
  | .module decl, t => decl.Matches t
  | .type decl, t => decl.Matches t
  | .function decl, t => decl.Matches t

def TypeDecl.Matches : TypeDecl → Tree → Prop
  | ⟨_, aggregate, name, members⟩, t => ∃ s ts, t = .typeDef s name.span aggregate ts ∧
    T.Has s ⟨name, .type⟩ ∧ Member.MatchAll members ts

def Member.MatchAll : List Member → List Tree → Prop
  | [], ts => ts = []
  | decl :: rest, ts => ∃ u us, ts = u :: us ∧ decl.Matches u ∧ Member.MatchAll rest us

def Member.Matches : Member → Tree → Prop
  | .field decl, t => decl.Matches T t
  | .method decl, t => decl.Matches t
  | .type decl, t => decl.Matches t

def Function.Matches : Function → Tree → Prop
  | ⟨_, name, params, result, body⟩, t => ∃ s ps r ts, t = .function s name.span ps r ts ∧
    T.Has s ⟨name, .function⟩ ∧ List.Forall₂ (Param.Matches T) params ps ∧
    Option.Rel TypeExpr.Matches result r ∧ Stmt.MatchAll body ts

def Stmt.MatchAll : List Stmt → List Tree → Prop
  | [], ts => ts = []
  | stmt :: rest, ts => ∃ u us, ts = u :: us ∧ stmt.Matches u ∧ Stmt.MatchAll rest us

def Stmt.Matches : Stmt → Tree → Prop
  | .item decl, t => decl.Matches t
  | .binding decl, t => decl.Matches T t
  | .eval e, t => e.Matches t
  | .ret value, t => ∃ v, t = .ret v ∧ Option.Rel Expr.Matches value v

end

end Source

namespace Symbols

variable {T T' T'' : Symbols} {s : SymbolId} {sig : Signature}

theorem Keeps.refl (T : Symbols) : T.Keeps T := fun _ _ h => h

theorem Keeps.trans (h : T.Keeps T') (h' : T'.Keeps T'') : T.Keeps T'' :=
  fun s sig hs => h' s sig (h s sig hs)

theorem Has.lt_size (h : T.Has s sig) : s.index < T.size := by
  obtain ⟨e, he, _⟩ := Option.map_eq_some_iff.1 h
  exact Table.lt_size_of_getElem? he

theorem keeps_push (T : Symbols) (e : Symbol) : T.Keeps (T.push e) := by
  intro s sig' h
  have hlt := h.lt_size
  simp only [Has, Table.getElem?_push, if_neg (Table.ne_nextId hlt)]
  exact h

theorem has_push (T : Symbols) (sig : Signature) :
    Has (T.push (sig.symbol T.nextId)) T.nextId sig := by
  simp [Has, Table.getElem?_push, Symbol.bare, Signature.symbol]

/-- `T'` is `T` with symbols added, and the trees declare the given ones and the added ones. -/
structure Declares (T T' : Symbols) (given : List SymbolId) (ts : List Tree) : Prop where
  keeps : T.Keeps T'
  le : T.size ≤ T'.size
  count : ∀ s, (Tree.symbolsAll ts).count s = given.count s + T.added T' s

/-- `T'` is `T` with the symbols `ss` added, one for each signature. -/
structure Introduces (T T' : Symbols) (sigs : List Signature) (ss : List SymbolId) : Prop where
  keeps : T.Keeps T'
  le : T.size ≤ T'.size
  count : ∀ s, ss.count s = T.added T' s
  has : List.Forall₂ T'.Has ss sigs

variable {given given' ss : List SymbolId} {sigs : List Signature} {t : Tree} {ts us : List Tree}

theorem declares_nil (T : Symbols) : T.Declares T [] [] :=
  ⟨.refl T, Nat.le_refl _, fun s => by simp [Table.added_self]⟩

theorem Declares.append (h : T.Declares T' given ts) (h' : T'.Declares T'' given' us) :
    T.Declares T'' (given ++ given') (ts ++ us) where
  keeps := h.keeps.trans h'.keeps
  le := Nat.le_trans h.le h'.le
  count s := by
    rw [Tree.symbolsAll_append, List.count_append, List.count_append, h.count, h'.count,
      ← Table.added_trans h.le h'.le]
    omega

/-- Before the trees that need them, some symbols are added. -/
theorem Introduces.declares (h : T.Introduces T' sigs ss) (h' : T'.Declares T'' (ss ++ given) ts) :
    T.Declares T'' given ts where
  keeps := h.keeps.trans h'.keeps
  le := Nat.le_trans h.le h'.le
  count s := by
    rw [h'.count, List.count_append, h.count, ← Table.added_trans h.le h'.le]
    omega

/-- A tree declares its own symbol and those below it. -/
theorem Declares.tree (t : Tree) (h : T.Declares T' given us) (hu : t.operands ++ t.contents = us)
    (hg : t.declared?.toList ++ given = given') : T.Declares T' given' [t] where
  keeps := h.keeps
  le := h.le
  count s := by
    have hs := h.count s
    rw [← hu, Tree.symbolsAll_append, List.count_append] at hs
    rw [← hg, Tree.symbolsAll_cons, Tree.symbolsAll_nil, List.append_nil, Tree.symbols_eq,
      List.count_append, List.count_append, List.count_append]
    omega

/-- The symbol of the tree itself may come after those below it. -/
theorem Declares.treeAfter (t : Tree) (h : T.Declares T' [] us) (hi : T'.Introduces T'' sigs [s])
    (hu : t.operands ++ t.contents = us) (hs : t.declared? = some s) : T.Declares T'' [] [t] where
  keeps := h.keeps.trans hi.keeps
  le := Nat.le_trans h.le hi.le
  count r := by
    have hr := (h.tree t hu rfl).count r
    rw [hs, Option.toList_some, List.append_nil, hi.count] at hr
    rw [hr, ← Table.added_trans h.le hi.le, List.count_nil]
    omega

end Symbols

namespace Resolver

open Symbols

theorem introduce_introduces (r : Resolver) (sig : Signature) :
    ∃ s found r', r.introduce sig = ((s, found), r') ∧
      Introduces r.symbols r'.symbols [sig] [s] := by
  have hpush : Introduces r.symbols (r.symbols.push (sig.symbol r.symbols.nextId)) [sig]
      [r.symbols.nextId] :=
    ⟨keeps_push _ _, by simp, fun s => (Table.added_push ..).symm, .cons (has_push ..) .nil⟩
  simp only [introduce, declare]
  cases r.bound? sig.name.name with
  | none => exact ⟨_, _, _, rfl, hpush⟩
  | some s => exact ⟨_, _, _, rfl, hpush⟩

theorem introduceAll_introduces (sigs : List Signature) (r : Resolver) :
    ∃ ss found r', r.introduceAll sigs = ((ss, found), r') ∧
      Introduces r.symbols r'.symbols sigs ss := by
  induction sigs generalizing r with
  | nil => exact ⟨_, _, _, rfl, .refl _, Nat.le_refl _, fun s => by simp [Table.added_self], .nil⟩
  | cons sig sigs ih =>
    obtain ⟨s, found, r₁, hrun, h₁⟩ := r.introduce_introduces sig
    obtain ⟨ss, more, r₂, hrun', h₂⟩ := ih r₁
    refine ⟨s :: ss, found ++ more, r₂, ?_, h₁.keeps.trans h₂.keeps, Nat.le_trans h₁.le h₂.le, ?_,
      ?_⟩
    · simp only [introduceAll, hrun, hrun']
    · intro i
      rw [← List.singleton_append, List.count_append, h₁.count, h₂.count,
        Table.added_trans h₁.le h₂.le]
    · cases h₁.has with
      | cons hs _ => exact .cons (h₂.keeps _ _ hs) h₂.has

end Resolver

namespace Resolve

open Source Symbols

variable {α β : Type} {st st' : Resolution}

theorem bind_eq {x : Resolve α} {f : α → Resolve β} {a : α} (h : x st = (a, st')) :
    (x >>= f) st = f a st' := by
  simp only [bind, StateT.bind, h]

theorem pure_eq (a : α) (st : Resolution) : (pure a : Resolve α) st = (a, st) := rfl

theorem map_eq {x : Resolve α} {a : α} (f : α → β) (h : x st = (a, st')) :
    (f <$> x) st = (f a, st') := by
  simp only [Functor.map, StateT.map, h]
  rfl

theorem get_eq (st : Resolution) : (get : Resolve Resolution) st = (st, st) := rfl

theorem resolver_eq (f : Resolver → α × Resolver) (st : Resolution) :
    resolver f st = ((f st.resolver).1, { st with resolver := (f st.resolver).2 }) := rfl

theorem declare_introduces (sig : Signature) (st : Resolution) :
    ∃ s st', declare sig st = (s, st') ∧
      Introduces st.resolver.symbols st'.resolver.symbols [sig] [s] := by
  obtain ⟨s, found, r, hrun, h⟩ := st.resolver.introduce_introduces sig
  refine ⟨s, ⟨r, st.diagnostics ++ found⟩, ?_, h⟩
  rw [declare, bind_eq (resolver_eq _ st), hrun]
  rfl

theorem declareAll_introduces (sigs : List Signature) (st : Resolution) :
    ∃ ss st', declareAll sigs st = (ss, st') ∧
      Introduces st.resolver.symbols st'.resolver.symbols sigs ss := by
  obtain ⟨ss, found, r, hrun, h⟩ := Resolver.introduceAll_introduces sigs st.resolver
  refine ⟨ss, ⟨r, st.diagnostics ++ found⟩, ?_, h⟩
  rw [declareAll, bind_eq (resolver_eq _ st), hrun]
  rfl

/-- A scope around a step does not change which symbols there are. -/
theorem inScope_eq (x : Resolve α) (st : Resolution) :
    ∃ st₀ : Resolution, st₀.resolver.symbols = st.resolver.symbols ∧ ∀ a st₁, x st₀ = (a, st₁) →
      ∃ st', inScope x st = (a, st') ∧ st'.resolver.symbols = st₁.resolver.symbols := by
  refine ⟨{ st with resolver := st.resolver.enter.2 }, rfl, fun a st₁ hx => ?_⟩
  refine ⟨{ st₁ with resolver := st₁.resolver.leave.2 }, ?_, ?_⟩
  · rw [inScope, bind_eq (resolver_eq _ st), bind_eq hx, bind_eq (resolver_eq _ st₁), pure_eq]
  · simp only [Resolver.leave]
    split <;> rfl

theorem symbols_symbol (i : Ident) (st : Resolution) :
    (symbol i st).2.resolver.symbols = st.resolver.symbols := by
  rw [symbol, bind_eq (get_eq st)]
  cases st.resolver.find? i.name with
  | some s => rfl
  | none => rfl

theorem symbols_typeSymbol (i : Ident) (st : Resolution) :
    (typeSymbol i st).2.resolver.symbols = st.resolver.symbols := by
  rw [← symbols_symbol i st, typeSymbol]
  rcases hrun : symbol i st with ⟨s, st'⟩
  rw [bind_eq hrun]
  cases s with
  | none => rfl
  | some s =>
    simp only [bind_eq (get_eq st')]
    cases st'.resolver.symbols[s]? with
    | none => rfl
    | some entry =>
      simp only
      cases entry.kind.isType with
      | true => rfl
      | false => rfl

theorem typeExpr_matches (e : TypeExpr) (st : Resolution) :
    ∃ t st', typeExpr e st = (t, st') ∧ e.Matches t ∧
      Declares st.resolver.symbols st'.resolver.symbols [] [t] := by
  cases e with
  | builtin type => exact ⟨_, st, rfl, rfl, (declares_nil _).tree (.builtinType type) rfl rfl⟩
  | named i =>
    refine ⟨.typeRef i.name i.span (typeSymbol i st).1, (typeSymbol i st).2, rfl, ⟨_, rfl⟩, ?_⟩
    rw [symbols_typeSymbol]
    exact (declares_nil _).tree _ rfl rfl

mutual

theorem expr_matches (e : Expr) (st : Resolution) :
    ∃ t st', expr e st = (t, st') ∧ e.Matches t ∧
      Declares st.resolver.symbols st'.resolver.symbols [] [t] := by
  cases e with
  | ident i =>
    refine ⟨.ident i.name i.span (symbol i st).1, (symbol i st).2, rfl, ⟨_, rfl⟩, ?_⟩
    rw [symbols_symbol]
    exact (declares_nil _).tree _ rfl rfl
  | int value => exact ⟨_, st, rfl, rfl, (declares_nil _).tree (.literal (.int value)) rfl rfl⟩
  | string value =>
    exact ⟨_, st, rfl, rfl, (declares_nil _).tree (.literal (.string value)) rfl rfl⟩
  | bool value => exact ⟨_, st, rfl, rfl, (declares_nil _).tree (.literal (.bool value)) rfl rfl⟩
  | call callee args =>
    obtain ⟨c, st₁, hrun, hc, hd⟩ := expr_matches callee st
    obtain ⟨ts, st₂, hrun', hts, hd'⟩ := exprs_match args st₁
    refine ⟨.call c ts, st₂, ?_, ⟨c, ts, rfl, hc, hts⟩, ?_⟩
    · rw [expr, bind_eq hrun, bind_eq hrun', pure_eq]
    · exact (hd.append hd').tree _ (List.append_nil _) rfl
  | new type args =>
    obtain ⟨c, st₁, hrun, hc, hd⟩ := typeExpr_matches type st
    obtain ⟨ts, st₂, hrun', hts, hd'⟩ := exprs_match args st₁
    refine ⟨.new c ts, st₂, ?_, ⟨c, ts, rfl, hc, hts⟩, ?_⟩
    · rw [expr, bind_eq hrun, bind_eq hrun', pure_eq]
    · exact (hd.append hd').tree _ (List.append_nil _) rfl

theorem exprs_match (es : List Expr) (st : Resolution) :
    ∃ ts st', exprs es st = (ts, st') ∧ Expr.MatchAll es ts ∧
      Declares st.resolver.symbols st'.resolver.symbols [] ts := by
  cases es with
  | nil => exact ⟨[], st, rfl, rfl, declares_nil _⟩
  | cons e es =>
    obtain ⟨t, st₁, hrun, ht, hd⟩ := expr_matches e st
    obtain ⟨ts, st₂, hrun', hts, hd'⟩ := exprs_match es st₁
    refine ⟨t :: ts, st₂, ?_, ⟨t, ts, rfl, ht, hts⟩, hd.append hd'⟩
    rw [exprs, bind_eq hrun, bind_eq hrun', pure_eq]

end

theorem option_matches {γ : Type} {f : γ → Resolve Tree} {R : γ → Tree → Prop}
    (hf : ∀ c st, ∃ t st', f c st = (t, st') ∧ R c t ∧
      Declares st.resolver.symbols st'.resolver.symbols [] [t]) (o : Option γ) (st : Resolution) :
    ∃ o' st', o.mapM f st = (o', st') ∧ Option.Rel R o o' ∧
      Declares st.resolver.symbols st'.resolver.symbols [] o'.toList := by
  cases o with
  | none => exact ⟨none, st, rfl, .none, declares_nil _⟩
  | some c =>
    obtain ⟨t, st', hrun, ht, hd⟩ := hf c st
    exact ⟨some t, st', map_eq some hrun, .some ht, hd⟩

theorem param_matches (decl : Param) (st : Resolution) :
    ∃ t st', param decl st = (t, st') ∧
      (∀ T, Keeps st'.resolver.symbols T → decl.Matches T t) ∧
      Declares st.resolver.symbols st'.resolver.symbols [] [t] := by
  obtain ⟨o, st₁, hrun, ho, hd⟩ := option_matches typeExpr_matches decl.type st
  obtain ⟨s, st₂, hrun', hi⟩ := declare_introduces ⟨decl.name, .param⟩ st₁
  refine ⟨.param s decl.name.span o, st₂, ?_, fun T hT => ?_, ?_⟩
  · rw [param, bind_eq hrun, bind_eq hrun', pure_eq]
  · cases hi.has with
    | cons hs _ => exact ⟨s, o, rfl, hT _ _ hs, ho⟩
  · exact hd.treeAfter _ hi (List.append_nil _) rfl

theorem params_match (decls : List Param) (st : Resolution) :
    ∃ ts st', decls.mapM param st = (ts, st') ∧
      (∀ T, Keeps st'.resolver.symbols T → List.Forall₂ (Param.Matches T) decls ts) ∧
      Declares st.resolver.symbols st'.resolver.symbols [] ts := by
  induction decls generalizing st with
  | nil => exact ⟨[], st, rfl, fun _ _ => .nil, declares_nil _⟩
  | cons decl decls ih =>
    obtain ⟨t, st₁, hrun, ht, hd⟩ := param_matches decl st
    obtain ⟨ts, st₂, hrun', hts, hd'⟩ := ih st₁
    refine ⟨t :: ts, st₂, ?_, fun T hT => ?_, hd.append hd'⟩
    · rw [List.mapM_cons, bind_eq hrun, bind_eq hrun', pure_eq]
    · exact .cons (ht T (hd'.keeps.trans hT)) (hts T hT)

theorem binding_matches (decl : Binding) (st : Resolution) :
    ∃ t st', binding decl st = (t, st') ∧
      (∀ T, Keeps st'.resolver.symbols T → decl.Matches T t) ∧
      Declares st.resolver.symbols st'.resolver.symbols [] [t] := by
  obtain ⟨type, st₁, hrun₁, htype, hd₁⟩ := option_matches typeExpr_matches decl.type st
  obtain ⟨value, st₂, hrun₂, hvalue, hd₂⟩ := option_matches expr_matches decl.value st₁
  obtain ⟨s, st₃, hrun₃, hi⟩ := declare_introduces ⟨decl.name, .binding⟩ st₂
  refine ⟨.binding s (decl.span.or decl.name.span) type value, st₃, ?_, fun T hT => ?_, ?_⟩
  · rw [binding, bind_eq hrun₁, bind_eq hrun₂, bind_eq hrun₃, pure_eq]
  · cases hi.has with
    | cons hs _ => exact ⟨s, type, value, rfl, hT _ _ hs, htype, hvalue⟩
  · exact (hd₁.append hd₂).treeAfter _ hi (List.append_nil _) rfl

theorem field_matches (decl : Field) (s : SymbolId) (st : Resolution)
    (hs : Has st.resolver.symbols s ⟨decl.name, .field⟩) :
    ∃ t st', field decl s st = (t, st') ∧
      (∀ T, Keeps st'.resolver.symbols T → decl.Matches T t) ∧
      Declares st.resolver.symbols st'.resolver.symbols [s] [t] := by
  obtain ⟨type, st', hrun, htype, hd⟩ := typeExpr_matches decl.type st
  refine ⟨.field s decl.name.span type, st', ?_, fun T hT => ?_, ?_⟩
  · rw [field, bind_eq hrun, pure_eq]
  · exact ⟨s, type, rfl, hT _ _ (hd.keeps _ _ hs), htype⟩
  · exact hd.tree _ (List.append_nil _) rfl

theorem forall₂_keeps {T T' : Symbols} {ss : List SymbolId} {sigs : List Signature}
    (hT : T.Keeps T') (h : List.Forall₂ T.Has ss sigs) : List.Forall₂ T'.Has ss sigs :=
  h.imp hT

mutual

/-- A module becomes a tree that declares its symbol and a new one for everything inside. -/
theorem module_matches (decl : Module) (s : SymbolId) (st : Resolution)
    (hs : Has st.resolver.symbols s decl.signature) :
    ∃ t st', module decl s st = (t, st') ∧
      (∀ T, Keeps st'.resolver.symbols T → decl.Matches T t) ∧
      Declares st.resolver.symbols st'.resolver.symbols [s] [t] := by
  cases decl with
  | mk name contents span =>
    obtain ⟨st₀, h₀, hscope⟩ := inScope_eq (do
      let symbols ← declareAll (contents.map Item.signature)
      items contents symbols) st
    obtain ⟨ss, st₁, hrun₁, hi⟩ := declareAll_introduces (contents.map Item.signature) st₀
    obtain ⟨ts, st₂, hrun₂, hts, hd⟩ := items_match contents ss st₁ hi.has
    obtain ⟨st', hrun, h'⟩ := hscope ts st₂ (by rw [bind_eq hrun₁, hrun₂])
    rw [h₀] at hi
    rw [← h'] at hd
    have hall : Declares st.resolver.symbols st'.resolver.symbols [] ts :=
      hi.declares (by simpa using hd)
    refine ⟨.module s (span.or name.span) ts, st', ?_, fun T hT => ?_, hall.tree _ rfl rfl⟩
    · rw [module, bind_eq hrun, pure_eq]
    · exact ⟨s, ts, rfl, hT _ _ (hall.keeps _ _ hs), hts T (h' ▸ hT)⟩

theorem items_match (decls : List Item) (ss : List SymbolId) (st : Resolution)
    (hs : List.Forall₂ (Has st.resolver.symbols) ss (decls.map Item.signature)) :
    ∃ ts st', items decls ss st = (ts, st') ∧
      (∀ T, Keeps st'.resolver.symbols T → Item.MatchAll T decls ts) ∧
      Declares st.resolver.symbols st'.resolver.symbols ss ts := by
  cases decls with
  | nil =>
    cases hs
    exact ⟨[], st, rfl, fun _ _ => rfl, declares_nil _⟩
  | cons decl rest =>
    rcases hs with _ | ⟨hs, hrest⟩
    obtain ⟨t, st₁, hrun, ht, hd⟩ := item_matches decl _ st hs
    obtain ⟨ts, st₂, hrun', hts, hd'⟩ := items_match rest _ st₁ (forall₂_keeps hd.keeps hrest)
    refine ⟨t :: ts, st₂, ?_, fun T hT => ?_, hd.append hd'⟩
    · rw [items, bind_eq hrun, bind_eq hrun', pure_eq]
    · exact ⟨t, ts, rfl, ht T (hd'.keeps.trans hT), hts T hT⟩

theorem item_matches (decl : Item) (s : SymbolId) (st : Resolution)
    (hs : Has st.resolver.symbols s decl.signature) :
    ∃ t st', item decl s st = (t, st') ∧
      (∀ T, Keeps st'.resolver.symbols T → decl.Matches T t) ∧
      Declares st.resolver.symbols st'.resolver.symbols [s] [t] := by
  cases decl with
  | module decl => exact module_matches decl s st hs
  | type decl => exact typeDecl_matches decl s st hs
  | function decl => exact function_matches decl s st hs

theorem typeDecl_matches (decl : TypeDecl) (s : SymbolId) (st : Resolution)
    (hs : Has st.resolver.symbols s ⟨decl.name, .type⟩) :
    ∃ t st', typeDecl decl s st = (t, st') ∧
      (∀ T, Keeps st'.resolver.symbols T → decl.Matches T t) ∧
      Declares st.resolver.symbols st'.resolver.symbols [s] [t] := by
  cases decl with
  | mk visibility aggregate name contents =>
    obtain ⟨st₀, h₀, hscope⟩ := inScope_eq (do
      let symbols ← declareAll (contents.map Member.signature)
      members contents symbols) st
    obtain ⟨ss, st₁, hrun₁, hi⟩ := declareAll_introduces (contents.map Member.signature) st₀
    obtain ⟨ts, st₂, hrun₂, hts, hd⟩ := members_match contents ss st₁ hi.has
    obtain ⟨st', hrun, h'⟩ := hscope ts st₂ (by rw [bind_eq hrun₁, hrun₂])
    rw [h₀] at hi
    rw [← h'] at hd
    have hall : Declares st.resolver.symbols st'.resolver.symbols [] ts :=
      hi.declares (by simpa using hd)
    refine ⟨.typeDef s name.span aggregate ts, st', ?_, fun T hT => ?_, hall.tree _ rfl rfl⟩
    · rw [typeDecl, bind_eq hrun, pure_eq]
    · exact ⟨s, ts, rfl, hT _ _ (hall.keeps _ _ hs), hts T (h' ▸ hT)⟩

theorem members_match (decls : List Member) (ss : List SymbolId) (st : Resolution)
    (hs : List.Forall₂ (Has st.resolver.symbols) ss (decls.map Member.signature)) :
    ∃ ts st', members decls ss st = (ts, st') ∧
      (∀ T, Keeps st'.resolver.symbols T → Member.MatchAll T decls ts) ∧
      Declares st.resolver.symbols st'.resolver.symbols ss ts := by
  cases decls with
  | nil =>
    cases hs
    exact ⟨[], st, rfl, fun _ _ => rfl, declares_nil _⟩
  | cons decl rest =>
    rcases hs with _ | ⟨hs, hrest⟩
    obtain ⟨t, st₁, hrun, ht, hd⟩ := member_matches decl _ st hs
    obtain ⟨ts, st₂, hrun', hts, hd'⟩ := members_match rest _ st₁ (forall₂_keeps hd.keeps hrest)
    refine ⟨t :: ts, st₂, ?_, fun T hT => ?_, hd.append hd'⟩
    · rw [members, bind_eq hrun, bind_eq hrun', pure_eq]
    · exact ⟨t, ts, rfl, ht T (hd'.keeps.trans hT), hts T hT⟩

theorem member_matches (decl : Member) (s : SymbolId) (st : Resolution)
    (hs : Has st.resolver.symbols s decl.signature) :
    ∃ t st', member decl s st = (t, st') ∧
      (∀ T, Keeps st'.resolver.symbols T → decl.Matches T t) ∧
      Declares st.resolver.symbols st'.resolver.symbols [s] [t] := by
  cases decl with
  | field decl => exact field_matches decl s st hs
  | method decl => exact function_matches decl s st hs
  | type decl => exact typeDecl_matches decl s st hs

theorem function_matches (decl : Function) (s : SymbolId) (st : Resolution)
    (hs : Has st.resolver.symbols s ⟨decl.name, .function⟩) :
    ∃ t st', function decl s st = (t, st') ∧
      (∀ T, Keeps st'.resolver.symbols T → decl.Matches T t) ∧
      Declares st.resolver.symbols st'.resolver.symbols [s] [t] := by
  cases decl with
  | mk visibility name params result contents =>
    rw [function]
    obtain ⟨st₀, h₀, hscope⟩ := inScope_eq (do
      let params ← params.mapM param
      let result ← result.mapM typeExpr
      let symbols ← declareAll (contents.filterMap Stmt.signature?)
      let body ← stmts contents symbols
      return Tree.function s name.span params result body) st
    obtain ⟨ps, st₁, hrun₁, hps, hd₁⟩ := params_match params st₀
    obtain ⟨r, st₂, hrun₂, hr, hd₂⟩ := option_matches typeExpr_matches result st₁
    obtain ⟨ss, st₃, hrun₃, hi⟩ := declareAll_introduces (contents.filterMap Stmt.signature?) st₂
    obtain ⟨ts, st₄, hrun₄, hts, hd₄⟩ := stmts_match contents ss st₃ hi.has
    obtain ⟨st', hrun, h'⟩ := hscope (.function s name.span ps r ts) st₄ (by
      rw [bind_eq hrun₁, bind_eq hrun₂, bind_eq hrun₃, bind_eq hrun₄, pure_eq])
    rw [h₀] at hd₁
    rw [← h'] at hd₄
    have hbody : Declares st₂.resolver.symbols st'.resolver.symbols [] ts :=
      hi.declares (by simpa using hd₄)
    have hall := (hd₁.append hd₂).append hbody
    refine ⟨_, st', hrun, fun T hT => ?_, hall.tree _ rfl rfl⟩
    exact ⟨s, ps, r, ts, rfl, hT _ _ (hall.keeps _ _ hs),
      hps T (hd₂.keeps.trans (hbody.keeps.trans hT)), hr, hts T (h' ▸ hT)⟩

/-- Each local declaration uses up one of the symbols, anything else none. -/
theorem stmts_match (body : List Stmt) (ss : List SymbolId) (st : Resolution)
    (hs : List.Forall₂ (Has st.resolver.symbols) ss (body.filterMap Stmt.signature?)) :
    ∃ ts st', stmts body ss st = (ts, st') ∧
      (∀ T, Keeps st'.resolver.symbols T → Stmt.MatchAll T body ts) ∧
      Declares st.resolver.symbols st'.resolver.symbols ss ts := by
  cases body with
  | nil =>
    cases hs
    exact ⟨[], st, rfl, fun _ _ => rfl, declares_nil _⟩
  | cons stmt rest =>
    cases stmt with
    | item decl =>
      rcases hs with _ | ⟨hs, hrest⟩
      obtain ⟨t, st₁, hrun, ht, hd⟩ := item_matches decl _ st hs
      obtain ⟨ts, st₂, hrun', hts, hd'⟩ := stmts_match rest _ st₁ (forall₂_keeps hd.keeps hrest)
      refine ⟨t :: ts, st₂, ?_, fun T hT => ?_, hd.append hd'⟩
      · rw [stmts, bind_eq hrun, bind_eq hrun', pure_eq]
      · exact ⟨t, ts, rfl, ht T (hd'.keeps.trans hT), hts T hT⟩
    | binding decl =>
      obtain ⟨t, st₁, hrun, ht, hd⟩ := binding_matches decl st
      obtain ⟨ts, st₂, hrun', hts, hd'⟩ := stmts_match rest ss st₁ (forall₂_keeps hd.keeps hs)
      refine ⟨t :: ts, st₂, ?_, fun T hT => ?_, hd.append hd'⟩
      · rw [stmts, bind_eq hrun, bind_eq hrun', pure_eq]
      · exact ⟨t, ts, rfl, ht T (hd'.keeps.trans hT), hts T hT⟩
    | eval e =>
      obtain ⟨t, st₁, hrun, ht, hd⟩ := expr_matches e st
      obtain ⟨ts, st₂, hrun', hts, hd'⟩ := stmts_match rest ss st₁ (forall₂_keeps hd.keeps hs)
      refine ⟨t :: ts, st₂, ?_, fun T hT => ?_, hd.append hd'⟩
      · rw [stmts, bind_eq hrun, bind_eq hrun', pure_eq]
      · exact ⟨t, ts, rfl, ht, hts T hT⟩
    | ret value =>
      obtain ⟨v, st₁, hrun, hv, hd⟩ := option_matches expr_matches value st
      obtain ⟨ts, st₂, hrun', hts, hd'⟩ := stmts_match rest ss st₁ (forall₂_keeps hd.keeps hs)
      have hret := hd.tree (.ret v) (List.append_nil _) rfl
      refine ⟨.ret v :: ts, st₂, ?_, fun T hT => ?_, hret.append hd'⟩
      · rw [stmts, bind_eq hrun, bind_eq hrun', pure_eq]
      · exact ⟨.ret v, ts, rfl, ⟨v, rfl, hv⟩, hts T hT⟩

end

theorem modules_match (decls : List Module) (ss : List SymbolId) (st : Resolution)
    (hs : List.Forall₂ (Has st.resolver.symbols) ss (decls.map Module.signature)) :
    ∃ ts st', ((decls.zip ss).mapM fun (decl, s) => module decl s) st = (ts, st') ∧
      (∀ T, Keeps st'.resolver.symbols T → List.Forall₂ (Module.Matches T) decls ts) ∧
      Declares st.resolver.symbols st'.resolver.symbols ss ts := by
  induction decls generalizing ss st with
  | nil =>
    cases hs
    exact ⟨[], st, rfl, fun _ _ => .nil, declares_nil _⟩
  | cons decl rest ih =>
    rcases hs with _ | ⟨hs, hrest⟩
    obtain ⟨t, st₁, hrun, ht, hd⟩ := module_matches decl _ st hs
    obtain ⟨ts, st₂, hrun', hts, hd'⟩ := ih _ st₁ (forall₂_keeps hd.keeps hrest)
    refine ⟨t :: ts, st₂, ?_, fun T hT => ?_, hd.append hd'⟩
    · rw [List.zip_cons_cons, List.mapM_cons, bind_eq hrun, bind_eq hrun', pure_eq]
    · exact .cons (ht T (hd'.keeps.trans hT)) (hts T hT)

end Resolve

namespace Source.Program

/-- Resolution keeps the shape of the source, and each symbol is declared exactly once. Tables that
have what this one has do as well. -/
theorem resolve_matches (source : Source.Program) :
    (∀ T, source.resolve.symbols.Keeps T →
      List.Forall₂ (Module.Matches T) source.modules source.resolve.modules) ∧
    ∀ s, (Tree.symbolsAll source.resolve.modules).count s =
      if s.index < source.resolve.symbols.size then 1 else 0 := by
  obtain ⟨ss, st₁, hrun₁, hi⟩ := Resolve.declareAll_introduces
    (source.modules.map Module.signature) {}
  obtain ⟨ts, st₂, hrun₂, hts, hd⟩ := Resolve.modules_match source.modules ss st₁ hi.has
  have hrun : Resolve.program source {} = (ts, st₂) := by
    rw [Resolve.program, Resolve.bind_eq hrun₁, hrun₂]
  have hall : Symbols.Declares .empty st₂.resolver.symbols [] ts :=
    hi.declares (by simpa using hd)
  have hresolve : source.resolve = ⟨ts, st₂.resolver.symbols, st₂.diagnostics⟩ := by
    rw [resolve, StateT.run, hrun]
  rw [hresolve]
  refine ⟨hts, fun s => ?_⟩
  rw [hall.count s, Table.added]
  simp

end Source.Program

end Hoist
