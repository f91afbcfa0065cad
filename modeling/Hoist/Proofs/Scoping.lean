import Hoist.Proofs.Environment
import Hoist.Proofs.Lowering

/-! Lexical scoping, said of source trees, and that resolution assigns the symbols it gives. -/
namespace Hoist

namespace Source

def Param.signature (decl : Param) : Signature := ⟨decl.name, .param⟩

def Binding.signature (decl : Binding) : Signature := ⟨decl.name, .binding⟩

/-- What a type expression means where the environment is visible. -/
def TypeExpr.treeIn (env : Environment) : TypeExpr → Tree
  | .builtin type => .builtinType type
  | .named i => .typeRef i.name i.span (env.type? i.name)

mutual

def Expr.treeIn (env : Environment) : Expr → Tree
  | .ident i => .ident i.name i.span (env.symbol? i.name)
  | .int value => .literal (.int value)
  | .string value => .literal (.string value)
  | .bool value => .literal (.bool value)
  | .call callee args => .call (callee.treeIn env) (Expr.treesIn env args)
  | .new type args => .new (type.treeIn env) (Expr.treesIn env args)

def Expr.treesIn (env : Environment) : List Expr → List Tree
  | [] => []
  | e :: rest => e.treeIn env :: Expr.treesIn env rest

end

def Field.treeIn (env : Environment) (decl : Field) (s : SymbolId) : Tree :=
  .field s decl.name.span (decl.type.treeIn env)

def Param.treeIn (env : Environment) (decl : Param) (s : SymbolId) : Tree :=
  .param s decl.name.span (decl.type.map (TypeExpr.treeIn env))

def Binding.treeIn (env : Environment) (decl : Binding) (s : SymbolId) : Tree :=
  .binding s (decl.span.or decl.name.span) (decl.type.map (TypeExpr.treeIn env))
    (decl.value.map (Expr.treeIn env))

/-- Parameters in a scope that declares `frame` before them. Each is visible after its own type. -/
def Param.ScopedAll (env : Environment) : Frame → List Param → List SymbolId → List Tree → Prop
  | _, [], ss, ts => ss = [] ∧ ts = []
  | frame, decl :: rest, ss, ts => ∃ s ss' ts', ss = s :: ss' ∧
    ts = decl.treeIn (frame :: env) s :: ts' ∧
    Param.ScopedAll env (frame ++ [⟨decl.signature, s⟩]) rest ss' ts'

mutual

/-- The tree is the module with symbol `s`, and each name in it stands for what is visible there.
All items are visible in the whole body. -/
def Module.Scoped (env : Environment) : Module → SymbolId → Tree → Prop
  | ⟨name, items, span⟩, s, t => ∃ ss ts, t = .module s (span.or name.span) ts ∧
    Item.ScopedAll (.ofSymbols (items.map Item.signature) ss :: env) items ss ts

def Item.ScopedAll (env : Environment) : List Item → List SymbolId → List Tree → Prop
  | [], ss, ts => ss = [] ∧ ts = []
  | decl :: rest, ss, ts => ∃ s ss' t ts', ss = s :: ss' ∧ ts = t :: ts' ∧
    decl.Scoped env s t ∧ Item.ScopedAll env rest ss' ts'

def Item.Scoped (env : Environment) : Item → SymbolId → Tree → Prop
  | .module decl, s, t => decl.Scoped env s t
  | .type decl, s, t => decl.Scoped env s t
  | .function decl, s, t => decl.Scoped env s t

/-- All members are visible in the whole body. -/
def TypeDecl.Scoped (env : Environment) : TypeDecl → SymbolId → Tree → Prop
  | ⟨_, aggregate, name, members⟩, s, t => ∃ ss ts, t = .typeDef s name.span aggregate ts ∧
    Member.ScopedAll (.ofSymbols (members.map Member.signature) ss :: env) members ss ts

def Member.ScopedAll (env : Environment) : List Member → List SymbolId → List Tree → Prop
  | [], ss, ts => ss = [] ∧ ts = []
  | decl :: rest, ss, ts => ∃ s ss' t ts', ss = s :: ss' ∧ ts = t :: ts' ∧
    decl.Scoped env s t ∧ Member.ScopedAll env rest ss' ts'

def Member.Scoped (env : Environment) : Member → SymbolId → Tree → Prop
  | .field decl, s, t => t = decl.treeIn env s
  | .method decl, s, t => decl.Scoped env s t
  | .type decl, s, t => decl.Scoped env s t

/-- One scope declares the parameters, then every item of the body, then the bindings one by one.
The result type sees the parameters only. -/
def Function.Scoped (env : Environment) : Function → SymbolId → Tree → Prop
  | ⟨_, name, params, result, body⟩, s, t => ∃ qs ps ss ts,
    let known : Frame := .ofSymbols (params.map Param.signature) qs
    t = .function s name.span ps (result.map (TypeExpr.treeIn (known :: env))) ts ∧
    Param.ScopedAll env [] params qs ps ∧
    Stmt.ScopedAll env (known ++ .ofSymbols (body.filterMap Stmt.signature?) ss) body ss ts

/-- Statements in a scope that declares `frame` so far. A binding is visible after its own value. -/
def Stmt.ScopedAll (env : Environment) : Frame → List Stmt → List SymbolId → List Tree → Prop
  | _, [], ss, ts => ss = [] ∧ ts = []
  | frame, .item decl :: rest, ss, ts => ∃ s ss' t ts', ss = s :: ss' ∧ ts = t :: ts' ∧
    decl.Scoped (frame :: env) s t ∧ Stmt.ScopedAll env frame rest ss' ts'
  | frame, .binding decl :: rest, ss, ts => ∃ s ts', ts = decl.treeIn (frame :: env) s :: ts' ∧
    Stmt.ScopedAll env (frame ++ [⟨decl.signature, s⟩]) rest ss ts'
  | frame, .eval e :: rest, ss, ts => ∃ ts', ts = e.treeIn (frame :: env) :: ts' ∧
    Stmt.ScopedAll env frame rest ss ts'
  | frame, .ret value :: rest, ss, ts =>
    ∃ ts', ts = .ret (value.map (Expr.treeIn (frame :: env))) :: ts' ∧
      Stmt.ScopedAll env frame rest ss ts'

end

/-- All top-level modules are visible everywhere. -/
def Program.Scoped (source : Source.Program) (ts : List Tree) : Prop :=
  ∃ ss, ss.length = source.modules.length ∧ List.Forall₂
    (fun (decl, s) t => decl.Scoped [.ofSymbols (source.modules.map Module.signature) ss] s t)
    (source.modules.zip ss) ts

end Source

namespace Resolve

open Source

variable {α β : Type} {env env' : Environment} {frame : Frame}

/-- Run where `env` is visible, the step returns something for which `post` holds afterwards. -/
def Yields (env : Environment) (x : Resolve α) (post : α → Environment → Prop) : Prop :=
  ∀ st : Resolution, st.resolver.Sees env →
    ∃ env', (x st).2.resolver.Sees env' ∧ post (x st).1 env'

/-- Run where `env` is visible, the step returns something with `P` and leaves all as it is. -/
def Gives (env : Environment) (x : Resolve α) (P : α → Prop) : Prop :=
  Yields env x fun a env' => env' = env ∧ P a

theorem Yields.pure {post : α → Environment → Prop} {a : α} (h : post a env) :
    Yields env (pure a) post :=
  fun _ hst => ⟨env, hst, h⟩

theorem Yields.bind {x : Resolve α} {f : α → Resolve β} {mid : α → Environment → Prop}
    {post : β → Environment → Prop} (hx : Yields env x mid)
    (hf : ∀ a env', mid a env' → Yields env' (f a) post) : Yields env (x >>= f) post := by
  intro st hst
  obtain ⟨env', hsees, hmid⟩ := hx st hst
  exact hf _ env' hmid _ hsees

theorem Yields.imp {x : Resolve α} {mid post : α → Environment → Prop} (hx : Yields env x mid)
    (h : ∀ a env', mid a env' → post a env') : Yields env x post := by
  intro st hst
  obtain ⟨env', hsees, hmid⟩ := hx st hst
  exact ⟨env', hsees, h _ env' hmid⟩

theorem Gives.bind {x : Resolve α} {f : α → Resolve β} {P : α → Prop}
    {post : β → Environment → Prop} (hx : Gives env x P)
    (hf : ∀ a, P a → Yields env (f a) post) : Yields env (x >>= f) post := by
  refine Yields.bind hx ?_
  rintro a _ ⟨rfl, ha⟩
  exact hf a ha

theorem Gives.then {x : Resolve α} {f : α → Resolve β} {a : α}
    {post : β → Environment → Prop} (hx : Gives env x (· = a)) (hf : Yields env (f a) post) :
    Yields env (x >>= f) post := by
  refine hx.bind ?_
  rintro _ rfl
  exact hf

/-- A scope around a step: what it declares is forgotten afterwards. -/
theorem Yields.inScope {x : Resolve α} {P : α → Prop}
    (hx : Yields ([] :: env) x fun a env' => (∃ frame, env' = frame :: env) ∧ P a) :
    Gives env (inScope x) P := by
  intro st hst
  -- the root's frame is always there, so `env` has a scope to go back to
  obtain ⟨_, hsees, ⟨frame, rfl⟩, hP⟩ := hx { st with resolver := st.resolver.enter.2 } hst.enter
  exact ⟨env, hsees.leave hst.ne_nil, rfl, hP⟩

theorem declare_yields (sig : Signature) (frame : Frame) (env : Environment) :
    Yields (frame :: env) (declare sig) fun s env' => env' = (frame ++ [⟨sig, s⟩]) :: env :=
  fun _ hst => ⟨_, hst.introduce sig, rfl⟩

theorem declareAll_yields (sigs : List Signature) (frame : Frame) (env : Environment) :
    Yields (frame :: env) (declareAll sigs) fun ss env' => ss.length = sigs.length ∧
      env' = (frame ++ .ofSymbols sigs ss) :: env := by
  intro st hst
  obtain ⟨hlen, hsees⟩ := hst.introduceAll sigs
  exact ⟨_, hsees, hlen, rfl⟩

theorem symbol_gives (i : Ident) (env : Environment) :
    Gives env (symbol i) (· = env.symbol? i.name) := by
  intro st hst
  rw [symbol, bind_eq (get_eq st), hst.find?_eq]
  cases env.symbol? i.name with
  | some s => exact ⟨env, hst, rfl, rfl⟩
  | none => exact ⟨env, hst, rfl, rfl⟩

theorem typeSymbol_gives (i : Ident) (env : Environment) :
    Gives env (typeSymbol i) (· = env.type? i.name) := by
  refine (symbol_gives i env).then fun st hst => ?_
  simp only [Environment.symbol?, Environment.type?]
  cases hd : env.declaration? i.name with
  | none => exact ⟨env, hst, rfl, rfl⟩
  | some d =>
    obtain ⟨entry, hentry, hkind⟩ := hst.kind_eq hd
    simp only [Option.map_some, bind_eq (get_eq st), hentry, hkind, Option.filter_some]
    cases d.sig.kind.isType with
    | true => exact ⟨env, hst, rfl, rfl⟩
    | false => exact ⟨env, hst, rfl, rfl⟩

theorem typeExpr_gives (e : TypeExpr) (env : Environment) :
    Gives env (typeExpr e) (· = e.treeIn env) := by
  cases e with
  | builtin type => exact .pure ⟨rfl, rfl⟩
  | named i => exact (typeSymbol_gives i env).then (.pure ⟨rfl, rfl⟩)

mutual

theorem expr_gives (e : Expr) (env : Environment) : Gives env (expr e) (· = e.treeIn env) := by
  cases e with
  | ident i => exact (symbol_gives i env).then (.pure ⟨rfl, rfl⟩)
  | int value => exact .pure ⟨rfl, rfl⟩
  | string value => exact .pure ⟨rfl, rfl⟩
  | bool value => exact .pure ⟨rfl, rfl⟩
  | call callee args =>
    exact (expr_gives callee env).then ((exprs_give args env).then (.pure ⟨rfl, rfl⟩))
  | new type args =>
    exact (typeExpr_gives type env).then ((exprs_give args env).then (.pure ⟨rfl, rfl⟩))

theorem exprs_give (es : List Expr) (env : Environment) :
    Gives env (exprs es) (· = Expr.treesIn env es) := by
  cases es with
  | nil => exact .pure ⟨rfl, rfl⟩
  | cons e rest => exact (expr_gives e env).then ((exprs_give rest env).then (.pure ⟨rfl, rfl⟩))

end

theorem option_gives {γ : Type} {f : γ → Resolve Tree} {g : γ → Tree}
    (hf : ∀ c, Gives env (f c) (· = g c)) (o : Option γ) :
    Gives env (o.mapM f) (· = o.map g) := by
  cases o with
  | none => exact .pure ⟨rfl, rfl⟩
  | some c =>
    intro st hst
    obtain ⟨_, hsees, rfl, hc⟩ := hf c st hst
    exact ⟨_, hsees, rfl, congrArg some hc⟩

theorem field_gives (decl : Field) (s : SymbolId) (env : Environment) :
    Gives env (field decl s) (· = decl.treeIn env s) :=
  (typeExpr_gives decl.type env).then (.pure ⟨rfl, rfl⟩)

theorem param_yields (decl : Param) (frame : Frame) (env : Environment) :
    Yields (frame :: env) (param decl) fun t env' => ∃ s, t = decl.treeIn (frame :: env) s ∧
      env' = (frame ++ [⟨decl.signature, s⟩]) :: env := by
  refine (option_gives (typeExpr_gives · _) decl.type).then ?_
  refine (declare_yields decl.signature frame env).bind ?_
  rintro s _ rfl
  exact .pure ⟨s, rfl, rfl⟩

theorem binding_yields (decl : Binding) (frame : Frame) (env : Environment) :
    Yields (frame :: env) (binding decl) fun t env' => ∃ s, t = decl.treeIn (frame :: env) s ∧
      env' = (frame ++ [⟨decl.signature, s⟩]) :: env := by
  refine (option_gives (typeExpr_gives · _) decl.type).then ?_
  refine (option_gives (expr_gives · _) decl.value).then ?_
  refine (declare_yields decl.signature frame env).bind ?_
  rintro s _ rfl
  exact .pure ⟨s, rfl, rfl⟩

theorem params_yield (decls : List Param) (frame : Frame) (env : Environment) :
    Yields (frame :: env) (decls.mapM param) fun ts env' => ∃ ss,
      Param.ScopedAll env frame decls ss ts ∧
      env' = (frame ++ .ofSymbols (decls.map Param.signature) ss) :: env := by
  induction decls generalizing frame with
  | nil => exact .pure ⟨[], ⟨rfl, rfl⟩, by simp [Frame.ofSymbols]⟩
  | cons decl rest ih =>
    rw [List.mapM_cons]
    refine (param_yields decl frame env).bind ?_
    rintro _ _ ⟨s, rfl, rfl⟩
    refine (ih _).bind ?_
    rintro ts _ ⟨ss, hts, rfl⟩
    exact .pure ⟨s :: ss, ⟨s, ss, ts, rfl, rfl, hts⟩, by simp [Frame.ofSymbols]⟩

/-- A body in a scope of its own, which declares all of its contents first. -/
theorem body_gives {sigs : List Signature} {x : List SymbolId → Resolve (List Tree)}
    {P : Environment → List SymbolId → List Tree → Prop}
    (hx : ∀ ss env, ss.length = sigs.length → Gives env (x ss) (P env ss)) (env : Environment) :
    Gives env (inScope do x (← declareAll sigs)) fun ts =>
      ∃ ss, P (.ofSymbols sigs ss :: env) ss ts := by
  refine .inScope ((declareAll_yields sigs [] env).bind ?_)
  rintro ss _ ⟨hlen, rfl⟩
  refine (hx ss _ hlen).imp ?_
  rintro ts _ ⟨rfl, hts⟩
  exact ⟨⟨_, rfl⟩, ss, hts⟩

mutual

theorem module_gives (decl : Module) (s : SymbolId) (env : Environment) :
    Gives env (module decl s) (decl.Scoped env s) := by
  cases decl with
  | mk name contents span =>
    have hbody := body_gives (fun ss env hlen => items_give contents ss env hlen) env
    refine hbody.bind ?_
    rintro ts ⟨ss, hts⟩
    exact .pure ⟨rfl, ss, ts, rfl, hts⟩

theorem items_give (decls : List Item) (ss : List SymbolId) (env : Environment)
    (hlen : ss.length = (decls.map Item.signature).length) :
    Gives env (items decls ss) (Item.ScopedAll env decls ss) := by
  cases decls with
  | nil =>
    obtain rfl := List.eq_nil_of_length_eq_zero hlen
    exact .pure ⟨rfl, rfl, rfl⟩
  | cons decl rest =>
    cases ss with
    | nil => simp at hlen
    | cons s ss =>
      refine (item_gives decl s env).bind fun t ht => ?_
      refine (items_give rest ss env (by simpa using hlen)).bind fun ts hts => ?_
      exact .pure ⟨rfl, s, ss, t, ts, rfl, rfl, ht, hts⟩

theorem item_gives (decl : Item) (s : SymbolId) (env : Environment) :
    Gives env (item decl s) (decl.Scoped env s) := by
  cases decl with
  | module decl => exact module_gives decl s env
  | type decl => exact typeDecl_gives decl s env
  | function decl => exact function_gives decl s env

theorem typeDecl_gives (decl : TypeDecl) (s : SymbolId) (env : Environment) :
    Gives env (typeDecl decl s) (decl.Scoped env s) := by
  cases decl with
  | mk visibility aggregate name contents =>
    have hbody := body_gives (fun ss env hlen => members_give contents ss env hlen) env
    refine hbody.bind ?_
    rintro ts ⟨ss, hts⟩
    exact .pure ⟨rfl, ss, ts, rfl, hts⟩

theorem members_give (decls : List Member) (ss : List SymbolId) (env : Environment)
    (hlen : ss.length = (decls.map Member.signature).length) :
    Gives env (members decls ss) (Member.ScopedAll env decls ss) := by
  cases decls with
  | nil =>
    obtain rfl := List.eq_nil_of_length_eq_zero hlen
    exact .pure ⟨rfl, rfl, rfl⟩
  | cons decl rest =>
    cases ss with
    | nil => simp at hlen
    | cons s ss =>
      refine (member_gives decl s env).bind fun t ht => ?_
      refine (members_give rest ss env (by simpa using hlen)).bind fun ts hts => ?_
      exact .pure ⟨rfl, s, ss, t, ts, rfl, rfl, ht, hts⟩

theorem member_gives (decl : Member) (s : SymbolId) (env : Environment) :
    Gives env (member decl s) (decl.Scoped env s) := by
  cases decl with
  | field decl => exact field_gives decl s env
  | method decl => exact function_gives decl s env
  | type decl => exact typeDecl_gives decl s env

theorem function_gives (decl : Function) (s : SymbolId) (env : Environment) :
    Gives env (function decl s) (decl.Scoped env s) := by
  cases decl with
  | mk visibility name params result contents =>
    refine .inScope ?_
    refine (params_yield params [] env).bind ?_
    rintro ps _ ⟨qs, hps, rfl⟩
    refine (option_gives (typeExpr_gives · _) result).then ?_
    refine (declareAll_yields _ _ env).bind ?_
    rintro ss _ ⟨hlen, rfl⟩
    refine (stmts_yield contents ss _ env hlen).bind ?_
    rintro ts _ ⟨hframe, hts⟩
    exact .pure ⟨hframe, qs, ps, ss, ts, rfl, hps, hts⟩

/-- The scope stays open, with the bindings added to what it declares. -/
theorem stmts_yield (body : List Stmt) (ss : List SymbolId) (frame : Frame) (env : Environment)
    (hlen : ss.length = (body.filterMap Stmt.signature?).length) :
    Yields (frame :: env) (stmts body ss) fun ts env' =>
      (∃ frame', env' = frame' :: env) ∧ Stmt.ScopedAll env frame body ss ts := by
  cases body with
  | nil =>
    obtain rfl := List.eq_nil_of_length_eq_zero hlen
    exact .pure ⟨⟨frame, rfl⟩, rfl, rfl⟩
  | cons stmt rest =>
    cases stmt with
    | item decl =>
      cases ss with
      | nil => simp [Stmt.signature?] at hlen
      | cons s ss =>
        -- the item sees the bindings before it, and declares nothing that is not known yet
        refine (item_gives decl s _).bind fun t ht => ?_
        refine (stmts_yield rest ss frame env (by simpa [Stmt.signature?] using hlen)).bind ?_
        rintro ts _ ⟨hframe, hts⟩
        exact .pure ⟨hframe, s, ss, t, ts, rfl, rfl, ht, hts⟩
    | binding decl =>
      refine (binding_yields decl frame env).bind ?_
      rintro _ _ ⟨s, rfl, rfl⟩
      refine (stmts_yield rest ss _ env hlen).bind ?_
      rintro ts _ ⟨hframe, hts⟩
      exact .pure ⟨hframe, s, ts, rfl, hts⟩
    | eval e =>
      refine (expr_gives e _).then ?_
      refine (stmts_yield rest ss frame env hlen).bind ?_
      rintro ts _ ⟨hframe, hts⟩
      exact .pure ⟨hframe, ts, rfl, hts⟩
    | ret value =>
      refine (option_gives (expr_gives · _) value).then ?_
      refine (stmts_yield rest ss frame env hlen).bind ?_
      rintro ts _ ⟨hframe, hts⟩
      exact .pure ⟨hframe, ts, rfl, hts⟩

end

theorem modules_give (decls : List (Module × SymbolId)) (env : Environment) :
    Gives env (decls.mapM fun (decl, s) => module decl s)
      (List.Forall₂ (fun (decl, s) t => decl.Scoped env s t) decls) := by
  induction decls with
  | nil => exact .pure ⟨rfl, .nil⟩
  | cons decl rest ih =>
    rw [List.mapM_cons]
    refine (module_gives decl.1 decl.2 env).bind fun t ht => ?_
    refine ih.bind fun ts hts => ?_
    exact .pure ⟨rfl, .cons ht hts⟩

theorem program_yields (source : Source.Program) :
    Yields [[]] (program source) fun ts _ => source.Scoped ts := by
  refine (declareAll_yields _ [] []).bind ?_
  rintro ss _ ⟨hlen, rfl⟩
  refine (modules_give _ _).imp ?_
  rintro ts _ ⟨_, hts⟩
  exact ⟨ss, by simpa using hlen, hts⟩

end Resolve

namespace Source.Program

/-- Name resolution is lexical scoping. -/
theorem resolve_scoped (source : Source.Program) : source.Scoped source.resolve.modules := by
  obtain ⟨_, _, hts⟩ := Resolve.program_yields source {} Resolver.sees_init
  exact hts

/-- In a lowered program each name carries the symbol that lexical scoping gives it. The nodes store
trees of the shape of the source, and every declaration in them has a symbol of its own. -/
theorem lower_scoped (source : Source.Program) :
    ∃ l ts ids, source.lower = .ok l ∧ l.program.Stores ts l.program.roots ids ∧
      ids.Perm l.program.nodes.ids ∧
      List.Forall₂ (Module.Matches l.program.symbols) source.modules ts ∧
      (Tree.symbolsAll ts).Nodup ∧ source.Scoped ts := by
  obtain ⟨p, ids, hlower, hp, hmatch⟩ := source.lower_holds
  refine ⟨_, _, ids, hlower, hp.stores, hp.perm, hmatch, ?_, source.resolve_scoped⟩
  rw [List.nodup_iff_count_le_one]
  intro s
  rw [source.resolve_matches.2 s]
  split <;> omega

end Source.Program

end Hoist
