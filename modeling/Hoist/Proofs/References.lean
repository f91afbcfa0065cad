import Hoist.Proofs.Survey

/-! The names in a lowered program, in the order in which the source uses them. -/
namespace Hoist

/-- A use of a name as a node stores it. -/
structure Reference where
  name : String
  asType : Bool
  symbol : Option SymbolId
  deriving DecidableEq, Repr

def NodeKind.reference? : NodeKind → Option Reference
  | .typeRef name s => some ⟨name, true, s⟩
  | .ident name s => some ⟨name, false, s⟩
  | _ => none

theorem NodeKind.reference?_blank (k : NodeKind) : k.blank.reference? = k.reference? := by
  cases k <;> rfl

def Program.reference? (p : Program) (n : NodeId) : Option Reference :=
  (p.kind? n).bind NodeKind.reference?

/-- The reference has the symbol that the use stands for, or none if the use is at fault. -/
structure Use.Answered (T : Symbols) (u : Use) (r : Reference) : Prop where
  name : r.name = u.name
  asType : r.asType = u.asType
  isNone : r.symbol.isNone = u.fault?.isSome
  has : ∀ s, r.symbol = some s → ∃ sig, u.found = some sig ∧ sig.name.name = u.name ∧ T.Has s sig

namespace Frame

variable {T : Symbols} {frame more : Frame}

/-- Every symbol of the frame is in the table, as it was declared. -/
def HasIn (frame : Frame) (T : Symbols) : Prop := ∀ d ∈ frame, T.Has d.symbol d.sig

theorem HasIn.append (h : frame.HasIn T) (h' : more.HasIn T) : HasIn (frame ++ more) T := by
  intro d hd
  rcases List.mem_append.1 hd with hd | hd
  · exact h d hd
  · exact h' d hd

theorem hasIn_ofSymbols {sigs : List Signature} {ss : List SymbolId}
    (h : List.Forall₂ T.Has ss sigs) : HasIn (.ofSymbols sigs ss) T := by
  induction h with
  | nil => simp [HasIn, ofSymbols]
  | cons hs _ ih =>
    intro d hd
    rcases List.mem_cons.1 hd with rfl | hd
    · exact hs
    · exact ih d hd

theorem HasIn.concat {sig : Signature} {s : SymbolId} (h : frame.HasIn T) (hs : T.Has s sig) :
    HasIn (frame ++ [⟨sig, s⟩]) T :=
  h.append (hasIn_ofSymbols (.cons hs .nil))

end Frame

namespace Environment

variable {env : Environment} {T : Symbols} {name : String} {d : Declaration}

def HasIn (env : Environment) (T : Symbols) : Prop := ∀ frame ∈ env, Frame.HasIn frame T

theorem HasIn.cons {frame : Frame} (h : env.HasIn T) (hframe : frame.HasIn T) :
    HasIn (frame :: env) T := by
  intro f hf
  rcases List.mem_cons.1 hf with rfl | hf
  · exact hframe
  · exact h f hf

theorem HasIn.declaration (h : env.HasIn T) (hd : env.declaration? name = some d) :
    d.sig.name.name = name ∧ T.Has d.symbol d.sig := by
  obtain ⟨frame, hframe, hfind⟩ := List.exists_of_findSome?_eq_some hd
  refine ⟨?_, h frame hframe d (List.mem_of_find?_eq_some hfind)⟩
  simpa using List.find?_some hfind

theorem HasIn.answered_symbol (h : env.HasIn T) (name : String) :
    Use.Answered T ⟨name, false, env.surroundings.declared? name⟩
      ⟨name, false, env.symbol? name⟩ := by
  rw [declared?_surroundings, symbol?]
  cases hd : env.declaration? name with
  | none => exact ⟨rfl, rfl, rfl, by simp⟩
  | some d =>
    obtain ⟨hname, hhas⟩ := h.declaration hd
    refine ⟨rfl, rfl, rfl, ?_⟩
    rintro s ⟨⟩
    exact ⟨d.sig, rfl, hname, hhas⟩

theorem HasIn.answered_type (h : env.HasIn T) (name : String) :
    Use.Answered T ⟨name, true, env.surroundings.declared? name⟩
      ⟨name, true, env.type? name⟩ := by
  rw [declared?_surroundings, type?]
  cases hd : env.declaration? name with
  | none => exact ⟨rfl, rfl, rfl, by simp⟩
  | some d =>
    obtain ⟨hname, hhas⟩ := h.declaration hd
    cases hty : d.sig.kind.isType with
    | false => exact ⟨rfl, rfl, by simp [Use.fault?, hty], by simp [hty]⟩
    | true =>
      refine ⟨rfl, rfl, by simp [Use.fault?, hty], ?_⟩
      intro s hs
      obtain rfl : d.symbol = s := by simpa [hty] using hs
      exact ⟨d.sig, rfl, hname, hhas⟩

end Environment

namespace Program

variable {p : Program} {t : Tree} {ts us : List Tree} {uses more own inner : List Use}

/-- Wherever the program stores these trees, its references there answer these uses, in order. -/
def Refers (p : Program) (ts : List Tree) (uses : List Use) : Prop :=
  ∀ ns ids, p.Stores ts ns ids →
    List.Forall₂ (Use.Answered p.symbols) uses (ids.filterMap p.reference?)

theorem Refers.nil (p : Program) : p.Refers [] [] := by
  intro ns ids h
  cases h
  exact .nil

theorem Refers.append (h : p.Refers ts uses) (h' : p.Refers us more) :
    p.Refers (ts ++ us) (uses ++ more) := by
  intro ns ids hs
  obtain ⟨ns₁, ns₂, ids₁, ids₂, rfl, rfl, hts, hus⟩ := hs.of_append
  rw [List.filterMap_append]
  exact List.rel_append (h _ _ hts) (h' _ _ hus)

/-- A tree refers to its own name, if it is one, and then to those below it. -/
theorem Refers.tree {all : List Use}
    (hown : List.Forall₂ (Use.Answered p.symbols) own t.blank.reference?.toList)
    (ho : p.Refers t.operands uses) (hb : p.Refers t.contents inner)
    (hall : own ++ uses ++ inner = all) : p.Refers [t] all := by
  subst hall
  intro ns ids h
  cases h with
  | @cons _ n k ops inside rest _ ns hn hk hops hinside hrest =>
    cases hrest
    have hself : p.reference? n = t.blank.reference? := by
      rw [reference?, kind?_eq_content?, hn, ← hk, NodeKind.reference?_blank]
      rfl
    have hids : (n :: ops ++ inside ++ []).filterMap p.reference? =
        t.blank.reference?.toList ++ ops.filterMap p.reference? ++
          inside.filterMap p.reference? := by
      rw [List.append_nil, List.filterMap_append, List.filterMap_cons, hself]
      cases t.blank.reference? <;> rfl
    rw [hids]
    exact List.rel_append (List.rel_append hown (ho _ _ hops)) (hb _ _ hinside)

section Source

open Source

variable {env : Environment}

theorem refers_option {γ : Type} {f : γ → Tree} {g : γ → List Use} (hf : ∀ c, p.Refers [f c] (g c))
    (o : Option γ) : p.Refers (o.map f).toList (o.toList.flatMap g) := by
  cases o with
  | none => exact .nil p
  | some c =>
    rw [Option.toList_some, List.flatMap_singleton]
    exact hf c

theorem refers_typeExpr (e : TypeExpr) (henv : env.HasIn p.symbols) :
    p.Refers [e.treeIn env] (e.uses env.surroundings) := by
  cases e with
  | builtin type => exact .tree .nil (.nil p) (.nil p) rfl
  | named i => exact .tree (.cons (henv.answered_type i.name) .nil) (.nil p) (.nil p) rfl

mutual

theorem refers_expr (e : Expr) (henv : env.HasIn p.symbols) :
    p.Refers [e.treeIn env] (e.uses env.surroundings) := by
  cases e with
  | ident i => exact .tree (.cons (henv.answered_symbol i.name) .nil) (.nil p) (.nil p) rfl
  | int value => exact .tree .nil (.nil p) (.nil p) rfl
  | string value => exact .tree .nil (.nil p) (.nil p) rfl
  | bool value => exact .tree .nil (.nil p) (.nil p) rfl
  | call callee args =>
    have hoperands := (refers_expr callee henv).append (refers_exprs args henv)
    exact .tree .nil hoperands (.nil p) (List.append_nil _)
  | new type args =>
    have hoperands := (refers_typeExpr type henv).append (refers_exprs args henv)
    exact .tree .nil hoperands (.nil p) (List.append_nil _)

theorem refers_exprs (es : List Expr) (henv : env.HasIn p.symbols) :
    p.Refers (Expr.treesIn env es) (Expr.usesAll env.surroundings es) := by
  cases es with
  | nil => exact .nil p
  | cons e rest => exact (refers_expr e henv).append (refers_exprs rest henv)

end

theorem refers_params {frame : Frame} {decls : List Param} {ss : List SymbolId}
    (hs : Param.ScopedAll env frame decls ss ts)
    (hm : List.Forall₂ (Param.Matches p.symbols) decls ts)
    (hframe : frame.HasIn p.symbols) (henv : env.HasIn p.symbols) :
    p.Refers ts (Param.usesAll env.surroundings (frame.map Declaration.sig) decls) := by
  induction decls generalizing frame ss ts with
  | nil =>
    obtain ⟨-, rfl⟩ := hs
    exact .nil p
  | cons decl rest ih =>
    obtain ⟨s, ss', ts', rfl, rfl, hrest⟩ := hs
    cases hm with
    | cons hdecl hm =>
      obtain ⟨_, _, heq, hhas, -⟩ := hdecl
      cases heq
      have hothers := ih hrest hm (hframe.concat hhas)
      rw [List.map_append] at hothers
      have htype := refers_option (refers_typeExpr · (henv.cons hframe)) decl.type
      have hparam : p.Refers [decl.treeIn (frame :: env) s]
          (decl.uses (Environment.surroundings (frame :: env))) :=
        .tree .nil htype (.nil p) (List.append_nil _)
      exact hparam.append hothers

mutual

theorem refers_module (decl : Module) (env : Environment) (s : SymbolId) (t : Tree)
    (hs : decl.Scoped env s t) (hm : decl.Matches p.symbols t) (henv : env.HasIn p.symbols) :
    p.Refers [t] (decl.survey env.surroundings).uses := by
  cases decl with
  | mk name items span =>
    obtain ⟨ss, ts, rfl, hts⟩ := hs
    obtain ⟨_, _, heq, -, hall⟩ := hm
    cases heq
    have hhas := hts.has hall
    have hbody := refers_items items _ ss ts hts hall (henv.cons (Frame.hasIn_ofSymbols hhas))
    rw [Environment.surroundings_cons, Frame.map_sig_ofSymbols hhas.length_eq] at hbody
    exact .tree .nil (.nil p) hbody rfl

theorem refers_items (decls : List Item) (env : Environment) (ss : List SymbolId) (ts : List Tree)
    (hs : Item.ScopedAll env decls ss ts) (hm : Item.MatchAll p.symbols decls ts)
    (henv : env.HasIn p.symbols) : p.Refers ts (Item.surveyAll env.surroundings decls).uses := by
  cases decls with
  | nil =>
    obtain ⟨-, rfl⟩ := hs
    exact .nil p
  | cons decl rest =>
    obtain ⟨s, ss', t, ts', -, rfl, ht, hrest⟩ := hs
    obtain ⟨_, _, heq, hmt, hmrest⟩ := hm
    cases heq
    exact (refers_item decl env s t ht hmt henv).append
      (refers_items rest env ss' ts' hrest hmrest henv)

theorem refers_item (decl : Item) (env : Environment) (s : SymbolId) (t : Tree)
    (hs : decl.Scoped env s t) (hm : decl.Matches p.symbols t) (henv : env.HasIn p.symbols) :
    p.Refers [t] (decl.survey env.surroundings).uses := by
  cases decl with
  | module decl => exact refers_module decl env s t hs hm henv
  | type decl => exact refers_typeDecl decl env s t hs hm henv
  | function decl => exact refers_function decl env s t hs hm henv

theorem refers_typeDecl (decl : TypeDecl) (env : Environment) (s : SymbolId) (t : Tree)
    (hs : decl.Scoped env s t) (hm : decl.Matches p.symbols t) (henv : env.HasIn p.symbols) :
    p.Refers [t] (decl.survey env.surroundings).uses := by
  cases decl with
  | mk visibility aggregate name members =>
    obtain ⟨ss, ts, rfl, hts⟩ := hs
    obtain ⟨_, _, heq, -, hall⟩ := hm
    cases heq
    have hhas := hts.has hall
    have hbody := refers_members members _ ss ts hts hall (henv.cons (Frame.hasIn_ofSymbols hhas))
    rw [Environment.surroundings_cons, Frame.map_sig_ofSymbols hhas.length_eq] at hbody
    exact .tree .nil (.nil p) hbody rfl

theorem refers_members (decls : List Member) (env : Environment) (ss : List SymbolId)
    (ts : List Tree) (hs : Member.ScopedAll env decls ss ts)
    (hm : Member.MatchAll p.symbols decls ts) (henv : env.HasIn p.symbols) :
    p.Refers ts (Member.surveyAll env.surroundings decls).uses := by
  cases decls with
  | nil =>
    obtain ⟨-, rfl⟩ := hs
    exact .nil p
  | cons decl rest =>
    obtain ⟨s, ss', t, ts', -, rfl, ht, hrest⟩ := hs
    obtain ⟨_, _, heq, hmt, hmrest⟩ := hm
    cases heq
    exact (refers_member decl env s t ht hmt henv).append
      (refers_members rest env ss' ts' hrest hmrest henv)

theorem refers_member (decl : Member) (env : Environment) (s : SymbolId) (t : Tree)
    (hs : decl.Scoped env s t) (hm : decl.Matches p.symbols t) (henv : env.HasIn p.symbols) :
    p.Refers [t] (decl.survey env.surroundings).uses := by
  cases decl with
  | field decl =>
    obtain rfl := hs
    exact .tree .nil (refers_typeExpr decl.type henv) (.nil p) (List.append_nil _)
  | method decl => exact refers_function decl env s t hs hm henv
  | type decl => exact refers_typeDecl decl env s t hs hm henv

theorem refers_function (decl : Function) (env : Environment) (s : SymbolId) (t : Tree)
    (hs : decl.Scoped env s t) (hm : decl.Matches p.symbols t) (henv : env.HasIn p.symbols) :
    p.Refers [t] (decl.survey env.surroundings).uses := by
  cases decl with
  | mk visibility name params result body =>
    obtain ⟨qs, ps, ss, ts, rfl, hps, hts⟩ := hs
    obtain ⟨_, _, _, _, heq, -, hmps, -, hall⟩ := hm
    cases heq
    have hparams := hps.has hmps
    have hlocals := hts.has hall
    have hknown := Frame.hasIn_ofSymbols hparams
    have hoperands := (refers_params hps hmps (by simp [Frame.HasIn]) henv).append
      (refers_option (refers_typeExpr · (henv.cons hknown)) result)
    have hbody := refers_stmts body _ env ss ts hts hall
      (hknown.append (Frame.hasIn_ofSymbols hlocals)) henv
    rw [Environment.surroundings_cons, Frame.map_sig_ofSymbols hparams.length_eq] at hoperands
    rw [List.map_append, Frame.map_sig_ofSymbols hparams.length_eq,
      Frame.map_sig_ofSymbols hlocals.length_eq] at hbody
    exact .tree .nil hoperands hbody rfl

/-- The scope's declarations so far are in the table, and so is each binding that comes to them. -/
theorem refers_stmts (body : List Stmt) (frame : Frame) (env : Environment) (ss : List SymbolId)
    (ts : List Tree) (hs : Stmt.ScopedAll env frame body ss ts)
    (hm : Stmt.MatchAll p.symbols body ts) (hframe : frame.HasIn p.symbols)
    (henv : env.HasIn p.symbols) :
    p.Refers ts (Stmt.surveyAll env.surroundings (frame.map Declaration.sig) body).uses := by
  cases body with
  | nil =>
    obtain ⟨-, rfl⟩ := hs
    exact .nil p
  | cons stmt rest =>
    cases stmt with
    | item decl =>
      obtain ⟨s, ss', t, ts', -, rfl, ht, hrest⟩ := hs
      obtain ⟨_, _, heq, hmt, hmrest⟩ := hm
      cases heq
      exact (refers_item decl _ s t ht hmt (henv.cons hframe)).append
        (refers_stmts rest frame env ss' ts' hrest hmrest hframe henv)
    | binding decl =>
      obtain ⟨s, ts', rfl, hrest⟩ := hs
      obtain ⟨_, _, heq, ⟨_, _, _, hdecl, hhas, -⟩, hmrest⟩ := hm
      cases heq
      cases hdecl
      have hothers := refers_stmts rest _ env ss ts' hrest hmrest (hframe.concat hhas) henv
      rw [List.map_append] at hothers
      have hoperands := (refers_option (refers_typeExpr · (henv.cons hframe)) decl.type).append
        (refers_option (refers_expr · (henv.cons hframe)) decl.value)
      have hbinding : p.Refers [decl.treeIn (frame :: env) s]
          (decl.uses (Environment.surroundings (frame :: env))) :=
        .tree .nil hoperands (.nil p) (List.append_nil _)
      exact hbinding.append hothers
    | eval e =>
      obtain ⟨ts', rfl, hrest⟩ := hs
      obtain ⟨_, _, heq, -, hmrest⟩ := hm
      cases heq
      exact (refers_expr e (henv.cons hframe)).append
        (refers_stmts rest frame env ss ts' hrest hmrest hframe henv)
    | ret value =>
      obtain ⟨ts', rfl, hrest⟩ := hs
      obtain ⟨_, _, heq, -, hmrest⟩ := hm
      cases heq
      have hvalue := refers_option (refers_expr · (henv.cons hframe)) value
      have hret : p.Refers [.ret (value.map (Expr.treeIn (frame :: env)))]
          (value.toList.flatMap (Expr.uses (Environment.surroundings (frame :: env)))) :=
        .tree .nil hvalue (.nil p) (List.append_nil _)
      exact hret.append (refers_stmts rest frame env ss ts' hrest hmrest hframe henv)

end

end Source

end Program

/-- The references of a lowered program answer the uses of names in its source. -/
theorem Source.Program.lower_refers (source : Source.Program) :
    ∃ p ids, source.lower = .ok ⟨p, source.resolve.diagnostics⟩ ∧
      p.Holds source.resolve.modules ids ∧
      List.Forall₂ (Use.Answered p.symbols) source.survey.uses (ids.filterMap p.reference?) := by
  obtain ⟨p, ids, hlower, hp, hmatch⟩ := source.lower_holds
  obtain ⟨ss, hscoped⟩ := source.resolve_scoped.items
  have hall := Item.matchAll_modules hmatch
  have hhas := hscoped.has hall
  have henv : Environment.HasIn [.ofSymbols (source.items.map Item.signature) ss] p.symbols :=
    Environment.HasIn.cons (by simp [Environment.HasIn]) (Frame.hasIn_ofSymbols hhas)
  have hrefers := Hoist.Program.refers_items source.items _ ss _ hscoped hall henv _ _ hp.stores
  rw [Environment.surroundings_cons, Frame.map_sig_ofSymbols hhas.length_eq] at hrefers
  exact ⟨p, ids, hlower, hp, hrefers⟩

end Hoist
