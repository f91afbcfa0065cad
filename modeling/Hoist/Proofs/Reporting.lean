import Hoist.Proofs.Survey

/-! Resolution reports as many faults of each code as a survey of the source shows. -/
namespace Hoist

namespace Resolver

variable {r : Resolver} {frame : Frame} {env : Environment}

/-- An earlier declaration is pointed at if it has a place. -/
theorem Sees.countP_previous (h : r.Sees (frame :: env)) {d : Declaration} (hd : d ∈ frame)
    (code : DiagnosticCode) : (r.previous d.symbol).countP (·.code = code) =
      if code = .duplicateSymbol ∧ d.sig.name.span.isSome then 1 else 0 := by
  obtain ⟨entry, hentry, hbare⟩ := Option.map_eq_some_iff.1 (h.has frame (by simp) d hd)
  have hspan : entry.span = d.sig.name.span := congrArg Symbol.span hbare
  rw [previous, hentry, ← hspan]
  obtain ⟨_, _, _, span, _⟩ := entry
  cases span <;> cases code <;> rfl

theorem Sees.countP_introduce (h : r.Sees (frame :: env)) (sig : Signature)
    (code : DiagnosticCode) : (r.introduce sig).1.2.countP (·.code = code) =
      repeated (frame.map Declaration.sig) [sig] code := by
  have hbound := h.bound?_eq sig.name.name
  have hfind : (frame.map Declaration.sig).find? (fun first => first.name.name = sig.name.name) =
      (frame.declaration? sig.name.name).map Declaration.sig := List.find?_map ..
  simp only [Resolver.introduce, Resolver.declare, hbound, repeated, repeats, hfind]
  cases hd : frame.declaration? sig.name.name with
  | none => simp
  | some d =>
    have hprevious := h.countP_previous (List.mem_of_find?_eq_some hd) code
    simp only [Option.map_some, List.countP_cons, hprevious, Diagnostic.duplicate]
    cases code <;> cases d.sig.name.span <;> rfl

theorem Sees.countP_introduceAll (sigs : List Signature) (h : r.Sees (frame :: env))
    (code : DiagnosticCode) : (r.introduceAll sigs).1.2.countP (·.code = code) =
      repeated (frame.map Declaration.sig) sigs code := by
  induction sigs generalizing r frame with
  | nil => simp [Resolver.introduceAll]
  | cons sig sigs ih =>
    have hfirst := h.countP_introduce sig code
    have hrest := ih (h.introduce sig)
    rw [List.map_append] at hrest
    calc (r.introduceAll (sig :: sigs)).1.2.countP (·.code = code)
        = (r.introduce sig).1.2.countP (·.code = code) +
          ((r.introduce sig).2.introduceAll sigs).1.2.countP (·.code = code) :=
            List.countP_append ..
      _ = repeated (frame.map Declaration.sig) [sig] code +
          repeated (frame.map Declaration.sig ++ [sig]) sigs code := by rw [hfirst, hrest]; rfl
      _ = repeated (frame.map Declaration.sig) (sig :: sigs) code := (repeated_cons ..).symm

end Resolver

namespace Resolve

open Source

variable {α β : Type} {env : Environment} {n m : DiagnosticCode → Nat}

/-- Run where `env` is visible, the step adds so many diagnostics of each code. -/
def Reports (env : Environment) (x : Resolve α) (n : DiagnosticCode → Nat) : Prop :=
  ∀ st : Resolution, st.resolver.Sees env → ∀ code,
    (x st).2.diagnostics.countP (·.code = code) =
      st.diagnostics.countP (·.code = code) + n code

theorem Reports.pure (a : α) : Reports env (pure a) fun _ => 0 :=
  fun _ _ _ => rfl

theorem Reports.bind {x : Resolve α} {f : α → Resolve β} {mid : α → Environment → Prop}
    (hx : Reports env x n) (hmid : Yields env x mid)
    (hf : ∀ a env', mid a env' → Reports env' (f a) m) :
    Reports env (x >>= f) fun code => n code + m code := by
  intro st hst code
  obtain ⟨env', hsees, ha⟩ := hmid st hst
  have hfirst := hx st hst code
  have hsecond := hf _ env' ha _ hsees code
  calc ((x >>= f) st).2.diagnostics.countP (·.code = code)
      = (x st).2.diagnostics.countP (·.code = code) + m code := hsecond
    _ = st.diagnostics.countP (·.code = code) + n code + m code := by rw [hfirst]
    _ = st.diagnostics.countP (·.code = code) + (n code + m code) := Nat.add_assoc ..

/-- The step leaves the environment as it is. -/
theorem Reports.then {x : Resolve α} {f : α → Resolve β} {P : α → Prop} (hx : Reports env x n)
    (hP : Gives env x P) (hf : ∀ a, P a → Reports env (f a) m) :
    Reports env (x >>= f) fun code => n code + m code := by
  refine hx.bind hP ?_
  rintro a _ ⟨rfl, ha⟩
  exact hf a ha

theorem Reports.congr {x : Resolve α} (hx : Reports env x n) (h : ∀ code, n code = m code) :
    Reports env x m := by
  intro st hst code
  rw [← h code]
  exact hx st hst code

theorem Reports.inScope {x : Resolve α} (hx : Reports ([] :: env) x n) :
    Reports env (inScope x) n :=
  fun st hst => hx { st with resolver := st.resolver.enter.2 } hst.enter

theorem report_reports (found : List Diagnostic) (env : Environment) :
    Reports env (report found) fun code => found.countP (·.code = code) :=
  fun _ _ _ => List.countP_append ..

theorem symbol_reports (i : Ident) (env : Environment) :
    Reports env (symbol i) (faults [⟨i.name, false, env.surroundings.declared? i.name⟩]) := by
  intro st hst
  rw [symbol, bind_eq (get_eq st), hst.find?_eq, Environment.symbol?,
    Environment.declared?_surroundings]
  cases env.declaration? i.name with
  | none =>
    intro code
    refine (report_reports [.unresolved i] env st hst code).trans ?_
    cases code <;> rfl
  | some d => exact fun _ => rfl

/-- The search for a symbol settles whether there is one, and the look at its kind the rest. -/
theorem typeSymbol_reports (i : Ident) (env : Environment) :
    Reports env (typeSymbol i) (faults [⟨i.name, true, env.surroundings.declared? i.name⟩]) := by
  have hsymbol := symbol_reports i env
  rw [Environment.declared?_surroundings] at hsymbol ⊢
  cases hd : env.declaration? i.name with
  | none =>
    rw [hd] at hsymbol
    refine (hsymbol.then (symbol_gives i env) (m := fun _ => 0) ?_).congr ?_
    · rintro _ rfl
      rw [Environment.symbol?, hd]
      exact .pure none
    · intro code
      cases code <;> rfl
  | some d =>
    rw [hd] at hsymbol
    refine (hsymbol.then (symbol_gives i env)
      (m := faults [⟨i.name, true, some d.sig⟩]) ?_).congr ?_
    · rintro _ rfl st hst
      obtain ⟨entry, hentry, hkind⟩ := hst.kind_eq hd
      simp only [Environment.symbol?, hd, Option.map_some, bind_eq (get_eq st), hentry, hkind]
      cases hty : d.sig.kind.isType with
      | true =>
        intro code
        cases code <;> simp [faults, Use.fault?, hty, pure_eq]
      | false =>
        intro code
        refine (report_reports [.notAType i d.sig.kind] env st hst code).trans ?_
        cases code <;> simp [faults, Use.fault?, hty, Diagnostic.notAType]
    · intro code
      simp [faults, Use.fault?]

theorem typeExpr_reports (e : TypeExpr) (env : Environment) :
    Reports env (typeExpr e) (faults (e.uses env.surroundings)) := by
  cases e with
  | builtin type => exact .pure _
  | named i => exact (typeSymbol_reports i env).then (typeSymbol_gives i env) fun _ _ => .pure _

mutual

theorem expr_reports (e : Expr) (env : Environment) :
    Reports env (expr e) (faults (e.uses env.surroundings)) := by
  cases e with
  | ident i => exact (symbol_reports i env).then (symbol_gives i env) fun _ _ => .pure _
  | int value => exact .pure _
  | string value => exact .pure _
  | bool value => exact .pure _
  | call callee args =>
    refine ((expr_reports callee env).then (expr_gives callee env) fun _ _ =>
      (exprs_report args env).then (exprs_give args env) fun _ _ => .pure _).congr ?_
    intro code
    exact (faults_append ..).symm
  | new type args =>
    refine ((typeExpr_reports type env).then (typeExpr_gives type env) fun _ _ =>
      (exprs_report args env).then (exprs_give args env) fun _ _ => .pure _).congr ?_
    intro code
    exact (faults_append ..).symm

theorem exprs_report (es : List Expr) (env : Environment) :
    Reports env (exprs es) (faults (Expr.usesAll env.surroundings es)) := by
  cases es with
  | nil => exact .pure _
  | cons e rest =>
    refine ((expr_reports e env).then (expr_gives e env) fun _ _ =>
      (exprs_report rest env).then (exprs_give rest env) fun _ _ => .pure _).congr ?_
    intro code
    exact (faults_append ..).symm

end

theorem option_reports {γ : Type} {f : γ → Resolve Tree} {uses : γ → List Use}
    (hf : ∀ c, Reports env (f c) (faults (uses c))) (o : Option γ) :
    Reports env (o.mapM f) (faults (o.toList.flatMap uses)) := by
  cases o with
  | none => exact .pure _
  | some c =>
    intro st hst
    rw [Option.toList_some, List.flatMap_singleton]
    exact hf c st hst

theorem declare_reports (sig : Signature) (frame : Frame) (env : Environment) :
    Reports (frame :: env) (declare sig) (repeated (frame.map Declaration.sig) [sig]) := by
  intro st hst code
  rw [← hst.countP_introduce sig code]
  exact List.countP_append ..

theorem declareAll_reports (sigs : List Signature) (frame : Frame) (env : Environment) :
    Reports (frame :: env) (declareAll sigs) (repeated (frame.map Declaration.sig) sigs) := by
  intro st hst code
  rw [← hst.countP_introduceAll sigs code]
  exact List.countP_append ..

theorem param_reports (decl : Param) (frame : Frame) (env : Environment) :
    Reports (frame :: env) (param decl) fun code =>
      faults (decl.uses (frame.map Declaration.sig :: env.surroundings)) code +
        repeated (frame.map Declaration.sig) [decl.signature] code := by
  refine (option_reports (typeExpr_reports · _) decl.type).then
    (option_gives (typeExpr_gives · _) decl.type) fun _ _ => ?_
  exact (declare_reports decl.signature frame env).bind (declare_yields decl.signature frame env)
    fun _ _ _ => .pure _

theorem binding_reports (decl : Binding) (frame : Frame) (env : Environment) :
    Reports (frame :: env) (binding decl) fun code =>
      faults (decl.uses (frame.map Declaration.sig :: env.surroundings)) code +
        repeated (frame.map Declaration.sig) [decl.signature] code := by
  refine ((option_reports (typeExpr_reports · _) decl.type).then
    (option_gives (typeExpr_gives · _) decl.type) fun _ _ =>
    (option_reports (expr_reports · _) decl.value).then
    (option_gives (expr_gives · _) decl.value) fun _ _ =>
    (declare_reports decl.signature frame env).bind (declare_yields decl.signature frame env)
    fun _ _ _ => .pure _).congr ?_
  intro code
  simp only [Binding.uses, faults_append, Environment.surroundings_cons]
  omega

theorem params_report (decls : List Param) (frame : Frame) (env : Environment) :
    Reports (frame :: env) (decls.mapM param) fun code =>
      faults (Param.usesAll env.surroundings (frame.map Declaration.sig) decls) code +
        repeated (frame.map Declaration.sig) (decls.map Param.signature) code := by
  induction decls generalizing frame with
  | nil => exact (Reports.pure _).congr fun code => by simp [Param.usesAll]
  | cons decl rest ih =>
    rw [List.mapM_cons]
    have hrest : ∀ t env', (∃ s, t = decl.treeIn (frame :: env) s ∧
        env' = (frame ++ [⟨decl.signature, s⟩]) :: env) →
        Reports env' (do return t :: (← rest.mapM param)) fun code =>
          faults (Param.usesAll env.surroundings
            (frame.map Declaration.sig ++ [decl.signature]) rest) code +
          repeated (frame.map Declaration.sig ++ [decl.signature])
            (rest.map Param.signature) code := by
      rintro _ _ ⟨s, rfl, rfl⟩
      have hih := ih (frame ++ [⟨decl.signature, s⟩])
      rw [List.map_append] at hih
      exact hih.bind (params_yield rest _ env) fun _ _ _ => .pure _
    refine ((param_reports decl frame env).bind (param_yields decl frame env) hrest).congr ?_
    intro code
    rw [Param.usesAll, faults_append, List.map_cons, repeated_cons _ _ (rest.map Param.signature)]
    omega

/-- A body in a scope of its own, which declares all of its contents first. -/
theorem body_reports {sigs : List Signature} {x : List SymbolId → Resolve (List Tree)}
    {survey : Survey} (env : Environment)
    (hx : ∀ ss, ss.length = sigs.length →
      Reports (.ofSymbols sigs ss :: env) (x ss) survey.reports) :
    Reports env (inScope do x (← declareAll sigs))
      (Survey.reports ({ scopes := [sigs] } ++ survey)) := by
  have hbody : ∀ ss env',
      ss.length = sigs.length ∧ env' = ([] ++ Frame.ofSymbols sigs ss) :: env →
      Reports env' (x ss) survey.reports := by
    rintro ss _ ⟨hlen, rfl⟩
    exact hx ss hlen
  have hall := (declareAll_reports sigs [] env).bind (declareAll_yields sigs [] env) hbody
  refine hall.inScope.congr fun code => ?_
  rw [Survey.reports_append, Survey.reports_scope, faults_nil, Nat.zero_add]
  rfl

/-- The rest of a function, once its scope declares the parameters. -/
theorem result_reports {frame : Frame} {known : List Signature} {contents : List Stmt}
    {make : Option Tree → List Tree → Tree} (result : Option TypeExpr)
    (hknown : frame.map Declaration.sig = known)
    (hstmts : ∀ ss, ss.length = (contents.filterMap Stmt.signature?).length →
      Reports ((frame ++ .ofSymbols (contents.filterMap Stmt.signature?) ss) :: env)
        (stmts contents ss) m) :
    Reports (frame :: env) (do
      let result ← result.mapM typeExpr
      let symbols ← declareAll (contents.filterMap Stmt.signature?)
      let body ← stmts contents symbols
      return make result body) fun code =>
      faults (result.toList.flatMap (TypeExpr.uses (known :: env.surroundings))) code +
        (repeated known (contents.filterMap Stmt.signature?) code + m code) := by
  subst hknown
  refine (option_reports (typeExpr_reports · _) result).then
    (option_gives (typeExpr_gives · _) result) fun _ _ =>
    (declareAll_reports _ frame env).bind (declareAll_yields _ frame env) ?_
  rintro ss _ ⟨hlen, rfl⟩
  exact (hstmts ss hlen).bind (stmts_yield contents ss _ env hlen) fun _ _ _ => .pure _

mutual

theorem module_reports (decl : Module) (s : SymbolId) (env : Environment) :
    Reports env (module decl s) (decl.survey env.surroundings).reports := by
  cases decl with
  | mk name contents span =>
    have hbody := body_reports env fun ss hlen => by
      have hitems := items_report contents ss
        (.ofSymbols (contents.map Item.signature) ss :: env) hlen
      rw [Environment.surroundings_cons, Frame.map_sig_ofSymbols hlen] at hitems
      exact hitems
    exact hbody.then (body_gives (fun ss env hlen => items_give contents ss env hlen) env)
      fun _ _ => .pure _

theorem items_report (decls : List Item) (ss : List SymbolId) (env : Environment)
    (hlen : ss.length = (decls.map Item.signature).length) :
    Reports env (items decls ss) (Item.surveyAll env.surroundings decls).reports := by
  cases decls with
  | nil => exact .pure _
  | cons decl rest =>
    cases ss with
    | nil => simp at hlen
    | cons s ss =>
      have hrest : ss.length = (rest.map Item.signature).length := by simpa using hlen
      refine ((item_reports decl s env).then (item_gives decl s env) fun _ _ =>
        (items_report rest ss env hrest).then (items_give rest ss env hrest) fun _ _ =>
        .pure _).congr fun code => ?_
      exact (Survey.reports_append ..).symm

theorem item_reports (decl : Item) (s : SymbolId) (env : Environment) :
    Reports env (item decl s) (decl.survey env.surroundings).reports := by
  cases decl with
  | module decl => exact module_reports decl s env
  | type decl => exact typeDecl_reports decl s env
  | function decl => exact function_reports decl s env

theorem typeDecl_reports (decl : TypeDecl) (s : SymbolId) (env : Environment) :
    Reports env (typeDecl decl s) (decl.survey env.surroundings).reports := by
  cases decl with
  | mk visibility aggregate name contents =>
    have hbody := body_reports env fun ss hlen => by
      have hmembers := members_report contents ss
        (.ofSymbols (contents.map Member.signature) ss :: env) hlen
      rw [Environment.surroundings_cons, Frame.map_sig_ofSymbols hlen] at hmembers
      exact hmembers
    exact hbody.then (body_gives (fun ss env hlen => members_give contents ss env hlen) env)
      fun _ _ => .pure _

theorem members_report (decls : List Member) (ss : List SymbolId) (env : Environment)
    (hlen : ss.length = (decls.map Member.signature).length) :
    Reports env (members decls ss) (Member.surveyAll env.surroundings decls).reports := by
  cases decls with
  | nil => exact .pure _
  | cons decl rest =>
    cases ss with
    | nil => simp at hlen
    | cons s ss =>
      have hrest : ss.length = (rest.map Member.signature).length := by simpa using hlen
      refine ((member_reports decl s env).then (member_gives decl s env) fun _ _ =>
        (members_report rest ss env hrest).then (members_give rest ss env hrest) fun _ _ =>
        .pure _).congr fun code => ?_
      exact (Survey.reports_append ..).symm

theorem member_reports (decl : Member) (s : SymbolId) (env : Environment) :
    Reports env (member decl s) (decl.survey env.surroundings).reports := by
  cases decl with
  | field decl =>
    exact (typeExpr_reports decl.type env).then (typeExpr_gives decl.type env) fun _ _ => .pure _
  | method decl => exact function_reports decl s env
  | type decl => exact typeDecl_reports decl s env

theorem function_reports (decl : Function) (s : SymbolId) (env : Environment) :
    Reports env (function decl s) (decl.survey env.surroundings).reports := by
  cases decl with
  | mk visibility name params result contents =>
    -- what comes after the parameters depends on their symbols, but what it reports does not
    refine ((params_report params [] env).bind (params_yield params [] env)
      (m := fun code =>
        faults (result.toList.flatMap
          (TypeExpr.uses (params.map Param.signature :: env.surroundings))) code +
        (repeated (params.map Param.signature) (contents.filterMap Stmt.signature?) code +
        ((Stmt.surveyAll env.surroundings (params.map Param.signature ++
          contents.filterMap Stmt.signature?) contents).reports code +
        repeated (params.map Param.signature ++ contents.filterMap Stmt.signature?)
          (contents.filterMap Stmt.binding?) code))) ?_).inScope.congr fun code => ?_
    · rintro ps _ ⟨qs, hps, rfl⟩
      have hknown : (Frame.ofSymbols (params.map Param.signature) qs).map Declaration.sig =
          params.map Param.signature := Frame.map_sig_ofSymbols (by simp [hps.length_eq])
      refine result_reports result hknown fun ss hlen => ?_
      have hstmts := stmts_report contents ss (Frame.ofSymbols (params.map Param.signature) qs ++
        .ofSymbols (contents.filterMap Stmt.signature?) ss) env hlen
      rw [List.map_append, hknown, Frame.map_sig_ofSymbols hlen] at hstmts
      exact hstmts
    · simp only [Function.survey, Survey.reports_append, Survey.reports_scope, faults_append,
        repeated_append, List.map_nil, List.nil_append]
      omega

/-- The scope stays open, so what the bindings repeat in it is counted with the statements. -/
theorem stmts_report (body : List Stmt) (ss : List SymbolId) (frame : Frame) (env : Environment)
    (hlen : ss.length = (body.filterMap Stmt.signature?).length) :
    Reports (frame :: env) (stmts body ss) fun code =>
      (Stmt.surveyAll env.surroundings (frame.map Declaration.sig) body).reports code +
        repeated (frame.map Declaration.sig) (body.filterMap Stmt.binding?) code := by
  cases body with
  | nil => exact (Reports.pure _).congr fun code => by simp [Stmt.surveyAll]
  | cons stmt rest =>
    cases stmt with
    | item decl =>
      cases ss with
      | nil => simp [Stmt.signature?] at hlen
      | cons s ss =>
        have hrest : ss.length = (rest.filterMap Stmt.signature?).length := by
          simpa [Stmt.signature?] using hlen
        refine ((item_reports decl s _).then (item_gives decl s _) fun _ _ =>
          (stmts_report rest ss frame env hrest).bind (stmts_yield rest ss frame env hrest)
          fun _ _ _ => .pure _).congr fun code => ?_
        simp only [Stmt.surveyAll, Survey.reports_append, List.filterMap_cons, Stmt.binding?,
          Environment.surroundings_cons]
        omega
    | binding decl =>
      -- the symbol of the binding does not matter for what is reported after it
      have hrest : ∀ t env', (∃ s, t = decl.treeIn (frame :: env) s ∧
          env' = (frame ++ [⟨decl.signature, s⟩]) :: env) →
          Reports env' (do return t :: (← stmts rest ss)) fun code =>
            (Stmt.surveyAll env.surroundings
              (frame.map Declaration.sig ++ [decl.signature]) rest).reports code +
            repeated (frame.map Declaration.sig ++ [decl.signature])
              (rest.filterMap Stmt.binding?) code := by
        rintro _ _ ⟨s, rfl, rfl⟩
        have hstmts := stmts_report rest ss (frame ++ [⟨decl.signature, s⟩]) env hlen
        rw [List.map_append] at hstmts
        exact hstmts.bind (stmts_yield rest ss _ env hlen) fun _ _ _ => .pure _
      refine ((binding_reports decl frame env).bind (binding_yields decl frame env) hrest).congr
        fun code => ?_
      simp only [Stmt.surveyAll, Survey.reports_append, Survey.reports_uses, List.filterMap_cons,
        Stmt.binding?]
      rw [repeated_cons _ _ (rest.filterMap Stmt.binding?)]
      omega
    | eval e =>
      refine ((expr_reports e _).then (expr_gives e _) fun _ _ =>
        (stmts_report rest ss frame env hlen).bind (stmts_yield rest ss frame env hlen)
        fun _ _ _ => .pure _).congr fun code => ?_
      simp only [Stmt.surveyAll, Survey.reports_append, Survey.reports_uses, List.filterMap_cons,
        Stmt.binding?, Environment.surroundings_cons]
      omega
    | ret value =>
      refine ((option_reports (expr_reports · _) value).then (option_gives (expr_gives · _) value)
        fun _ _ => (stmts_report rest ss frame env hlen).bind (stmts_yield rest ss frame env hlen)
        fun _ _ _ => .pure _).congr fun code => ?_
      simp only [Stmt.surveyAll, Survey.reports_append, Survey.reports_uses, List.filterMap_cons,
        Stmt.binding?, Environment.surroundings_cons]
      omega

end

/-- The top-level modules are resolved as items of the outermost scope. -/
theorem mapM_module (decls : List Module) (ss : List SymbolId) :
    ((decls.zip ss).mapM fun (decl, s) => module decl s) = items (decls.map .module) ss := by
  induction decls generalizing ss with
  | nil => rfl
  | cons decl rest ih =>
    cases ss with
    | nil => rfl
    | cons s ss =>
      rw [List.zip_cons_cons, List.mapM_cons, ih]
      rfl

theorem program_reports (source : Source.Program) :
    Reports [[]] (program source) source.survey.reports := by
  have hbody : ∀ ss env', ss.length = (source.modules.map Module.signature).length ∧
      env' = [[] ++ Frame.ofSymbols (source.modules.map Module.signature) ss] →
      Reports env' ((source.modules.zip ss).mapM fun (decl, s) => module decl s)
        (Item.surveyAll [source.items.map Item.signature] source.items).reports := by
    rintro ss _ ⟨hlen, rfl⟩
    rw [← source.signature_items] at hlen ⊢
    have hitems := items_report source.items ss
      [.ofSymbols (source.items.map Item.signature) ss] hlen
    rw [Environment.surroundings_cons, Frame.map_sig_ofSymbols hlen] at hitems
    rw [mapM_module]
    exact hitems
  have hall := (declareAll_reports _ [] []).bind (declareAll_yields _ [] []) hbody
  refine hall.congr fun code => ?_
  rw [Source.Program.survey, Survey.reports_append, Survey.reports_scope, source.signature_items,
    faults_nil, Nat.zero_add]
  rfl

end Resolve

/-- Resolution reports what the survey shows, no more and no less. -/
theorem Source.Program.countP_resolve (source : Source.Program) (code : DiagnosticCode) :
    source.resolve.diagnostics.countP (·.code = code) = source.survey.reports code := by
  have hrun := Resolve.program_reports source {} Resolver.sees_init code
  exact hrun.trans (Nat.zero_add _)

end Hoist
