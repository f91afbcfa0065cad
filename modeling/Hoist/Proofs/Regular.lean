import Hoist.Proofs.Naming

/-! Regular trees: bodies stand only in bodies, and symbols are of their declaration's kind. -/
namespace Hoist

open Source

/-- The kind of the symbol that a node of this kind declares. -/
def NodeKind.symbolKind? : NodeKind → Option SymbolKind
  | .module .. => some .module
  | .typeDef .. => some .type
  | .function .. => some .function
  | .field .. => some .field
  | .param .. => some .param
  | .binding .. => some .binding
  | _ => none

/-- Trees that stand in a body, or else below something that is no body. -/
inductive Tree.Regular (T : Symbols) : (inBody : Bool) → List Tree → Prop
  | nil {inBody : Bool} : Regular T inBody []
  | cons {inBody : Bool} {t : Tree} {ts : List Tree}
      (hb : inBody = false → t.blank.body? = none)
      (hd : ∀ s, t.declared? = some s →
        ∃ e, T[s]? = some e ∧ e.id = s ∧ t.blank.symbolKind? = some e.kind)
      (ho : Regular T false t.operands) (hc : Regular T true t.contents)
      (hr : Regular T inBody ts) : Regular T inBody (t :: ts)

namespace Tree

variable {T : Symbols} {inBody : Bool} {t : Tree} {ts us : List Tree}

theorem Regular.append (h : Regular T inBody ts) (h' : Regular T inBody us) :
    Regular T inBody (ts ++ us) := by
  induction h with
  | nil => exact h'
  | cons hb hd ho hc _ _ _ ih => exact .cons hb hd ho hc (ih h')

theorem Regular.body? (h : Regular T false (t :: ts)) : t.blank.body? = none := by
  cases h with
  | cons hb => exact hb rfl

theorem regular_leaf (hb : t.blank.body? = none) (hd : t.declared? = none)
    (ho : Regular T false t.operands) (hc : t.contents = []) : Regular T inBody [t] :=
  .cons (fun _ => hb) (by simp [hd]) ho (hc ▸ .nil) .nil

theorem regular_declaration {s : SymbolId} {sig : Signature}
    (hb : inBody = false → t.blank.body? = none) (hd : t.declared? = some s) (hs : T.Has s sig)
    (hk : t.blank.symbolKind? = some sig.kind) (ho : Regular T false t.operands)
    (hc : Regular T true t.contents) : Regular T inBody [t] := by
  obtain ⟨e, he, hbare⟩ := Option.map_eq_some_iff.1 hs
  have hid : e.id = s := congrArg Symbol.id hbare
  have hkind : e.kind = sig.kind := congrArg Symbol.kind hbare
  refine .cons hb (fun r hr => ?_) ho hc .nil
  obtain rfl : s = r := by simpa [hd] using hr
  exact ⟨e, he, hid, by rw [hk, hkind]⟩

theorem regular_typeExpr {e : TypeExpr} (h : e.Matches t) : Regular T inBody [t] := by
  cases e with
  | builtin type =>
    obtain rfl := h
    exact regular_leaf rfl rfl .nil rfl
  | named i =>
    obtain ⟨s, rfl⟩ := h
    exact regular_leaf rfl rfl .nil rfl

mutual

theorem regular_expr (e : Expr) (t : Tree) (inBody : Bool) (h : e.Matches t) :
    Regular T inBody [t] := by
  cases e with
  | ident i =>
    obtain ⟨s, rfl⟩ := h
    exact regular_leaf rfl rfl .nil rfl
  | int value =>
    obtain rfl := h
    exact regular_leaf rfl rfl .nil rfl
  | string value =>
    obtain rfl := h
    exact regular_leaf rfl rfl .nil rfl
  | bool value =>
    obtain rfl := h
    exact regular_leaf rfl rfl .nil rfl
  | call callee args =>
    obtain ⟨c, ts, rfl, hc, hts⟩ := h
    exact regular_leaf rfl rfl
      (Regular.append (regular_expr callee c false hc) (regular_exprs args ts false hts)) rfl
  | new type args =>
    obtain ⟨c, ts, rfl, hc, hts⟩ := h
    exact regular_leaf rfl rfl
      (Regular.append (regular_typeExpr hc) (regular_exprs args ts false hts)) rfl

theorem regular_exprs (es : List Expr) (ts : List Tree) (inBody : Bool) (h : Expr.MatchAll es ts) :
    Regular T inBody ts := by
  cases es with
  | nil =>
    obtain rfl := h
    exact .nil
  | cons e es =>
    obtain ⟨u, us, rfl, hu, hus⟩ := h
    exact Regular.append (regular_expr e u inBody hu) (regular_exprs es us inBody hus)

end

theorem regular_option {γ : Type} {R : γ → Tree → Prop} {o : Option γ} {o' : Option Tree}
    (h : Option.Rel R o o') (hR : ∀ c t, R c t → Regular T inBody [t]) :
    Regular T inBody o'.toList := by
  cases h with
  | none => exact .nil
  | some h => exact hR _ _ h

theorem regular_param {decl : Param} (h : decl.Matches T t) : Regular T inBody [t] := by
  obtain ⟨s, type, rfl, hs, htype⟩ := h
  have ht : Regular T false type.toList := regular_option htype fun _ _ => regular_typeExpr
  exact regular_declaration (fun _ => rfl) rfl hs rfl ht .nil

theorem regular_params {decls : List Param} (h : List.Forall₂ (Param.Matches T) decls ts) :
    Regular T inBody ts := by
  induction h with
  | nil => exact .nil
  | cons h _ ih => exact Regular.append (regular_param h) ih

theorem regular_field {decl : Field} (h : decl.Matches T t) : Regular T inBody [t] := by
  obtain ⟨s, type, rfl, hs, htype⟩ := h
  exact regular_declaration (fun _ => rfl) rfl hs rfl (regular_typeExpr htype) .nil

theorem regular_binding {decl : Binding} (h : decl.Matches T t) : Regular T inBody [t] := by
  obtain ⟨s, type, value, rfl, hs, htype, hvalue⟩ := h
  have ht : Regular T false type.toList := regular_option htype fun _ _ => regular_typeExpr
  have hv : Regular T false value.toList := regular_option hvalue fun e t => regular_expr e t false
  exact regular_declaration (fun _ => rfl) rfl hs rfl (ht.append hv) .nil

mutual

theorem regular_module (decl : Module) (t : Tree) (h : decl.Matches T t) : Regular T true [t] := by
  cases decl with
  | mk name items span =>
    obtain ⟨s, ts, rfl, hs, hts⟩ := h
    exact regular_declaration (by simp) rfl hs rfl .nil (regular_items items ts hts)

theorem regular_items (decls : List Item) (ts : List Tree) (h : Item.MatchAll T decls ts) :
    Regular T true ts := by
  cases decls with
  | nil =>
    obtain rfl := h
    exact .nil
  | cons decl rest =>
    obtain ⟨u, us, rfl, hu, hus⟩ := h
    exact Regular.append (regular_item decl u hu) (regular_items rest us hus)

theorem regular_item (decl : Item) (t : Tree) (h : decl.Matches T t) : Regular T true [t] := by
  cases decl with
  | module decl => exact regular_module decl t h
  | type decl => exact regular_type decl t h
  | function decl => exact regular_function decl t h

theorem regular_type (decl : TypeDecl) (t : Tree) (h : decl.Matches T t) : Regular T true [t] := by
  cases decl with
  | mk visibility aggregate name members =>
    obtain ⟨s, ts, rfl, hs, hts⟩ := h
    exact regular_declaration (by simp) rfl hs rfl .nil (regular_members members ts hts)

theorem regular_members (decls : List Member) (ts : List Tree) (h : Member.MatchAll T decls ts) :
    Regular T true ts := by
  cases decls with
  | nil =>
    obtain rfl := h
    exact .nil
  | cons decl rest =>
    obtain ⟨u, us, rfl, hu, hus⟩ := h
    exact Regular.append (regular_member decl u hu) (regular_members rest us hus)

theorem regular_member (decl : Member) (t : Tree) (h : decl.Matches T t) : Regular T true [t] := by
  cases decl with
  | field decl => exact regular_field h
  | method decl => exact regular_function decl t h
  | type decl => exact regular_type decl t h

theorem regular_function (decl : Function) (t : Tree) (h : decl.Matches T t) :
    Regular T true [t] := by
  cases decl with
  | mk visibility name params result body =>
    obtain ⟨s, ps, r, ts, rfl, hs, hps, hr, hts⟩ := h
    have ho : Regular T false r.toList := regular_option hr fun _ _ => regular_typeExpr
    exact regular_declaration (by simp) rfl hs rfl ((regular_params hps).append ho)
      (regular_stmts body ts hts)

theorem regular_stmts (stmts : List Stmt) (ts : List Tree) (h : Stmt.MatchAll T stmts ts) :
    Regular T true ts := by
  cases stmts with
  | nil =>
    obtain rfl := h
    exact .nil
  | cons stmt rest =>
    obtain ⟨u, us, rfl, hu, hus⟩ := h
    exact Regular.append (regular_stmt stmt u hu) (regular_stmts rest us hus)

theorem regular_stmt (stmt : Stmt) (t : Tree) (h : stmt.Matches T t) : Regular T true [t] := by
  cases stmt with
  | item decl => exact regular_item decl t h
  | binding decl => exact regular_binding h
  | eval e => exact regular_expr e t true h
  | ret value =>
    obtain ⟨v, rfl, hv⟩ := h
    exact regular_leaf rfl rfl (regular_option hv fun e t => regular_expr e t false) rfl

end

theorem regular_modules {decls : List Module} (h : List.Forall₂ (Module.Matches T) decls ts) :
    Regular T true ts := by
  induction h with
  | nil => exact .nil
  | cons h _ ih => exact Regular.append (regular_module _ _ h) ih

end Tree

end Hoist
