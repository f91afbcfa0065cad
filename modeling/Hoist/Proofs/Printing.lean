import Hoist.Program.Printer
import Hoist.Proofs.Surroundings

/-! The text of a source tree, and that of the program that it is lowered to. -/
namespace Hoist

namespace Source

/-- A question mark follows a name that does not stand for what is wanted. -/
def markedText (known : Bool) (name : String) : String := if known then name else name ++ "?"

def argsText (texts : List String) : String := "(" ++ ", ".intercalate texts ++ ")"

/-- A marker before a text, or nothing at all. -/
def optionText (marker : String) : Option String → String
  | none => ""
  | some text => marker ++ text

/-- A header with the texts of a body between braces. An empty body stays on the header's line. -/
def bracedText (indent header : String) : List String → String
  | [] => indent ++ header ++ " \x7b\x7d\n"
  | texts => indent ++ header ++ " \x7b\n" ++ String.join texts ++ indent ++ "\x7d\n"

def TypeExpr.text (around : Surroundings) : TypeExpr → String
  | .builtin type => type.text
  | .named i => markedText (around.knowsType i.name) i.name

mutual

def Expr.text (around : Surroundings) : Expr → String
  | .ident i => markedText (around.knows i.name) i.name
  | .int value => toString value
  | .string value => Text.quote value
  | .bool value => if value then "true" else "false"
  | .call callee args => callee.text around ++ argsText (Expr.texts around args)
  | .new type args => "new " ++ type.text around ++ argsText (Expr.texts around args)

def Expr.texts (around : Surroundings) : List Expr → List String
  | [] => []
  | e :: rest => e.text around :: Expr.texts around rest

end

def Param.text (around : Surroundings) (decl : Param) : String :=
  decl.name.name ++ optionText ": " (decl.type.map (TypeExpr.text around))

/-- Parameters in a scope that declares `known` before them. -/
def Param.texts (around : Surroundings) : (known : List Signature) → List Param → List String
  | _, [] => []
  | known, decl :: rest =>
    decl.text (known :: around) :: Param.texts around (known ++ [decl.signature]) rest

def Field.text (around : Surroundings) (decl : Field) : String :=
  "field " ++ decl.name.name ++ ": " ++ decl.type.text around

def Binding.text (around : Surroundings) (decl : Binding) : String :=
  "let " ++ decl.name.name ++ optionText ": " (decl.type.map (TypeExpr.text around)) ++
    optionText " = " (decl.value.map (Expr.text around))

mutual

def Module.text (around : Surroundings) (indent : String) : Module → String
  | ⟨name, items, _⟩ => bracedText indent ("module " ++ name.name)
    (Item.texts (items.map Item.signature :: around) (indent ++ "  ") items)

def Item.texts (around : Surroundings) (indent : String) : List Item → List String
  | [] => []
  | decl :: rest => decl.text around indent :: Item.texts around indent rest

def Item.text (around : Surroundings) (indent : String) : Item → String
  | .module decl => decl.text around indent
  | .type decl => decl.text around indent
  | .function decl => decl.text around indent

def TypeDecl.text (around : Surroundings) (indent : String) : TypeDecl → String
  | ⟨_, aggregate, name, members⟩ => bracedText indent (aggregate.text ++ " " ++ name.name)
    (Member.texts (members.map Member.signature :: around) (indent ++ "  ") members)

def Member.texts (around : Surroundings) (indent : String) : List Member → List String
  | [] => []
  | decl :: rest => decl.text around indent :: Member.texts around indent rest

def Member.text (around : Surroundings) (indent : String) : Member → String
  | .field decl => indent ++ decl.text around ++ "\n"
  | .method decl => decl.text around indent
  | .type decl => decl.text around indent

def Function.text (around : Surroundings) (indent : String) : Function → String
  | ⟨_, name, params, result, body⟩ =>
    let known := params.map Param.signature
    bracedText indent
      ("fn " ++ name.name ++ argsText (Param.texts around [] params) ++
        optionText " -> " (result.map (TypeExpr.text (known :: around))))
      (Stmt.texts around (indent ++ "  ") (known ++ body.filterMap Stmt.signature?) body)

/-- Statements in a scope that declares `known` so far. -/
def Stmt.texts (around : Surroundings) (indent : String) :
    (known : List Signature) → List Stmt → List String
  | _, [] => []
  | known, .item decl :: rest =>
    decl.text (known :: around) indent :: Stmt.texts around indent known rest
  | known, .binding decl :: rest =>
    (indent ++ decl.text (known :: around) ++ "\n") ::
      Stmt.texts around indent (known ++ [decl.signature]) rest
  | known, .eval e :: rest =>
    (indent ++ e.text (known :: around) ++ "\n") :: Stmt.texts around indent known rest
  | known, .ret value :: rest =>
    (indent ++ "return" ++ optionText " " (value.map (Expr.text (known :: around))) ++ "\n") ::
      Stmt.texts around indent known rest

end

def Program.text (source : Source.Program) : String :=
  String.join (Item.texts [source.items.map Item.signature] "" source.items)

theorem Param.length_texts (around : Surroundings) (known : List Signature) (decls : List Param) :
    (Param.texts around known decls).length = decls.length := by
  induction decls generalizing known with
  | nil => rfl
  | cons decl rest ih => simp [Param.texts, ih]

end Source

open Source (argsText optionText bracedText markedText)

theorem Symbols.Has.name_eq {T : Symbols} {s : SymbolId} {sig : Signature} (h : T.Has s sig) :
    T.name s = sig.name.name := by
  obtain ⟨entry, hentry, hbare⟩ := Option.map_eq_some_iff.1 h
  have hname : entry.name = sig.name.name := congrArg Symbol.name hbare
  simp [name, hentry, hname]

namespace NodeKind

variable (T : Symbols)

/-- What is written for a node in the middle of a line, around the texts of its operands. -/
def inlineText : NodeKind → List String → String
  | .builtinType type, _ => type.text
  | .typeRef name s, _ => Program.nameText name s
  | .ident name s, _ => Program.nameText name s
  | .literal value, _ => value.text
  | .call _ _, callee :: args => callee ++ argsText args
  | .new _ _, type :: args => "new " ++ type ++ argsText args
  | .param s _, type => T.name s ++ String.join (type.map (": " ++ ·))
  | .ret _, _ => "return"
  | k, _ => (k.declared?.map T.name).getD ""

/-- What is written for a node on lines of its own, around the texts of its operands and body. -/
def text (indent : String) : NodeKind → (operands body : List String) → String
  | .module s _, _, body => bracedText indent ("module " ++ T.name s) body
  | .typeDef s aggregate _, _, body => bracedText indent (aggregate.text ++ " " ++ T.name s) body
  | .function s params _ _, operands, body =>
    bracedText indent ("fn " ++ T.name s ++ argsText (operands.take params.length) ++
      String.join ((operands.drop params.length).map (" -> " ++ ·))) body
  | .field s _, operands, _ =>
    indent ++ ("field " ++ T.name s ++ ": " ++ String.join operands) ++ "\n"
  | .binding s type _, operands, _ =>
    indent ++ ("let " ++ T.name s ++
      String.join ((operands.take type.toList.length).map (": " ++ ·)) ++
      String.join ((operands.drop type.toList.length).map (" = " ++ ·))) ++ "\n"
  | .ret _, operands, _ => indent ++ ("return" ++ String.join (operands.map (" " ++ ·))) ++ "\n"
  | k, operands, _ => indent ++ k.inlineText T operands ++ "\n"

theorem inlineText_blank (k : NodeKind) (operands : List String) :
    k.blank.inlineText T operands = k.inlineText T operands := by
  cases k with
  | call callee args => cases operands <;> rfl
  | new type args => cases operands <;> rfl
  | _ => rfl

theorem text_blank (indent : String) (k : NodeKind) (operands body : List String) :
    k.blank.text T indent operands body = k.text T indent operands body := by
  cases k with
  | function s params result body => simp [blank, text]
  | binding s type value => cases type <;> simp [blank, text]
  | call callee args => cases operands <;> rfl
  | new type args => cases operands <;> rfl
  | _ => rfl

end NodeKind

theorem join_map_toList (marker : String) (text : Option String) :
    String.join (text.toList.map (marker ++ ·)) = optionText marker text := by
  cases text <;> simp [optionText, String.join]

/-- Two blanks for each level. -/
def indentation (depth : Nat) : String := String.join (List.replicate depth "  ")

theorem indentation_succ (depth : Nat) : indentation (depth + 1) = indentation depth ++ "  " := by
  simp [indentation, List.replicate_succ']

theorem join_render_flatMap (ns : List NodeId) (f : NodeId → List Line) :
    String.join ((ns.flatMap f).map Line.render) =
      String.join (ns.map fun n => String.join ((f n).map Line.render)) := by
  induction ns with
  | nil => rfl
  | cons n ns ih => simp [String.join_append, ih]

/-- Each node of a body has a line, so a body without lines is one without nodes. -/
theorem join_render_braced (depth : Nat) (header : String) (ns : List NodeId)
    (f : NodeId → List Line) (hf : ∀ n ∈ ns, f n ≠ []) :
    String.join ((Line.braced depth header (ns.flatMap f)).map Line.render) =
      bracedText (indentation depth) header
        (ns.map fun n => String.join ((f n).map Line.render)) := by
  cases ns with
  | nil => simp [Line.braced, Line.render, bracedText, indentation, String.append_assoc]
  | cons n ns =>
    have hne : ((n :: ns).flatMap f).isEmpty = false := by simp [hf n (by simp)]
    have hjoin := join_render_flatMap (n :: ns) f
    simp only [Line.braced, hne, Bool.false_eq_true, if_false, List.cons_append, List.map_cons,
      List.map_append, List.map_nil, String.join_cons, String.join_append, String.join_nil, hjoin]
    simp [Line.render, bracedText, indentation, String.append_assoc]

namespace Program

variable {p : Program} {n : NodeId} {k : NodeKind} {t : Tree} {ts us : List Tree}
  {operands texts more : List String} {depth room : Nat}

theorem exprText_succ (hk : p.kind? n = some k) (room : Nat) :
    p.exprText (room + 1) n = k.inlineText p.symbols (k.operands.map (p.exprText room)) := by
  cases k with
  | param s type =>
    cases type <;>
      simp [exprText, hk, NodeKind.inlineText, NodeKind.operands, String.append_assoc]
  | _ => simp [exprText, hk, NodeKind.inlineText, NodeKind.operands, NodeKind.declared?, argsText]

/-- The lines of a node, one after the other. -/
def nodeText (p : Program) (room depth : Nat) (n : NodeId) : String :=
  String.join ((p.nodeLines room depth n).map Line.render)

theorem nodeLines_ne_nil (p : Program) (room depth : Nat) (n : NodeId) :
    p.nodeLines (room + 1) depth n ≠ [] := by
  simp only [nodeLines]
  split <;> simp [Line.braced] <;> split <;> simp

/-- One node, printed. Its operands read the same with any room for all nodes, and there is room for
another level if it has a body. -/
theorem nodeText_succ (hk : p.kind? n = some k)
    (ho : ∀ r, p.nodes.size ≤ r → k.operands.map (p.exprText r) = operands)
    (hroom : p.body k ≠ [] → room ≠ 0) (depth : Nat) :
    p.nodeText (room + 1) depth n = k.text p.symbols (indentation depth) operands
      ((p.body k).map (p.nodeText room (depth + 1))) := by
  have hexpr : k.operands.map p.expr = operands := ho _ (by omega)
  have hline : p.expr n = k.inlineText p.symbols operands := by
    rw [expr, exprText_succ hk, ho _ (Nat.le_refl _)]
  have hbody : ∀ m ∈ p.body k, p.nodeLines room (depth + 1) m ≠ [] := by
    intro m hm
    obtain ⟨r, rfl⟩ := Nat.exists_eq_succ_of_ne_zero (hroom (List.ne_nil_of_mem hm))
    exact nodeLines_ne_nil p r (depth + 1) m
  cases k with
  | module s b =>
    simp only [nodeText, nodeLines, hk, NodeKind.text]
    exact join_render_braced _ _ _ _ hbody
  | typeDef s aggregate b =>
    simp only [nodeText, nodeLines, hk, NodeKind.text]
    exact join_render_braced _ _ _ _ hbody
  | function s params result b =>
    subst hexpr
    simp only [nodeText, nodeLines, hk, NodeKind.text]
    refine (join_render_braced _ _ _ _ hbody).trans (congrArg (bracedText _ · _) ?_)
    cases result <;> simp [NodeKind.operands, argsText, optional, String.append_assoc,
      List.take_of_length_le, List.drop_of_length_le]
  | field s type =>
    subst hexpr
    simp [nodeText, nodeLines, hk, NodeKind.text, NodeKind.operands, Line.render, indentation]
  | binding s type value =>
    subst hexpr
    cases type <;> cases value <;>
      simp [nodeText, nodeLines, hk, NodeKind.text, NodeKind.operands, Line.render, indentation,
        optional, String.append_assoc]
  | ret value =>
    subst hexpr
    cases value <;>
      simp [nodeText, nodeLines, hk, NodeKind.text, NodeKind.operands, Line.render, indentation,
        optional, String.append_assoc]
  | _ => simp [nodeText, nodeLines, hk, NodeKind.text, Line.render, indentation, hline]

/-- Wherever the program stores these trees, they read as these texts in the middle of a line. -/
def Reads (p : Program) (ts : List Tree) (texts : List String) : Prop :=
  ∀ ns ids room, p.Stores ts ns ids → ids.length ≤ room → ns.map (p.exprText room) = texts

/-- Wherever the program stores these trees, they are printed as these texts at a level. -/
def Prints (p : Program) (depth : Nat) (ts : List Tree) (texts : List String) : Prop :=
  ∀ ns ids room, p.Stores ts ns ids → ids.length ≤ room → room ≤ p.nodes.size + 1 →
    ns.map (p.nodeText room depth) = texts

theorem Reads.nil (p : Program) : p.Reads [] [] := by
  intro ns ids room h _
  cases h
  rfl

theorem Reads.cons {text : String} (ho : p.Reads t.operands operands) (hr : p.Reads ts texts)
    (htext : t.blank.inlineText p.symbols operands = text) : p.Reads (t :: ts) (text :: texts) := by
  intro ns ids room h hroom
  cases h with
  | @cons _ n k ops inner rest _ ns hn hk hops _ hrest =>
    simp only [List.cons_append, List.length_cons, List.length_append] at hroom
    obtain ⟨r, rfl⟩ := Nat.exists_eq_succ_of_ne_zero (n := room) (by omega)
    have hkind : p.kind? n = some k := by simp [kind?_eq_content?, hn]
    have hoperands := ho _ _ r hops (by omega)
    have hothers := hr _ _ (r + 1) hrest (by omega)
    rw [List.map_cons, exprText_succ hkind, hoperands, hothers, ← htext, ← hk,
      NodeKind.inlineText_blank]

theorem Reads.append (h : p.Reads ts texts) (h' : p.Reads us more) :
    p.Reads (ts ++ us) (texts ++ more) := by
  intro ns ids room hs hroom
  obtain ⟨ns₁, ns₂, ids₁, ids₂, rfl, rfl, hts, hus⟩ := hs.of_append
  rw [List.length_append] at hroom
  rw [List.map_append, h _ _ room hts (by omega), h' _ _ room hus (by omega)]

theorem Prints.nil (p : Program) (depth : Nat) : p.Prints depth [] [] := by
  intro ns ids room h _ _
  cases h
  rfl

theorem Prints.cons {body : List String} {text : String} (ho : p.Reads t.operands operands)
    (hb : p.Prints (depth + 1) t.contents body) (hr : p.Prints depth ts texts)
    (htext : t.blank.text p.symbols (indentation depth) operands body = text) :
    p.Prints depth (t :: ts) (text :: texts) := by
  intro ns ids room h hroom hsize
  cases h with
  | @cons _ n k ops inner rest _ ns hn hk hops hinner hrest =>
    simp only [List.cons_append, List.length_cons, List.length_append] at hroom
    obtain ⟨r, rfl⟩ := Nat.exists_eq_succ_of_ne_zero (n := room) (by omega)
    have hkind : p.kind? n = some k := by simp [kind?_eq_content?, hn]
    have hoperands : ∀ r', p.nodes.size ≤ r' → k.operands.map (p.exprText r') = operands :=
      fun r' hr' => ho _ _ r' hops (by omega)
    -- the nodes of a body are among those that there is room for
    have hlevel : p.body k ≠ [] → r ≠ 0 := by
      intro hne
      have := List.length_pos_of_ne_nil hne
      have := hinner.sublist.length_le
      omega
    have hbody := hb _ _ r hinner (by omega) (by omega)
    have hothers := hr _ _ (r + 1) hrest (by omega) hsize
    rw [List.map_cons, nodeText_succ hkind hoperands hlevel, hbody, hothers, ← htext, ← hk,
      NodeKind.text_blank]

theorem Prints.append (h : p.Prints depth ts texts) (h' : p.Prints depth us more) :
    p.Prints depth (ts ++ us) (texts ++ more) := by
  intro ns ids room hs hroom hsize
  obtain ⟨ns₁, ns₂, ids₁, ids₂, rfl, rfl, hts, hus⟩ := hs.of_append
  rw [List.length_append] at hroom
  rw [List.map_append, h _ _ room hts (by omega) hsize, h' _ _ room hus (by omega) hsize]

section Source

open Source

variable {env : Environment}

theorem nameText_symbol? (env : Environment) (name : String) :
    nameText name (env.symbol? name) = markedText (env.surroundings.knows name) name := by
  simp [nameText, markedText, Environment.isSome_symbol?]

theorem nameText_type? (env : Environment) (name : String) :
    nameText name (env.type? name) = markedText (env.surroundings.knowsType name) name := by
  simp [nameText, markedText, Environment.isSome_type?]

theorem reads_option {γ : Type} {f : γ → Tree} {g : γ → String} (hf : ∀ c, p.Reads [f c] [g c])
    (o : Option γ) : p.Reads (o.map f).toList (o.map g).toList := by
  cases o with
  | none => exact .nil p
  | some c => exact hf c

theorem reads_typeExpr (p : Program) (e : TypeExpr) (env : Environment) :
    p.Reads [e.treeIn env] [e.text env.surroundings] := by
  cases e with
  | builtin type => exact .cons (.nil p) (.nil p) rfl
  | named i => exact .cons (.nil p) (.nil p) (nameText_type? env i.name)

mutual

theorem reads_operands (p : Program) (e : Expr) (env : Environment) :
    ∃ operands, p.Reads (e.treeIn env).operands operands ∧
      (e.treeIn env).blank.inlineText p.symbols operands = e.text env.surroundings := by
  cases e with
  | ident i => exact ⟨[], .nil p, nameText_symbol? env i.name⟩
  | int value => exact ⟨[], .nil p, rfl⟩
  | string value => exact ⟨[], .nil p, rfl⟩
  | bool value => exact ⟨[], .nil p, rfl⟩
  | call callee args =>
    obtain ⟨operands, hcallee, htext⟩ := reads_operands p callee env
    exact ⟨_, .cons hcallee (reads_exprs p args env) htext, rfl⟩
  | new type args =>
    exact ⟨_, (reads_typeExpr p type env).append (reads_exprs p args env), rfl⟩

theorem reads_exprs (p : Program) (es : List Expr) (env : Environment) :
    p.Reads (Expr.treesIn env es) (Expr.texts env.surroundings es) := by
  cases es with
  | nil => exact .nil p
  | cons e rest =>
    obtain ⟨operands, he, htext⟩ := reads_operands p e env
    exact .cons he (reads_exprs p rest env) htext

end

theorem reads_expr (p : Program) (e : Expr) (env : Environment) :
    p.Reads [e.treeIn env] [e.text env.surroundings] := reads_exprs p [e] env

/-- An expression as a statement has a line of its own. -/
theorem prints_expr (p : Program) (e : Expr) (env : Environment) (depth : Nat) :
    p.Prints depth [e.treeIn env] [indentation depth ++ e.text env.surroundings ++ "\n"] := by
  obtain ⟨operands, he, htext⟩ := reads_operands p e env
  rw [← htext]
  cases e <;> exact .cons he (.nil p _) (.nil p depth) rfl

theorem reads_params {frame : Frame} {decls : List Param} {ss : List SymbolId}
    (hs : Param.ScopedAll env frame decls ss ts)
    (hm : List.Forall₂ (Param.Matches p.symbols) decls ts) :
    p.Reads ts (Param.texts env.surroundings (frame.map Declaration.sig) decls) := by
  induction decls generalizing frame ss ts with
  | nil =>
    obtain ⟨-, rfl⟩ := hs
    exact .nil p
  | cons decl rest ih =>
    obtain ⟨s, ss', ts', rfl, rfl, hrest⟩ := hs
    cases hm with
    | cons hdecl hm =>
      obtain ⟨_, _, heq, hhas, -⟩ := hdecl
      cases heq
      have hothers := ih hrest hm
      rw [List.map_append] at hothers
      refine .cons (reads_option (reads_typeExpr p · (frame :: env)) decl.type) hothers ?_
      simp [Param.treeIn, Tree.blank, NodeKind.inlineText, Param.text, hhas.name_eq,
        join_map_toList]

mutual

theorem prints_module (decl : Module) (env : Environment) (s : SymbolId) (t : Tree) (depth : Nat)
    (hs : decl.Scoped env s t) (hm : decl.Matches p.symbols t) :
    p.Prints depth [t] [decl.text env.surroundings (indentation depth)] := by
  cases decl with
  | mk name items span =>
    obtain ⟨ss, ts, rfl, hts⟩ := hs
    obtain ⟨_, _, heq, hhas, hall⟩ := hm
    cases heq
    have hsigs := Frame.map_sig_ofSymbols (hts.has hall).length_eq
    have hbody := prints_items items _ ss ts (depth + 1) hts hall
    rw [Environment.surroundings_cons, hsigs, indentation_succ] at hbody
    refine .cons (.nil p) hbody (.nil p depth) ?_
    simp [Tree.blank, NodeKind.text, Module.text, hhas.name_eq]

theorem prints_items (decls : List Item) (env : Environment) (ss : List SymbolId) (ts : List Tree)
    (depth : Nat) (hs : Item.ScopedAll env decls ss ts) (hm : Item.MatchAll p.symbols decls ts) :
    p.Prints depth ts (Item.texts env.surroundings (indentation depth) decls) := by
  cases decls with
  | nil =>
    obtain ⟨-, rfl⟩ := hs
    exact .nil p depth
  | cons decl rest =>
    obtain ⟨s, ss', t, ts', -, rfl, ht, hrest⟩ := hs
    obtain ⟨_, _, heq, hmt, hmrest⟩ := hm
    cases heq
    exact (prints_item decl env s t depth ht hmt).append
      (prints_items rest env ss' ts' depth hrest hmrest)

theorem prints_item (decl : Item) (env : Environment) (s : SymbolId) (t : Tree) (depth : Nat)
    (hs : decl.Scoped env s t) (hm : decl.Matches p.symbols t) :
    p.Prints depth [t] [decl.text env.surroundings (indentation depth)] := by
  cases decl with
  | module decl => exact prints_module decl env s t depth hs hm
  | type decl => exact prints_typeDecl decl env s t depth hs hm
  | function decl => exact prints_function decl env s t depth hs hm

theorem prints_typeDecl (decl : TypeDecl) (env : Environment) (s : SymbolId) (t : Tree)
    (depth : Nat) (hs : decl.Scoped env s t) (hm : decl.Matches p.symbols t) :
    p.Prints depth [t] [decl.text env.surroundings (indentation depth)] := by
  cases decl with
  | mk visibility aggregate name members =>
    obtain ⟨ss, ts, rfl, hts⟩ := hs
    obtain ⟨_, _, heq, hhas, hall⟩ := hm
    cases heq
    have hsigs := Frame.map_sig_ofSymbols (hts.has hall).length_eq
    have hbody := prints_members members _ ss ts (depth + 1) hts hall
    rw [Environment.surroundings_cons, hsigs, indentation_succ] at hbody
    refine .cons (.nil p) hbody (.nil p depth) ?_
    simp [Tree.blank, NodeKind.text, TypeDecl.text, hhas.name_eq]

theorem prints_members (decls : List Member) (env : Environment) (ss : List SymbolId)
    (ts : List Tree) (depth : Nat) (hs : Member.ScopedAll env decls ss ts)
    (hm : Member.MatchAll p.symbols decls ts) :
    p.Prints depth ts (Member.texts env.surroundings (indentation depth) decls) := by
  cases decls with
  | nil =>
    obtain ⟨-, rfl⟩ := hs
    exact .nil p depth
  | cons decl rest =>
    obtain ⟨s, ss', t, ts', -, rfl, ht, hrest⟩ := hs
    obtain ⟨_, _, heq, hmt, hmrest⟩ := hm
    cases heq
    exact (prints_member decl env s t depth ht hmt).append
      (prints_members rest env ss' ts' depth hrest hmrest)

theorem prints_member (decl : Member) (env : Environment) (s : SymbolId) (t : Tree) (depth : Nat)
    (hs : decl.Scoped env s t) (hm : decl.Matches p.symbols t) :
    p.Prints depth [t] [decl.text env.surroundings (indentation depth)] := by
  cases decl with
  | field decl =>
    obtain rfl := hs
    obtain ⟨_, _, heq, hhas, -⟩ := hm
    cases heq
    refine .cons (reads_typeExpr p decl.type env) (.nil p _) (.nil p depth) ?_
    simp [Field.treeIn, Tree.blank, NodeKind.text, Member.text, Field.text, hhas.name_eq]
  | method decl => exact prints_function decl env s t depth hs hm
  | type decl => exact prints_typeDecl decl env s t depth hs hm

theorem prints_function (decl : Function) (env : Environment) (s : SymbolId) (t : Tree)
    (depth : Nat) (hs : decl.Scoped env s t) (hm : decl.Matches p.symbols t) :
    p.Prints depth [t] [decl.text env.surroundings (indentation depth)] := by
  cases decl with
  | mk visibility name params result body =>
    obtain ⟨qs, ps, ss, ts, rfl, hps, hts⟩ := hs
    obtain ⟨_, _, _, _, heq, hhas, hmps, -, hall⟩ := hm
    cases heq
    -- the result type sees the parameters, the body also its own declarations
    have hknown := Frame.map_sig_ofSymbols (hps.has hmps).length_eq
    have hlocals := Frame.map_sig_ofSymbols (hts.has hall).length_eq
    have hparams := reads_params hps hmps
    have hresult := reads_option
      (reads_typeExpr p · (Frame.ofSymbols (params.map Param.signature) qs :: env)) result
    have hbody := prints_stmts body _ env ss ts (depth + 1) hts hall
    rw [Environment.surroundings_cons, hknown] at hresult
    rw [List.map_append, hknown, hlocals, indentation_succ] at hbody
    refine .cons (hparams.append hresult) hbody (.nil p depth) ?_
    have hlen : (Param.texts env.surroundings [] params).length = ps.length := by
      rw [Param.length_texts, hmps.length_eq]
    simp [Tree.blank, NodeKind.text, Function.text, hhas.name_eq, ← hlen, join_map_toList]

theorem prints_stmts (body : List Stmt) (frame : Frame) (env : Environment) (ss : List SymbolId)
    (ts : List Tree) (depth : Nat) (hs : Stmt.ScopedAll env frame body ss ts)
    (hm : Stmt.MatchAll p.symbols body ts) :
    p.Prints depth ts
      (Stmt.texts env.surroundings (indentation depth) (frame.map Declaration.sig) body) := by
  cases body with
  | nil =>
    obtain ⟨-, rfl⟩ := hs
    exact .nil p depth
  | cons stmt rest =>
    cases stmt with
    | item decl =>
      obtain ⟨s, ss', t, ts', -, rfl, ht, hrest⟩ := hs
      obtain ⟨_, _, heq, hmt, hmrest⟩ := hm
      cases heq
      exact (prints_item decl _ s t depth ht hmt).append
        (prints_stmts rest frame env ss' ts' depth hrest hmrest)
    | binding decl =>
      obtain ⟨s, ts', rfl, hrest⟩ := hs
      obtain ⟨_, _, heq, ⟨_, _, _, hdecl, hhas, -⟩, hmrest⟩ := hm
      cases heq
      cases hdecl
      have hothers := prints_stmts rest _ env ss ts' depth hrest hmrest
      rw [List.map_append] at hothers
      have hoperands := (reads_option (reads_typeExpr p · (frame :: env)) decl.type).append
        (reads_option (reads_expr p · (frame :: env)) decl.value)
      refine .cons hoperands (.nil p _) hothers ?_
      obtain ⟨name, type, value, span⟩ := decl
      cases type <;> simp [Binding.treeIn, Tree.blank, NodeKind.text, Binding.text, hhas.name_eq,
        optionText, join_map_toList]
    | eval e =>
      obtain ⟨ts', rfl, hrest⟩ := hs
      obtain ⟨_, _, heq, -, hmrest⟩ := hm
      cases heq
      exact (prints_expr p e (frame :: env) depth).append
        (prints_stmts rest frame env ss ts' depth hrest hmrest)
    | ret value =>
      obtain ⟨ts', rfl, hrest⟩ := hs
      obtain ⟨_, _, heq, -, hmrest⟩ := hm
      cases heq
      have hothers := prints_stmts rest frame env ss ts' depth hrest hmrest
      refine .cons (reads_option (reads_expr p · (frame :: env)) value) (.nil p _) hothers ?_
      simp [Tree.blank, NodeKind.text, join_map_toList, String.append_assoc]

end

end Source

end Program

namespace Source.Program

/-- A lowered program is printed as its source is written. -/
theorem print_lower (source : Source.Program) :
    ∃ l, source.lower = .ok l ∧ l.program.print = source.text := by
  obtain ⟨p, ids, hlower, hp, hmatch⟩ := source.lower_holds
  obtain ⟨ss, hscoped⟩ := source.resolve_scoped.items
  have hall := Item.matchAll_modules hmatch
  have hids : ids.length = p.nodes.size := by rw [hp.perm.length_eq, Table.length_ids]
  have htexts := Hoist.Program.prints_items source.items _ ss _ 0 hscoped hall _ _
    (p.nodes.size + 1) hp.stores (by omega) (Nat.le_refl _)
  rw [Environment.surroundings_cons, Frame.map_sig_ofSymbols (hscoped.has hall).length_eq,
    Environment.surroundings_nil] at htexts
  refine ⟨_, hlower, ?_⟩
  rw [Hoist.Program.print, Hoist.Program.lines, join_render_flatMap]
  exact congrArg String.join htexts

/-- A parameter hides the class of its name, so the result type is marked. -/
example : (⟨[⟨⟨"m", none⟩, [.type ⟨.exported, .classType, ⟨"C", none⟩, []⟩,
    .function ⟨.exported, ⟨"f", none⟩, [⟨⟨"C", none⟩, some (.named ⟨"C", none⟩)⟩],
      some (.named ⟨"C", none⟩), [.ret (some (.call (.ident ⟨"g", none⟩) [.int 1]))]⟩], none⟩]⟩ :
    Source.Program).text = String.join ["module m \x7b\n", "  class C \x7b\x7d\n",
      "  fn f(C: C) -> C? \x7b\n", "    return g?(1)\n", "  \x7d\n", "\x7d\n"] := by
  decide +kernel

end Source.Program

end Hoist
