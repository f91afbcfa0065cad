import Hoist.Resolver
import Hoist.Tree

/-! Name resolution: from a source tree to trees that hold symbols. -/
namespace Hoist

/-- A source tree with every name resolved. No symbol has a definition yet. -/
structure Resolved where
  modules : List Tree
  symbols : Symbols
  diagnostics : List Diagnostic

/-- The open scopes, and what has been found so far. -/
structure Resolution where
  resolver : Resolver := .init
  diagnostics : List Diagnostic := []
  deriving DecidableEq, Repr

abbrev Resolve := StateM Resolution

namespace Resolve

open Source

def report (found : List Diagnostic) : Resolve Unit :=
  modify fun s => { s with diagnostics := s.diagnostics ++ found }

def resolver {α : Type} (f : Resolver → α × Resolver) : Resolve α :=
  modifyGet fun s => let (a, resolver) := f s.resolver; (a, { s with resolver })

def declare (sig : Signature) : Resolve SymbolId := do
  let (symbol, found) ← resolver (·.introduce sig)
  report found
  return symbol

def declareAll (sigs : List Signature) : Resolve (List SymbolId) := do
  let (symbols, found) ← resolver (·.introduceAll sigs)
  report found
  return symbols

/-- Runs a step in a new innermost scope. -/
def inScope {α : Type} (x : Resolve α) : Resolve α := do
  let _ ← resolver (·.enter)
  let a ← x
  let _ ← resolver (·.leave)
  return a

/-- The symbol that a name stands for here. -/
def symbol (i : Ident) : Resolve (Option SymbolId) := do
  match (← get).resolver.find? i.name with
  | some s => return some s
  | none =>
    report [.unresolved i]
    return none

/-- The type that a name stands for here. Something else of that name hides a type further out. -/
def typeSymbol (i : Ident) : Resolve (Option SymbolId) := do
  match ← symbol i with
  | none => return none
  | some s =>
    match (← get).resolver.symbols[s]? with
    | none => return none
    | some entry =>
      if entry.kind.isType then
        return some s
      else
        report [.notAType i entry.kind]
        return none

def typeExpr : TypeExpr → Resolve Tree
  | .builtin type => return .builtinType type
  | .named i => return .typeRef i.name i.span (← typeSymbol i)

mutual

def expr : Expr → Resolve Tree
  | .ident i => return .ident i.name i.span (← symbol i)
  | .int value => return .literal (.int value)
  | .string value => return .literal (.string value)
  | .bool value => return .literal (.bool value)
  | .call callee args => return .call (← expr callee) (← exprs args)
  | .new type args => return .new (← typeExpr type) (← exprs args)

def exprs : List Expr → Resolve (List Tree)
  | [] => return []
  | e :: rest => return (← expr e) :: (← exprs rest)

end

def field (decl : Field) (s : SymbolId) : Resolve Tree :=
  return .field s decl.name.span (← typeExpr decl.type)

def param (decl : Param) : Resolve Tree := do
  let type ← decl.type.mapM typeExpr
  let s ← declare ⟨decl.name, .param⟩
  return .param s decl.name.span type

def binding (decl : Binding) : Resolve Tree := do
  let type ← decl.type.mapM typeExpr
  let value ← decl.value.mapM expr
  let s ← declare ⟨decl.name, .binding⟩
  return .binding s (decl.span.or decl.name.span) type value

mutual

def module : Module → SymbolId → Resolve Tree
  | ⟨name, contents, span⟩, s => do
    let body ← inScope do
      let symbols ← declareAll (contents.map Item.signature)
      items contents symbols
    return .module s (span.or name.span) body

def items : List Item → List SymbolId → Resolve (List Tree)
  | decl :: rest, s :: symbols => return (← item decl s) :: (← items rest symbols)
  | _, _ => return []

def item : Item → SymbolId → Resolve Tree
  | .module decl, s => module decl s
  | .type decl, s => typeDecl decl s
  | .function decl, s => function decl s

def typeDecl : TypeDecl → SymbolId → Resolve Tree
  | ⟨_, aggregate, name, contents⟩, s => do
    let body ← inScope do
      let symbols ← declareAll (contents.map Member.signature)
      members contents symbols
    return .typeDef s name.span aggregate body

def members : List Member → List SymbolId → Resolve (List Tree)
  | decl :: rest, s :: symbols => return (← member decl s) :: (← members rest symbols)
  | _, _ => return []

def member : Member → SymbolId → Resolve Tree
  | .field decl, s => field decl s
  | .method decl, s => function decl s
  | .type decl, s => typeDecl decl s

/-- One scope holds the parameters and the body. The result type sees every parameter. -/
def function : Function → SymbolId → Resolve Tree
  | ⟨_, name, params, result, contents⟩, s => inScope do
    let params ← params.mapM param
    let result ← result.mapM typeExpr
    let symbols ← declareAll (contents.filterMap Stmt.signature?)
    let body ← stmts contents symbols
    return .function s name.span params result body

/-- The symbols are those of the declarations among the statements. -/
def stmts : List Stmt → List SymbolId → Resolve (List Tree)
  | .item decl :: rest, s :: symbols => return (← item decl s) :: (← stmts rest symbols)
  | .item _ :: rest, [] => stmts rest []
  | .binding decl :: rest, symbols => return (← binding decl) :: (← stmts rest symbols)
  | .eval e :: rest, symbols => return (← expr e) :: (← stmts rest symbols)
  | .ret value :: rest, symbols => return .ret (← value.mapM expr) :: (← stmts rest symbols)
  | [], _ => return []

end

def program (source : Source.Program) : Resolve (List Tree) := do
  let symbols ← declareAll (source.modules.map Module.signature)
  (source.modules.zip symbols).mapM fun (decl, s) => module decl s

end Resolve

def Source.Program.resolve (source : Source.Program) : Resolved :=
  let (modules, s) := (Resolve.program source).run {}
  { modules, symbols := s.resolver.symbols, diagnostics := s.diagnostics }

end Hoist
