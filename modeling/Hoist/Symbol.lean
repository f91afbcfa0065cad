import Hoist.Source
import Hoist.Table

/-! Symbols: what each declaration introduces, and the node that defines it. -/
namespace Hoist

inductive SymbolKind
  | module
  | type
  | function
  | field
  | param
  | binding
  deriving DecidableEq, Repr

namespace SymbolKind

def all : List SymbolKind := [.module, .type, .function, .field, .param, .binding]

def text : SymbolKind → String
  | module => "module"
  | type => "type"
  | function => "function"
  | field => "field"
  | param => "parameter"
  | binding => "local"

def isType (k : SymbolKind) : Bool := k = .type

def isModule (k : SymbolKind) : Bool := k = .module

end SymbolKind

structure Symbol where
  /-- The place in its table, unless it was overwritten. -/
  id : SymbolId
  name : String
  kind : SymbolKind
  span : Option Span := none
  /-- The node that defines the symbol, once there is one. -/
  definition : Option NodeId := none
  deriving DecidableEq, Repr

abbrev Symbols := Table .symbol Symbol

namespace Symbols

/-- The name to show for a symbol; a question mark for an unknown one. -/
def name (t : Symbols) (s : SymbolId) : String :=
  match t[s]? with
  | some entry => entry.name
  | none => "?"

def define (t : Symbols) (s : SymbolId) (n : NodeId) : Symbols :=
  t.modify s fun entry => { entry with definition := some n }

end Symbols

/-- A name about to be declared, and as what. -/
structure Signature where
  name : Source.Ident
  kind : SymbolKind
  deriving DecidableEq, Repr

def Signature.symbol (sig : Signature) (id : SymbolId) : Symbol :=
  { id, name := sig.name.name, kind := sig.kind, span := sig.name.span }

namespace Source

def Module.signature (decl : Module) : Signature := ⟨decl.name, .module⟩

def Item.signature : Item → Signature
  | .module decl => ⟨decl.name, .module⟩
  | .type decl => ⟨decl.name, .type⟩
  | .function decl => ⟨decl.name, .function⟩

def Member.signature : Member → Signature
  | .field decl => ⟨decl.name, .field⟩
  | .method decl => ⟨decl.name, .function⟩
  | .type decl => ⟨decl.name, .type⟩

def Stmt.signature? : Stmt → Option Signature
  | .item decl => some decl.signature
  | _ => none

end Source
end Hoist
