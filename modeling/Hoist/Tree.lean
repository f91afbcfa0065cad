import Hoist.Node

/-! Trees: declarations, statements and expressions with every name resolved. -/
namespace Hoist

inductive Tree
  | module (symbol : SymbolId) (span : Option Span) (body : List Tree)
  | typeDef (symbol : SymbolId) (span : Option Span) (aggregate : Source.Aggregate)
    (body : List Tree)
  | function (symbol : SymbolId) (span : Option Span) (params : List Tree) (result : Option Tree)
    (body : List Tree)
  | field (symbol : SymbolId) (span : Option Span) (type : Tree)
  | param (symbol : SymbolId) (span : Option Span) (type : Option Tree)
  | binding (symbol : SymbolId) (span : Option Span) (type value : Option Tree)
  | builtinType (type : Source.Builtin)
  | typeRef (name : String) (span : Option Span) (symbol : Option SymbolId)
  | ident (name : String) (span : Option Span) (symbol : Option SymbolId)
  | literal (value : Literal)
  | call (callee : Tree) (args : List Tree)
  | new (type : Tree) (args : List Tree)
  | ret (value : Option Tree)

end Hoist
