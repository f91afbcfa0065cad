/-! Source trees: declarations, statements and expressions as they were written. -/
namespace Hoist

/-- A range of source positions. The end may come before the start. -/
structure Span where
  start : Nat
  stop : Nat
  deriving DecidableEq, Repr

/-- The span of what has no place in the source. -/
def Span.nowhere : Span := ⟨0, 0⟩

namespace Source

structure Ident where
  name : String
  span : Option Span := none
  deriving DecidableEq, Repr

/-- Where a message about the name points. -/
def Ident.place (i : Ident) : Span := i.span.getD .nowhere

inductive Builtin
  | int
  | uint
  | float
  | string
  | bool
  | char
  deriving DecidableEq, Repr

def Builtin.all : List Builtin := [.int, .uint, .float, .string, .bool, .char]

def Builtin.text : Builtin → String
  | .int => "int"
  | .uint => "uint"
  | .float => "float"
  | .string => "string"
  | .bool => "bool"
  | .char => "char"

inductive Aggregate
  | classType
  | recordType
  deriving DecidableEq, Repr

def Aggregate.all : List Aggregate := [.classType, .recordType]

def Aggregate.text : Aggregate → String
  | .classType => "class"
  | .recordType => "record"

/-- Who may use a declaration. Resolution does not look at it. -/
inductive Visibility
  | exported
  | internal
  deriving DecidableEq, Repr

inductive TypeExpr
  | named (name : Ident)
  | builtin (type : Builtin)
  deriving DecidableEq, Repr

inductive Expr
  | ident (name : Ident)
  | int (value : Int)
  | string (value : String)
  | bool (value : Bool)
  | call (callee : Expr) (args : List Expr)
  | new (type : TypeExpr) (args : List Expr)

structure Param where
  name : Ident
  type : Option TypeExpr

structure Field where
  name : Ident
  type : TypeExpr

structure Binding where
  name : Ident
  type : Option TypeExpr
  value : Option Expr
  span : Option Span

mutual

structure Module where
  name : Ident
  items : List Item
  span : Option Span

inductive Item
  | module (decl : Module)
  | type (decl : TypeDecl)
  | function (decl : Function)

structure TypeDecl where
  visibility : Visibility
  aggregate : Aggregate
  name : Ident
  members : List Member

inductive Member
  | field (decl : Field)
  | method (decl : Function)
  | type (decl : TypeDecl)

structure Function where
  visibility : Visibility
  name : Ident
  params : List Param
  result : Option TypeExpr
  body : List Stmt

inductive Stmt
  | item (decl : Item)
  | binding (decl : Binding)
  | eval (expr : Expr)
  | ret (value : Option Expr)

end

/-- A whole program: its top-level modules. -/
structure Program where
  modules : List Module

def Item.name : Item → Ident
  | .module decl => decl.name
  | .type decl => decl.name
  | .function decl => decl.name

end Source
end Hoist
