import Hoist.Symbol

/-! Diagnostics: what is wrong with the names of a source tree, and where. -/
namespace Hoist

inductive DiagnosticCode
  | unresolvedSymbol
  | duplicateSymbol
  | expectedType
  deriving DecidableEq, Repr

def DiagnosticCode.all : List DiagnosticCode := [.unresolvedSymbol, .duplicateSymbol, .expectedType]

def DiagnosticCode.text : DiagnosticCode → String
  | unresolvedSymbol => "UnresolvedSymbol"
  | duplicateSymbol => "DuplicateSymbol"
  | expectedType => "ExpectedType"

structure Diagnostic where
  code : DiagnosticCode
  message : String
  span : Span
  deriving DecidableEq, Repr

namespace Diagnostic

def text (d : Diagnostic) : String :=
  d.code.text ++ " " ++ toString d.span.start ++ ".." ++ toString d.span.stop ++ " " ++ d.message

/-- No declaration of the name is in scope. -/
def unresolved (i : Source.Ident) : Diagnostic :=
  ⟨.unresolvedSymbol, "unresolved name `" ++ i.name ++ "`", i.place⟩

/-- The scope already holds a declaration of the name. -/
def duplicate (sig : Signature) : Diagnostic :=
  ⟨.duplicateSymbol, "duplicate definition of " ++ sig.kind.text ++ " `" ++ sig.name.name ++ "`",
    sig.name.place⟩

/-- Points at the declaration that a duplicate repeats. -/
def previous (kind : SymbolKind) (span : Span) : Diagnostic :=
  ⟨.duplicateSymbol, "previous `" ++ kind.text ++ "` definition here", span⟩

/-- The name stands for something else where a type is needed. -/
def notAType (i : Source.Ident) (kind : SymbolKind) : Diagnostic :=
  ⟨.expectedType, "`" ++ i.name ++ "` is a " ++ kind.text ++ ", not a type", i.place⟩

end Diagnostic
end Hoist
