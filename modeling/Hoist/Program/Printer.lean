import Hoist.Program
import Hoist.Text.Quoted

/-! Programs as indented text: one line for a statement, braces around a body. -/
namespace Hoist

structure Line where
  depth : Nat
  text : String
  deriving DecidableEq, Repr

/-- Two blanks for each level, and a line break at the end. -/
def Line.render (l : Line) : String :=
  String.join (List.replicate l.depth "  ") ++ l.text ++ "\n"

namespace Line

/-- A header line around the lines of a body; an empty body stays on the header's line. -/
def braced (depth : Nat) (header : String) (body : List Line) : List Line :=
  if body.isEmpty then [⟨depth, header ++ " \x7b\x7d"⟩]
  else ⟨depth, header ++ " \x7b"⟩ :: body ++ [⟨depth, "\x7d"⟩]

end Line

def Literal.text : Literal → String
  | .int value => toString value
  | .string value => Text.quote value
  | .bool value => if value then "true" else "false"

namespace Program

variable (p : Program)

def missing (n : NodeId) : String := "<missing node " ++ n.text ++ ">"

/-- A name, with a question mark if nothing was found for it. -/
def nameText (name : String) (symbol : Option SymbolId) : String :=
  if symbol.isSome then name else name ++ "?"

/-- A node in the middle of a line. No expression is deeper than there are nodes. -/
def exprText : (depth : Nat) → NodeId → String
  | 0, _ => ""
  | depth + 1, n =>
    let args (l : List NodeId) : String := "(" ++ ", ".intercalate (l.map (exprText depth)) ++ ")"
    match p.kind? n with
    | none => missing n
    | some (.builtinType type) => type.text
    | some (.typeRef name symbol) => nameText name symbol
    | some (.ident name symbol) => nameText name symbol
    | some (.literal value) => value.text
    | some (.call callee l) => exprText depth callee ++ args l
    | some (.new type l) => "new " ++ exprText depth type ++ args l
    | some (.param s none) => p.symbols.name s
    | some (.param s (some type)) => p.symbols.name s ++ ": " ++ exprText depth type
    | some (.module s _) => p.symbols.name s
    | some (.typeDef s _ _) => p.symbols.name s
    | some (.function s _ _ _) => p.symbols.name s
    | some (.field s _) => p.symbols.name s
    | some (.binding s _ _) => p.symbols.name s
    | some (.ret _) => "return"

def expr (n : NodeId) : String := p.exprText (p.nodes.size + 1) n

/-- A marker and an expression, or nothing. -/
def optional (marker : String) (n : Option NodeId) : String :=
  match n with
  | some n => marker ++ p.expr n
  | none => ""

/-- The lines of a node at a level of indentation, down to `room` levels further. -/
def nodeLines : (room : Nat) → (depth : Nat) → NodeId → List Line
  | 0, _, _ => []
  | room + 1, depth, n =>
    let braced (header : String) (body : BlockId) : List Line :=
      Line.braced depth header ((p.members body).flatMap (nodeLines room (depth + 1)))
    match p.kind? n with
    | some (.module s body) => braced ("module " ++ p.symbols.name s) body
    | some (.typeDef s aggregate body) => braced (aggregate.text ++ " " ++ p.symbols.name s) body
    | some (.function s params result body) =>
      braced ("fn " ++ p.symbols.name s ++ "(" ++ ", ".intercalate (params.map p.expr) ++ ")" ++
        p.optional " -> " result) body
    | some (.field s type) => [⟨depth, "field " ++ p.symbols.name s ++ ": " ++ p.expr type⟩]
    | some (.binding s type value) =>
      [⟨depth, "let " ++ p.symbols.name s ++ p.optional ": " type ++ p.optional " = " value⟩]
    | some (.ret value) => [⟨depth, "return" ++ p.optional " " value⟩]
    | _ => [⟨depth, p.expr n⟩]

def lines : List Line := p.roots.flatMap (p.nodeLines (p.nodes.size + 1) 0)

def print : String := String.join (p.lines.map Line.render)

end Program
end Hoist
