import Mathlib.Algebra.GroupWithZero.Nat
import Hoist.Proofs.Surroundings

/-! A survey of a source tree: the uses of names, the declarations of scopes, the faults. -/
namespace Hoist

/-- A use of a name, with its declaration, if any is visible. -/
structure Use where
  name : String
  asType : Bool
  found : Option Signature
  deriving DecidableEq, Repr

def Use.fault? (u : Use) : Option DiagnosticCode :=
  match u.found with
  | none => some .unresolvedSymbol
  | some sig => if u.asType && !sig.kind.isType then some .expectedType else none

/-- How many of the uses are at fault in this way. -/
def faults (uses : List Use) (code : DiagnosticCode) : Nat := uses.countP (·.fault? = some code)

/-- The reports that the declarations of a scope give after those before them: one for each whose
name is taken, and one that points at the first declaration of the name, if that has a place. -/
def repeats : (before : List Signature) → List Signature → Nat
  | _, [] => 0
  | before, sig :: rest =>
    (match before.find? fun first => first.name.name = sig.name.name with
      | none => 0
      | some first => if first.name.span.isSome then 2 else 1) + repeats (before ++ [sig]) rest

structure Survey where
  uses : List Use := []
  /-- The declarations of each scope, in order. -/
  scopes : List (List Signature) := []

namespace Survey

instance : Append Survey := ⟨fun s t => ⟨s.uses ++ t.uses, s.scopes ++ t.scopes⟩⟩

@[simp] theorem uses_append (s t : Survey) : (s ++ t).uses = s.uses ++ t.uses := rfl

@[simp] theorem scopes_append (s t : Survey) : (s ++ t).scopes = s.scopes ++ t.scopes := rfl

end Survey

namespace Source

def TypeExpr.uses (around : Surroundings) : TypeExpr → List Use
  | .builtin _ => []
  | .named i => [⟨i.name, true, around.declared? i.name⟩]

mutual

def Expr.uses (around : Surroundings) : Expr → List Use
  | .ident i => [⟨i.name, false, around.declared? i.name⟩]
  | .call callee args => callee.uses around ++ Expr.usesAll around args
  | .new type args => type.uses around ++ Expr.usesAll around args
  | _ => []

def Expr.usesAll (around : Surroundings) : List Expr → List Use
  | [] => []
  | e :: rest => e.uses around ++ Expr.usesAll around rest

end

def Param.uses (around : Surroundings) (decl : Param) : List Use :=
  decl.type.toList.flatMap (TypeExpr.uses around)

/-- Parameters in a scope that declares `known` before them. -/
def Param.usesAll (around : Surroundings) : (known : List Signature) → List Param → List Use
  | _, [] => []
  | known, decl :: rest =>
    decl.uses (known :: around) ++ Param.usesAll around (known ++ [decl.signature]) rest

def Binding.uses (around : Surroundings) (decl : Binding) : List Use :=
  decl.type.toList.flatMap (TypeExpr.uses around) ++
    decl.value.toList.flatMap (Expr.uses around)

/-- What a binding declares. -/
def Stmt.binding? : Stmt → Option Signature
  | .binding decl => some decl.signature
  | _ => none

mutual

def Module.survey (around : Surroundings) : Module → Survey
  | ⟨_, items, _⟩ =>
    let sigs := items.map Item.signature
    { scopes := [sigs] } ++ Item.surveyAll (sigs :: around) items

def Item.surveyAll (around : Surroundings) : List Item → Survey
  | [] => {}
  | decl :: rest => decl.survey around ++ Item.surveyAll around rest

def Item.survey (around : Surroundings) : Item → Survey
  | .module decl => decl.survey around
  | .type decl => decl.survey around
  | .function decl => decl.survey around

def TypeDecl.survey (around : Surroundings) : TypeDecl → Survey
  | ⟨_, _, _, members⟩ =>
    let sigs := members.map Member.signature
    { scopes := [sigs] } ++ Member.surveyAll (sigs :: around) members

def Member.surveyAll (around : Surroundings) : List Member → Survey
  | [] => {}
  | decl :: rest => decl.survey around ++ Member.surveyAll around rest

def Member.survey (around : Surroundings) : Member → Survey
  | .field decl => { uses := decl.type.uses around }
  | .method decl => decl.survey around
  | .type decl => decl.survey around

/-- One scope holds the parameters, the declarations of the body and the bindings. -/
def Function.survey (around : Surroundings) : Function → Survey
  | ⟨_, _, params, result, body⟩ =>
    let known := params.map Param.signature
    let declared := known ++ body.filterMap Stmt.signature?
    { uses := Param.usesAll around [] params ++
        result.toList.flatMap (TypeExpr.uses (known :: around))
      scopes := [declared ++ body.filterMap Stmt.binding?] } ++
    Stmt.surveyAll around declared body

/-- Statements in a scope that declares `known` so far. -/
def Stmt.surveyAll (around : Surroundings) : (known : List Signature) → List Stmt → Survey
  | _, [] => {}
  | known, .item decl :: rest => decl.survey (known :: around) ++ Stmt.surveyAll around known rest
  | known, .binding decl :: rest =>
    { uses := decl.uses (known :: around) } ++
      Stmt.surveyAll around (known ++ [decl.signature]) rest
  | known, .eval e :: rest =>
    { uses := e.uses (known :: around) } ++ Stmt.surveyAll around known rest
  | known, .ret value :: rest =>
    { uses := value.toList.flatMap (Expr.uses (known :: around)) } ++
      Stmt.surveyAll around known rest

end

def Program.survey (source : Source.Program) : Survey :=
  let sigs := source.items.map Item.signature
  { scopes := [sigs] } ++ Item.surveyAll [sigs] source.items

end Source

@[simp] theorem faults_nil (code : DiagnosticCode) : faults [] code = 0 := rfl

@[simp] theorem faults_append (us vs : List Use) (code : DiagnosticCode) :
    faults (us ++ vs) code = faults us code + faults vs code := List.countP_append ..

theorem repeats_append (before sigs more : List Signature) :
    repeats before (sigs ++ more) = repeats before sigs + repeats (before ++ sigs) more := by
  induction sigs generalizing before with
  | nil => simp [repeats]
  | cons sig sigs ih =>
    simp only [List.cons_append, repeats, ih, List.append_assoc, List.nil_append]
    omega

/-- The reports of one code that repeated declarations give. -/
def repeated (before sigs : List Signature) (code : DiagnosticCode) : Nat :=
  if code = .duplicateSymbol then repeats before sigs else 0

@[simp] theorem repeated_nil (before : List Signature) (code : DiagnosticCode) :
    repeated before [] code = 0 := by
  simp [repeated, repeats]

theorem repeated_append (before sigs more : List Signature) (code : DiagnosticCode) :
    repeated before (sigs ++ more) code =
      repeated before sigs code + repeated (before ++ sigs) more code := by
  simp only [repeated, repeats_append]
  split <;> omega

theorem repeated_cons (before : List Signature) (sig : Signature) (sigs : List Signature)
    (code : DiagnosticCode) : repeated before (sig :: sigs) code =
      repeated before [sig] code + repeated (before ++ [sig]) sigs code :=
  repeated_append before [sig] sigs code

namespace Survey

/-- The reports of one code for everything that the survey shows. -/
def reports (s : Survey) (code : DiagnosticCode) : Nat :=
  faults s.uses code + (s.scopes.map (repeated [] · code)).sum

@[simp] theorem reports_empty (code : DiagnosticCode) : reports {} code = 0 := rfl

@[simp] theorem reports_uses (us : List Use) (code : DiagnosticCode) :
    reports { uses := us } code = faults us code := rfl

@[simp] theorem reports_scope (us : List Use) (sigs : List Signature) (code : DiagnosticCode) :
    reports ⟨us, [sigs]⟩ code = faults us code + repeated [] sigs code := by
  simp [reports]

@[simp] theorem reports_append (s t : Survey) (code : DiagnosticCode) :
    (s ++ t).reports code = s.reports code + t.reports code := by
  simp only [reports, uses_append, scopes_append, faults_append, List.map_append, List.sum_append]
  omega

end Survey

end Hoist
