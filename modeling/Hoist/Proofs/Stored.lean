import Mathlib.Data.List.Forall2
import Hoist.Program.Order
import Hoist.Proofs.Relinking
import Hoist.Tree

/-! When a program stores trees: at which nodes, with which operands and bodies. -/
namespace Hoist

/-- A kind with every identifier of a node or block left out. -/
def NodeKind.blank : NodeKind → NodeKind
  | .module s _ => .module s ⟨0⟩
  | .typeDef s aggregate _ => .typeDef s aggregate ⟨0⟩
  | .function s params result _ =>
    .function s (params.map fun _ => ⟨0⟩) (result.map fun _ => ⟨0⟩) ⟨0⟩
  | .field s _ => .field s ⟨0⟩
  | .param s type => .param s (type.map fun _ => ⟨0⟩)
  | .binding s type value => .binding s (type.map fun _ => ⟨0⟩) (value.map fun _ => ⟨0⟩)
  | .call _ args => .call ⟨0⟩ (args.map fun _ => ⟨0⟩)
  | .new _ args => .new ⟨0⟩ (args.map fun _ => ⟨0⟩)
  | .ret value => .ret (value.map fun _ => ⟨0⟩)
  | k => k

namespace Tree

/-- The kind of a node that stores the tree, with every identifier of a node or block left out. -/
def blank : Tree → NodeKind
  | .module s _ _ => .module s ⟨0⟩
  | .typeDef s _ aggregate _ => .typeDef s aggregate ⟨0⟩
  | .function s _ params result _ =>
    .function s (params.map fun _ => ⟨0⟩) (result.map fun _ => ⟨0⟩) ⟨0⟩
  | .field s _ _ => .field s ⟨0⟩
  | .param s _ type => .param s (type.map fun _ => ⟨0⟩)
  | .binding s _ type value => .binding s (type.map fun _ => ⟨0⟩) (value.map fun _ => ⟨0⟩)
  | .builtinType type => .builtinType type
  | .typeRef name _ s => .typeRef name s
  | .ident name _ s => .ident name s
  | .literal value => .literal value
  | .call _ args => .call ⟨0⟩ (args.map fun _ => ⟨0⟩)
  | .new _ args => .new ⟨0⟩ (args.map fun _ => ⟨0⟩)
  | .ret value => .ret (value.map fun _ => ⟨0⟩)

def span : Tree → Option Span
  | .module _ span _ | .typeDef _ span _ _ | .function _ span _ _ _ | .field _ span _
  | .param _ span _ | .binding _ span _ _ | .typeRef _ span _ | .ident _ span _ => span
  | _ => none

/-- The trees that a tree refers to directly, in source order. -/
def operands : Tree → List Tree
  | .function _ _ params result _ => params ++ result.toList
  | .field _ _ type => [type]
  | .param _ _ type => type.toList
  | .binding _ _ type value => type.toList ++ value.toList
  | .call callee args => callee :: args
  | .new type args => type :: args
  | .ret value => value.toList
  | _ => []

/-- What stands in the body of a tree. -/
def contents : Tree → List Tree
  | .module _ _ body | .typeDef _ _ _ body | .function _ _ _ _ body => body
  | _ => []

def declared? (t : Tree) : Option SymbolId := t.blank.declared?

mutual

/-- The symbols that a tree declares, in pre-order. -/
def symbols : Tree → List SymbolId
  | .module s _ body => s :: symbolsAll body
  | .typeDef s _ _ body => s :: symbolsAll body
  | .function s _ params result body =>
    s :: (symbolsAll params ++ symbolsOption result) ++ symbolsAll body
  | .field s _ type => s :: type.symbols
  | .param s _ type => s :: symbolsOption type
  | .binding s _ type value => s :: (symbolsOption type ++ symbolsOption value)
  | .call callee args => callee.symbols ++ symbolsAll args
  | .new type args => type.symbols ++ symbolsAll args
  | .ret value => symbolsOption value
  | _ => []

def symbolsOption : Option Tree → List SymbolId
  | none => []
  | some t => t.symbols

def symbolsAll : List Tree → List SymbolId
  | [] => []
  | t :: ts => t.symbols ++ symbolsAll ts

end

@[simp] theorem symbolsAll_nil : symbolsAll [] = [] := by rw [symbolsAll]

@[simp] theorem symbolsAll_cons (t : Tree) (ts : List Tree) :
    symbolsAll (t :: ts) = t.symbols ++ symbolsAll ts := by rw [symbolsAll]

@[simp] theorem symbolsAll_append (ts us : List Tree) :
    symbolsAll (ts ++ us) = symbolsAll ts ++ symbolsAll us := by
  induction ts with
  | nil => simp
  | cons t ts ih => simp [ih]

theorem symbolsOption_eq (o : Option Tree) : symbolsOption o = symbolsAll o.toList := by
  cases o <;> simp [symbolsOption]

theorem symbols_eq (t : Tree) :
    t.symbols = t.declared?.toList ++ symbolsAll t.operands ++ symbolsAll t.contents := by
  cases t <;> simp [symbols, declared?, blank, NodeKind.declared?, operands, contents,
    symbolsOption_eq]

end Tree

theorem NodeKind.declared?_blank (k : NodeKind) : k.blank.declared? = k.declared? := by
  cases k <;> rfl

namespace Program

variable {p q : Program} {n : NodeId} {ts us : List Tree} {ns ms ids js : List NodeId}

/-- The nodes in the body of a node of this kind. -/
def body (p : Program) (k : NodeKind) : List NodeId := (k.body?.map p.members).getD []

/-- The nodes `ns` store the trees `ts`, and `ids` are all nodes of these trees in pre-order. -/
inductive Stores (p : Program) : (ts : List Tree) → (ns ids : List NodeId) → Prop
  | nil : Stores p [] [] []
  | cons {t : Tree} {n : NodeId} {k : NodeKind} {ops inner rest : List NodeId} {ts : List Tree}
      {ns : List NodeId} (hn : p.content? n = some (k, t.span)) (hk : k.blank = t.blank)
      (ho : Stores p t.operands k.operands ops) (hb : Stores p t.contents (p.body k) inner)
      (hr : Stores p ts ns rest) : Stores p (t :: ts) (n :: ns) (n :: ops ++ inner ++ rest)

theorem Stores.append (h : p.Stores ts ns ids) (h' : p.Stores us ms js) :
    p.Stores (ts ++ us) (ns ++ ms) (ids ++ js) := by
  induction h with
  | nil => exact h'
  | cons hn hk ho hb _ _ _ ih => simpa using Stores.cons hn hk ho hb ih

theorem Stores.of_append (h : p.Stores (ts ++ us) ns ids) :
    ∃ ns₁ ns₂ ids₁ ids₂, ns = ns₁ ++ ns₂ ∧ ids = ids₁ ++ ids₂ ∧
      p.Stores ts ns₁ ids₁ ∧ p.Stores us ns₂ ids₂ := by
  induction ts generalizing ns ids with
  | nil => exact ⟨[], ns, [], ids, rfl, rfl, .nil, h⟩
  | cons t ts ih =>
    cases h with
    | @cons _ n k ops inner rest _ ns hn hk ho hb hr =>
      obtain ⟨ns₁, ns₂, ids₁, ids₂, rfl, rfl, hts, hus⟩ := ih hr
      exact ⟨n :: ns₁, ns₂, n :: ops ++ inner ++ ids₁, ids₂, rfl, by simp,
        .cons hn hk ho hb hts, hus⟩

/-- Storing trees is a matter of what their own nodes say and list. -/
theorem Stores.congr (h : p.Stores ts ns ids) (hc : ∀ n ∈ ids, q.content? n = p.content? n)
    (hm : ∀ n ∈ ids, ∀ k b, p.kind? n = some k → k.body? = some b → q.members b = p.members b) :
    q.Stores ts ns ids := by
  induction h with
  | nil => exact .nil
  | @cons t n k ops inner rest ts ns hn hk ho hb hr iho ihb ihr =>
    have hbody : q.body k = p.body k := by
      cases hkb : k.body? with
      | none => simp [body, hkb]
      | some b =>
        have := hm n (by simp) k b (by simp [kind?_eq_content?, hn]) hkb
        simp [body, hkb, this]
    refine .cons (by rw [hc n (by simp), hn]) hk ?_ ?_ ?_
    · exact iho (fun m h => hc m (by simp [h])) fun m h => hm m (by simp [h])
    · rw [hbody]
      exact ihb (fun m h => hc m (by simp [h])) fun m h => hm m (by simp [h])
    · exact ihr (fun m h => hc m (by simp [h])) fun m h => hm m (by simp [h])

theorem Stores.forall₂ (h : p.Stores ts ns ids) :
    List.Forall₂ (fun t n => ∃ js, p.Stores [t] [n] js) ts ns := by
  induction h with
  | nil => exact .nil
  | cons hn hk ho hb _ _ _ ih => exact .cons ⟨_, .cons hn hk ho hb .nil⟩ ih

theorem Stores.exists_tree (h : p.Stores ts ns ids) (hn : n ∈ ns) :
    ∃ t ∈ ts, ∃ k, p.content? n = some (k, t.span) ∧ k.blank = t.blank := by
  induction h with
  | nil => simp at hn
  | @cons t m k _ _ _ ts ns hm hk _ _ _ _ _ ih =>
    rcases List.mem_cons.1 hn with rfl | hn
    · exact ⟨t, by simp, k, hm, hk⟩
    · obtain ⟨t', ht', hrest⟩ := ih hn
      exact ⟨t', by simp [ht'], hrest⟩

theorem Stores.length_eq (h : p.Stores ts ns ids) : ns.length = ts.length := by
  induction h with
  | nil => rfl
  | cons _ _ _ _ _ _ _ ih => simp [ih]

theorem Stores.map_const {α : Type} {a : α} (h : p.Stores ts ns ids) :
    (ns.map fun _ => a) = ts.map fun _ => a := by
  rw [List.map_const', List.map_const', h.length_eq]

theorem Stores.optionMap_const {α : Type} {a : α} {o : Option Tree} {m : Option NodeId}
    (h : p.Stores o.toList m.toList ids) : (m.map fun _ => a) = o.map fun _ => a := by
  have hl := h.length_eq
  cases m <;> cases o <;> simp_all

theorem Stores.sublist (h : p.Stores ts ns ids) : ns.Sublist ids := by
  induction h with
  | nil => exact .slnil
  | cons _ _ _ _ _ _ _ ih =>
    refine List.Sublist.cons_cons _ ?_
    exact ih.trans (List.sublist_append_right _ _)

theorem Stores.hasNode (h : p.Stores ts ns ids) (hn : n ∈ ids) : p.hasNode n := by
  induction h with
  | nil => simp at hn
  | @cons t m k ops inner rest ts ns hm _ _ _ _ iho ihb ihr =>
    simp only [List.cons_append, List.mem_cons, List.mem_append] at hn
    rcases hn with rfl | (hn | hn) | hn
    · obtain ⟨node, hnode, _⟩ := Option.map_eq_some_iff.1 hm
      simp [Program.hasNode, hnode]
    · exact iho hn
    · exact ihb hn
    · exact ihr hn

/-- The declarations among the nodes of stored trees are those of the trees. -/
theorem Stores.filterMap_declared? (h : p.Stores ts ns ids) :
    ids.filterMap p.declared? = Tree.symbolsAll ts := by
  induction h with
  | nil => simp
  | @cons t m k ops inner rest ts ns hm hk _ _ _ iho ihb ihr =>
    have hd : p.declared? m = t.declared? := by
      rw [Program.declared?, kind?_eq_content?, hm, Tree.declared?, ← hk, NodeKind.declared?_blank]
      rfl
    have hcons : (m :: ops ++ inner ++ rest).filterMap p.declared? =
        t.declared?.toList ++ ((ops ++ inner ++ rest).filterMap p.declared?) := by
      rw [List.cons_append, List.cons_append, List.filterMap_cons, hd]
      cases t.declared? <;> rfl
    rw [hcons, List.filterMap_append, List.filterMap_append, iho, ihb, ihr, Tree.symbolsAll_cons,
      Tree.symbols_eq]
    simp

theorem Stores.mem_symbolsAll {s : SymbolId} (h : p.Stores ts ns ids) (hn : n ∈ ids)
    (hd : p.declared? n = some s) : s ∈ Tree.symbolsAll ts := by
  rw [← h.filterMap_declared?]
  exact List.mem_filterMap.2 ⟨n, hn, hd⟩

/-- With room for all of them, the nodes of stored trees come in pre-order. -/
theorem Stores.preorderFrom (h : p.Stores ts ns ids) (pending : List NodeId) (room : Nat) :
    p.preorderFrom (ids.length + room) (ns ++ pending) = ids ++ p.preorderFrom room pending := by
  induction h generalizing pending room with
  | nil => simp
  | @cons t m k ops inner rest ts ns hm _ ho hb hr iho ihb ihr =>
    have hkind : p.kind? m = some k := by simp [kind?_eq_content?, hm]
    have hall : ∀ n ∈ k.operands ++ p.body k, p.hasNode n := by
      intro n hn
      rcases List.mem_append.1 hn with hn | hn
      · exact ho.hasNode (ho.sublist.subset hn)
      · exact hb.hasNode (hb.sublist.subset hn)
    have hchildren : p.children m = k.operands ++ p.body k := by
      simp only [children, hkind]
      exact List.filter_eq_self.2 hall
    have hroom : (m :: ops ++ inner ++ rest).length + room =
        ops.length + (inner.length + (rest.length + room)) + 1 := by
      simp only [List.cons_append, List.length_cons, List.length_append]
      omega
    rw [hroom, List.cons_append, Program.preorderFrom, hchildren, List.append_assoc, iho, ihb, ihr]
    simp

theorem preorderFrom_nil (p : Program) (room : Nat) : p.preorderFrom room [] = [] := by
  cases room <;> rfl

/-- With room enough, a traversal meets exactly the nodes of the trees. -/
theorem Stores.preorderFrom_filter {room : Nat} (h : p.Stores ts ns ids)
    (hroom : ids.length ≤ room) : p.preorderFrom room (ns.filter p.hasNode) = ids := by
  have hfilter : ns.filter p.hasNode = ns :=
    List.filter_eq_self.2 fun n hn => h.hasNode (h.sublist.subset hn)
  obtain ⟨more, rfl⟩ := Nat.exists_eq_add_of_le hroom
  have hpre := h.preorderFrom [] more
  rw [preorderFrom_nil, List.append_nil, List.append_nil] at hpre
  rw [hfilter, hpre]

end Program
end Hoist
