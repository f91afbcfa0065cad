import Mathlib.Data.Finmap
import Hoist.Proofs.Environment

/-! The resolver behaves as a stack of finite maps. -/
namespace Hoist

/-- Some names and the symbols that they stand for. -/
abbrev Names := Finmap fun _ : String => SymbolId

/-- The maps of the open scopes, and every symbol there is. -/
structure ScopeStack where
  root : Names := ∅
  /-- The maps above the root, the topmost first. -/
  above : List Names := []
  symbols : List Symbol := []

namespace ScopeStack

variable (st : ScopeStack)

def maps : List Names := st.above ++ [st.root]

def top : Names := st.above.headD st.root

/-- Searches the maps from the top. -/
def find? (name : String) : Option SymbolId := st.maps.findSome? (·.lookup name)

def enter : ScopeStack := { st with above := ∅ :: st.above }

/-- The map of the root stays. -/
def leave : ScopeStack := { st with above := st.above.tail }

def nextId : SymbolId := ⟨st.symbols.length⟩

def hide (sig : Signature) : SymbolId × ScopeStack :=
  (st.nextId, { st with symbols := st.symbols ++ [sig.symbol st.nextId] })

def bind (name : String) (s : SymbolId) : ScopeStack :=
  match st.above with
  | [] => { st with root := st.root.insert name s }
  | names :: rest => { st with above := names.insert name s :: rest }

def declare (sig : Signature) : Declared × ScopeStack :=
  match st.top.lookup sig.name.name with
  | some s => (.duplicate s, st)
  | none =>
    let (s, st) := st.hide sig
    (.fresh s, st.bind sig.name.name s)

def define (s : SymbolId) (n : NodeId) : ScopeStack :=
  { st with symbols := st.symbols.modify s.index fun entry => { entry with definition := some n } }

variable {st} in
theorem declare_eq {sig : Signature} (htop : st.top.lookup sig.name.name = none) :
    st.declare sig = (.fresh st.nextId, (st.hide sig).2.bind sig.name.name st.nextId) := by
  simp [declare, htop, hide]

/-- Binding a name changes the topmost map only. -/
theorem maps_eq : ∃ rest, st.maps = st.top :: rest ∧
    ∀ name s, (st.bind name s).maps = st.top.insert name s :: rest := by
  cases habove : st.above with
  | nil => exact ⟨[], by simp [maps, top, habove], fun name s => by simp [maps, top, bind, habove]⟩
  | cons names above =>
    refine ⟨above ++ [st.root], by simp [maps, top, habove], fun name s => ?_⟩
    simp [maps, top, bind, habove]

theorem find?_bind (name : String) (s : SymbolId) (other : String) :
    (st.bind name s).find? other = if other = name then some s else st.find? other := by
  obtain ⟨rest, hmaps, hbind⟩ := st.maps_eq
  rw [find?, find?, hbind, hmaps, List.findSome?_cons, List.findSome?_cons]
  by_cases hname : other = name
  · subst hname
    simp
  · simp [hname]

@[simp] theorem symbols_bind (name : String) (s : SymbolId) :
    (st.bind name s).symbols = st.symbols := by
  unfold bind
  split <;> rfl

end ScopeStack

namespace Resolver

/-- A step that changes a resolver. -/
inductive Step
  | enter
  | leave
  | declare (sig : Signature)
  | hide (sig : Signature)
  | define (s : SymbolId) (n : NodeId)

/-- What a step says about symbols. -/
inductive Reply
  | none
  | declared (outcome : Declared)
  | hidden (s : SymbolId)
  deriving DecidableEq, Repr

def respond (r : Resolver) : Step → Reply × Resolver
  | .enter => (.none, r.enter.2)
  | .leave => (.none, r.leave.2)
  | .declare sig => (.declared (r.declare sig).1, (r.declare sig).2)
  | .hide sig => (.hidden (r.hide sig).1, (r.hide sig).2)
  | .define s n => (.none, r.define s n)

end Resolver

def ScopeStack.respond (st : ScopeStack) : Resolver.Step → Resolver.Reply × ScopeStack
  | .enter => (.none, st.enter)
  | .leave => (.none, st.leave)
  | .declare sig => (.declared (st.declare sig).1, (st.declare sig).2)
  | .hide sig => (.hidden (st.hide sig).1, (st.hide sig).2)
  | .define s n => (.none, st.define s n)

/-- The map has exactly the names that the frame declares. -/
def Names.Shows (names : Names) (frame : Frame) : Prop :=
  ∀ name, names.lookup name = (frame.declaration? name).map Declaration.symbol

theorem Names.Shows.insert {names : Names} {frame : Frame} {d : Declaration}
    (h : names.Shows frame) (hd : names.lookup d.sig.name.name = none) :
    Names.Shows (names.insert d.sig.name.name d.symbol) (frame ++ [d]) := by
  intro name
  rw [Frame.declaration?_append]
  by_cases hname : name = d.sig.name.name
  · subst hname
    have hnone : frame.declaration? d.sig.name.name = none := by
      simpa [hd] using (h d.sig.name.name).symm
    simp [hnone]
  · rw [Finmap.lookup_insert_of_ne _ hname, h name, if_neg (Ne.symm hname), Option.or_none]

namespace Resolver

variable {r : Resolver} {st : ScopeStack} {frame : Frame} {env : Environment} {name : String}

/-- The search from a scope outwards, with no bound on how many scopes it looks at. -/
inductive Searches (r : Resolver) (name : String) : Option ScopeId → Option SymbolId → Prop
  | nowhere : Searches r name none none
  | unknown {id : ScopeId} (entry : r.scopes[id]? = none) : Searches r name (some id) none
  | here {id : ScopeId} {scope : Scope} {s : SymbolId} (entry : r.scopes[id]? = some scope)
    (hs : scope.names.lookup name = some s) : Searches r name (some id) (some s)
  | outwards {id : ScopeId} {scope : Scope} {found : Option SymbolId}
    (entry : r.scopes[id]? = some scope) (hs : scope.names.lookup name = none)
    (hr : Searches r name scope.parent found) : Searches r name (some id) found

theorem Searches.unique {start : Option ScopeId} {found found' : Option SymbolId}
    (h : r.Searches name start found) (h' : r.Searches name start found') : found = found' := by
  induction h with
  | nowhere => cases h'; rfl
  | unknown entry => cases h' <;> simp_all
  | here entry hs => cases h' <;> simp_all
  | outwards entry hs _ ih =>
    cases h' with
    | unknown entry' => simp [entry] at entry'
    | here entry' hs' =>
      obtain rfl : _ = _ := Option.some.inj (entry.symm.trans entry')
      simp [hs] at hs'
    | outwards entry' _ hr' =>
      obtain rfl : _ = _ := Option.some.inj (entry.symm.trans entry')
      exact ih hr'

/-- The search through open scopes ends, since each of them leads to the next one out. -/
theorem Opens.searches {ids : List ScopeId} (h : Opens r.scopes ids env) (name : String) :
    r.Searches name ids.head? (env.symbol? name) := by
  induction h with
  | nil => exact .nowhere
  | @cons id ids frame env scope entry parent older binds outer ih =>
    have hbinds := binds name
    simp only [Environment.symbol?, Environment.declaration?, List.findSome?_cons, List.head?_cons]
    cases hd : frame.declaration? name with
    | some d =>
      rw [hd] at hbinds
      exact .here entry hbinds
    | none =>
      rw [hd] at hbinds
      exact .outwards entry hbinds (parent ▸ ih)

theorem Sees.searches (h : r.Sees env) (name : String) :
    r.Searches name (some r.current) (env.symbol? name) := by
  obtain ⟨ids, hids⟩ := r.open_eq
  have hsearch := h.opens.searches name
  rw [hids] at hsearch
  exact hsearch

theorem Opens.length_eq {scopes : Table .scope Scope} {ids : List ScopeId}
    (h : Opens scopes ids env) : ids.length = env.length := by
  induction h with
  | nil => rfl
  | cons _ _ _ _ _ _ ih => simp [ih]

/-- The open scopes of the resolver are the maps of the stack, and both have the same symbols. -/
structure Models (r : Resolver) (st : ScopeStack) : Prop where
  sees : ∃ env, r.Sees env ∧ List.Forall₂ Names.Shows st.maps env
  symbols : r.symbols.toList = st.symbols

theorem models_init : init.Models {} where
  sees := ⟨[[]], sees_init, .cons (fun _ => rfl) .nil⟩
  symbols := rfl

theorem symbol?_eq {maps : List Names} (h : List.Forall₂ Names.Shows maps env) (name : String) :
    env.symbol? name = maps.findSome? (·.lookup name) := by
  induction h with
  | nil => rfl
  | @cons names frame maps env hn _ ih =>
    simp only [Environment.symbol?, Environment.declaration?, List.findSome?_cons, hn name] at ih ⊢
    cases frame.declaration? name with
    | some d => rfl
    | none => exact ih

section Models

variable (h : r.Models st)

include h

theorem Models.searches (name : String) : r.Searches name (some r.current) (st.find? name) := by
  obtain ⟨env, hsees, hmaps⟩ := h.sees
  rw [ScopeStack.find?, ← symbol?_eq hmaps]
  exact hsees.searches name

theorem Models.find?_eq (name : String) : r.find? name = st.find? name := by
  obtain ⟨env, hsees, hmaps⟩ := h.sees
  rw [ScopeStack.find?, ← symbol?_eq hmaps]
  exact hsees.find?_eq name

theorem Models.nextId_eq : r.symbols.nextId = st.nextId := by
  rw [Table.nextId_eq_length, h.symbols, ScopeStack.nextId]

theorem Models.bound?_eq (name : String) : r.bound? name = st.top.lookup name := by
  obtain ⟨env, hsees, hmaps⟩ := h.sees
  obtain ⟨rest, htop, -⟩ := st.maps_eq
  rw [htop] at hmaps
  cases hmaps with
  | cons hn _ => rw [hsees.bound?_eq, hn name]

theorem Models.enter : r.enter.2.Models st.enter := by
  obtain ⟨env, hsees, hmaps⟩ := h.sees
  exact ⟨⟨[] :: env, hsees.enter, .cons (fun _ => rfl) hmaps⟩, h.symbols⟩

theorem Models.length_eq : r.entered.length = st.above.length := by
  obtain ⟨env, hsees, hmaps⟩ := h.sees
  have hopen := hsees.opens.length_eq
  have hlen := hmaps.length_eq
  simp only [ScopeStack.maps, List.length_append, List.length_singleton] at hopen hlen
  omega

/-- Both leave a scope, or both are at the root. -/
theorem Models.leave : r.leave.2.Models st.leave := by
  have hlen := h.length_eq
  cases hr : r.entered with
  | nil =>
    have habove : st.above = [] := by
      rw [hr] at hlen
      exact List.length_eq_zero_iff.1 hlen.symm
    have hsame : st.leave = st := by
      cases st
      simp_all [ScopeStack.leave]
    simpa [Resolver.leave, hr, hsame] using h
  | cons id rest =>
    cases habove : st.above with
    | nil => simp [hr, habove] at hlen
    | cons names above =>
      obtain ⟨env, hsees, hmaps⟩ := h.sees
      have hpop : st.maps = names :: st.leave.maps := by
        simp [ScopeStack.maps, ScopeStack.leave, habove]
      rw [hpop] at hmaps
      cases hmaps with
      | @cons _ frame _ env _ hrest =>
        have hne : env ≠ [] := by
          rintro rfl
          have hnil := hrest.length_eq
          simp [ScopeStack.maps] at hnil
        have hsymbols : r.leave.2.symbols = r.symbols := by simp [Resolver.leave, hr]
        exact ⟨⟨env, hsees.leave hne, hrest⟩, hsymbols ▸ h.symbols⟩

theorem Models.hide (sig : Signature) : (r.hide sig).2.Models (st.hide sig).2 := by
  obtain ⟨env, hsees, hmaps⟩ := h.sees
  refine ⟨⟨env, hsees.hide sig, hmaps⟩, ?_⟩
  simp [Resolver.hide, ScopeStack.hide, Table.toList_push, h.symbols, h.nextId_eq]

theorem Models.define (s : SymbolId) (n : NodeId) : (r.define s n).Models (st.define s n) := by
  obtain ⟨env, hsees, hmaps⟩ := h.sees
  refine ⟨⟨env, hsees.define s n, hmaps⟩, ?_⟩
  simp [Resolver.define, Symbols.define, ScopeStack.define, Table.toList_modify, h.symbols]

theorem Models.declare (sig : Signature) :
    (r.declare sig).1 = (st.declare sig).1 ∧ (r.declare sig).2.Models (st.declare sig).2 := by
  have hbound := h.bound?_eq sig.name.name
  cases htop : st.top.lookup sig.name.name with
  | some s =>
    rw [htop] at hbound
    simp only [Resolver.declare, ScopeStack.declare, hbound, htop]
    exact ⟨trivial, h⟩
  | none =>
    rw [htop] at hbound
    have hr : r.declare sig =
        (.fresh st.nextId, (r.hide sig).2.bind sig.name.name st.nextId) := by
      simp [Resolver.declare, hbound, Resolver.hide, h.nextId_eq]
    obtain ⟨env, hsees, hmaps⟩ := h.sees
    obtain ⟨rest, hpop, hbind⟩ := (st.hide sig).2.maps_eq
    -- hiding a symbol leaves the maps alone
    change st.maps = st.top :: rest at hpop
    rw [hpop] at hmaps
    cases hmaps with
    | @cons _ frame _ env hn hrest =>
      have hsees := hsees.declare hbound
      rw [h.nextId_eq, hr] at hsees
      have hmaps : List.Forall₂ Names.Shows
          ((st.hide sig).2.bind sig.name.name st.nextId).maps
          ((frame ++ [⟨sig, st.nextId⟩]) :: env) := by
        rw [hbind]
        exact .cons (hn.insert (d := ⟨sig, st.nextId⟩) htop) hrest
      rw [hr, ScopeStack.declare_eq htop]
      refine ⟨rfl, ⟨_, hsees, hmaps⟩, ?_⟩
      rw [ScopeStack.symbols_bind]
      exact (h.hide sig).symbols

/-- A name that the topmost map has is a duplicate, and declaring it changes nothing. -/
theorem Models.declare_duplicate {sig : Signature} {s : SymbolId}
    (htop : st.top.lookup sig.name.name = some s) : r.declare sig = (.duplicate s, r) := by
  have hbound := h.bound?_eq sig.name.name
  simp [Resolver.declare, hbound, htop]

/-- Any other name stands for the next symbol from now on. -/
theorem Models.declare_fresh {sig : Signature} (htop : st.top.lookup sig.name.name = none) :
    (r.declare sig).1 = .fresh st.nextId ∧ ∀ name, (r.declare sig).2.find? name =
      if name = sig.name.name then some st.nextId else st.find? name := by
  obtain ⟨hreply, hnext⟩ := h.declare sig
  rw [ScopeStack.declare_eq htop] at hreply hnext
  refine ⟨hreply, fun name => ?_⟩
  rw [hnext.find?_eq, ScopeStack.find?_bind]
  rfl

/-- One step: the same reply, and the stack still models the resolver. -/
theorem Models.respond (step : Step) :
    (r.respond step).1 = (st.respond step).1 ∧
      (r.respond step).2.Models (st.respond step).2 := by
  cases step with
  | enter => exact ⟨rfl, h.enter⟩
  | leave => exact ⟨rfl, h.leave⟩
  | declare sig => exact ⟨congrArg Reply.declared (h.declare sig).1, (h.declare sig).2⟩
  | hide sig => exact ⟨congrArg Reply.hidden h.nextId_eq, h.hide sig⟩
  | define s n => exact ⟨rfl, h.define s n⟩

end Models

/-- Whatever steps are taken, the resolver replies as the stack of maps does, and each search ends
and finds what the stack finds from the top. -/
theorem run_steps_models (steps : List Step) :
    ∃ replies r st, answerAll Resolver.respond init steps = (replies, r) ∧
      answerAll ScopeStack.respond {} steps = (replies, st) ∧ r.symbols.toList = st.symbols ∧
      (∀ name, (∀ found, r.Searches name (some r.current) found ↔ found = st.find? name) ∧
        r.find? name = st.find? name) ∧
      (∀ sig, match st.top.lookup sig.name.name with
        | some s => r.declare sig = (.duplicate s, r)
        | none => (r.declare sig).1 = .fresh st.nextId ∧ ∀ name, (r.declare sig).2.find? name =
            if name = sig.name.name then some st.nextId else st.find? name) ∧
      ∀ sig, (r.hide sig).1 = st.nextId ∧ ∀ name, (r.hide sig).2.find? name = st.find? name := by
  obtain ⟨hreplies, h⟩ := answerAll_related (fun _ _ step h => h.respond step) models_init steps
  refine ⟨_, _, _, rfl, Prod.ext hreplies.symm rfl, h.symbols, fun name => ⟨fun found => ?_, ?_⟩,
    fun sig => ?_, fun sig => ⟨h.nextId_eq, fun name => (h.hide sig).find?_eq name⟩⟩
  · constructor
    · exact fun hfound => hfound.unique (h.searches name)
    · rintro rfl
      exact h.searches name
  · exact h.find?_eq name
  · split
    · next htop => exact h.declare_duplicate htop
    · next htop => exact h.declare_fresh htop

end Resolver
end Hoist
