import Hoist.Proofs.Performing

/-! What a run leaves alone, however it ends. -/
namespace Hoist

namespace Edit

open Program

variable {α β : Type} {x : Edit α} {p q : Program}

/-- The program that an edit leaves behind, also if it fails. -/
def leaves (x : Edit α) (p : Program) : Program :=
  match x p with
  | .ok _ q => q
  | .error _ q => q

theorem leaves_ok {a : α} (h : x p = .ok a q) : leaves x p = q := by
  simp [leaves, h]

theorem leaves_error {e : LinkError} (h : x p = .error e q) : leaves x p = q := by
  simp [leaves, h]

/-- However it ends, the edit changes nothing but lists. -/
def Relinks (x : Edit α) : Prop := ∀ p : Program, p.Relinked (leaves x p)

theorem relinks_pure (a : α) : Relinks (pure a : Edit α) := fun p => .refl p

theorem Relinks.bind {f : α → Edit β} (hx : Relinks x) (hf : ∀ a, Relinks (f a)) :
    Relinks (x >>= f) := by
  intro p
  have hp := hx p
  cases h : x p with
  | ok a q =>
    have hleaves : leaves (x >>= f) p = leaves (f a) q := by simp only [leaves, bind_ok h]
    rw [leaves_ok h] at hp
    rw [hleaves]
    exact hp.trans (hf a q)
  | error e q =>
    rw [leaves_error h] at hp
    rw [leaves_error (bind_error h)]
    exact hp

theorem relinks_node (n : NodeId) : Relinks (node n) := by
  intro p
  cases h : p.nodes[n]? with
  | none =>
    rw [leaves_error (node_error h)]
    exact .refl p
  | some _ =>
    rw [leaves_ok (node_ok h)]
    exact .refl p

theorem relinks_block (b : BlockId) : Relinks (block b) := by
  intro p
  cases h : p.blocks[b]? with
  | none =>
    rw [leaves_error (block_error h)]
    exact .refl p
  | some _ =>
    rw [leaves_ok (block_ok h)]
    exact .refl p

theorem relinks_relink (n : NodeId) (f : Link → Link) : Relinks (relink n f) :=
  (relinks_node n).bind fun _ p => relinked_relink p n f

theorem relinks_reshape (b : BlockId) (f : Block → Block) (hf : ∀ e, (f e).owner = e.owner) :
    Relinks (reshape b f) :=
  (relinks_block b).bind fun _ p => relinked_reshape p b f hf

theorem relinks_joinNext (b : BlockId) (prev next : Option NodeId) :
    Relinks (joinNext b prev next) := by
  cases prev with
  | none => exact relinks_reshape b _ fun _ => rfl
  | some n => exact relinks_relink n _

theorem relinks_joinPrev (b : BlockId) (prev next : Option NodeId) :
    Relinks (joinPrev b prev next) := by
  cases next with
  | none => exact relinks_reshape b _ fun _ => rfl
  | some n => exact relinks_relink n _

theorem relinks_detach (n : NodeId) : Relinks (detach n) := by
  refine (relinks_node n).bind fun entry => ?_
  obtain ⟨_, _, _ | b, prev, next⟩ := entry
  · exact relinks_pure none
  · refine (relinks_joinNext b prev next).bind fun _ => ?_
    refine (relinks_joinPrev b prev next).bind fun _ => ?_
    refine Relinks.bind (relinks_reshape b _ ?_) fun _ => ?_
    · exact fun _ => rfl
    · exact (relinks_relink n _).bind fun _ => relinks_pure _

theorem relinks_append (b : BlockId) (n : NodeId) : Relinks (append b n) := by
  refine (relinks_node n).bind fun entry => ?_
  obtain ⟨_, _, _ | current, _, _⟩ := entry
  · refine (relinks_block b).bind fun e => ?_
    have htail : Relinks (e.tail.forM fun last => relink last fun link =>
        { link with next := some n }) := by
      cases e.tail with
      | none => exact relinks_pure _
      | some last => exact relinks_relink last _
    refine htail.bind fun _ => ?_
    refine (relinks_relink n _).bind fun _ => ?_
    exact relinks_reshape b _ fun _ => rfl
  · exact fun p => .refl p

end Edit

open Edit in
theorem Move.relinks_perform (m : Move) : Relinks m.perform :=
  (relinks_detach m.definition).bind fun _ => relinks_append m.target m.definition

open Edit in
theorem Move.relinks_performAll (moves : List Move) : Relinks (Move.performAll moves) := by
  induction moves with
  | nil => exact relinks_pure ()
  | cons m moves ih => exact m.relinks_perform.bind fun _ => ih

namespace Program

variable {p q r : Program} {f : BlockId → List NodeId} {m : Move} {moves : List Move} {n : NodeId}
  {nodes D : List NodeId}

/-- Both programs list the nodes outside `D` in the same blocks and in the same order. -/
structure Spares (D : List NodeId) (p q : Program) : Prop where
  linked : q.Linked
  members : ∀ b, (q.members b).filter (· ∉ D) = (p.members b).filter (· ∉ D)

theorem Spares.trans (h : Spares D p q) (h' : Spares D q r) : Spares D p r where
  linked := h'.linked
  members b := (h'.members b).trans (h.members b)

/-- A node outside `D` is held by the same block. -/
theorem Spares.block?_eq (h : Spares D p q) (hp : p.Linked) (hn : n ∉ D) :
    q.block? n = p.block? n := by
  apply Option.ext
  intro b
  have hmem : n ∈ (q.members b).filter (· ∉ D) ↔ n ∈ (p.members b).filter (· ∉ D) := by
    rw [h.members]
  simpa [hn, h.linked.mem_members, hp.mem_members] using hmem

theorem filter_filter_ne (hn : n ∈ D) (l : List NodeId) :
    (l.filter (· ≠ n)).filter (· ∉ D) = l.filter (· ∉ D) := by
  rw [List.filter_filter]
  apply List.filter_congr
  intro k _
  by_cases hk : k = n
  · simp [hk, hn]
  · simp [hk]

/-- A move passes over every node but its definition, also if it is refused. -/
theorem Linked.spares_perform (hp : p.Linked) (hm : m.definition ∈ D) :
    Spares D p (Edit.leaves m.perform p) := by
  rcases hp.perform_cases m with ⟨_, q, hrun, hq⟩ | ⟨e, q, hrun, hrefuse⟩
  · rw [Edit.leaves_ok hrun]
    refine ⟨hq.linked, fun b => ?_⟩
    rw [hq.members, Move.place, List.filter_append, filter_filter_ne hm]
    by_cases hb : b = m.target
    · simp [hb, hm]
    · simp [hb]
  · rw [Edit.leaves_error hrun]
    cases hrefuse with
    | unknownNode => exact ⟨hp, fun _ => rfl⟩
    | unknownBlock _ _ _ _ hq =>
      refine ⟨hq.linked, fun b => ?_⟩
      rw [hq.members, filter_filter_ne hm]

theorem Linked.spares_performAll (hp : p.Linked) (hm : ∀ m ∈ moves, m.definition ∈ D) :
    Spares D p (Edit.leaves (Move.performAll moves) p) := by
  induction moves generalizing p with
  | nil => exact ⟨hp, fun _ => rfl⟩
  | cons m moves ih =>
    have hstep := hp.spares_perform (hm m (by simp))
    cases hrun : m.perform p with
    | error e q =>
      have hleaves : Edit.leaves (Move.performAll (m :: moves)) p = q :=
        Edit.leaves_error (bind_error hrun)
      rw [Edit.leaves_error hrun] at hstep
      rw [hleaves]
      exact hstep
    | ok _ q =>
      rw [Edit.leaves_ok hrun] at hstep
      have hrest := ih hstep.linked fun k hk => hm k (by simp [hk])
      have hleaves : Edit.leaves (Move.performAll (m :: moves)) p =
          Edit.leaves (Move.performAll moves) q := by
        simp only [Edit.leaves, Move.performAll, bind_ok hrun]
      rw [hleaves]
      exact hstep.trans hrest

/-- The definitions of the nested types that an enumeration hits. -/
def departing (p : Program) (nodes : List NodeId) : List NodeId :=
  (p.discover nodes).order.filterMap p.definition?

theorem mem_departing (hplan : p.plan (p.discover nodes) = .ok moves) (hm : m ∈ moves) :
    m.definition ∈ p.departing nodes := by
  obtain ⟨hsymbols, heach⟩ := mapM_planMove hplan
  have hs : m.symbol ∈ (p.discover nodes).order := by
    rw [← hsymbols]
    exact List.mem_map_of_mem hm
  exact List.mem_filterMap.2 ⟨m.symbol, hs, (planMove_eq_ok_iff.1 (heach m hm)).2.1⟩

/-- A run leaves the program as it is, or as the planned moves leave it. -/
theorem hoistNodes_leaves (p : Program) (options : HoistOptions) (nodes : List NodeId) :
    (p.hoistNodes options nodes).program = p ∨
      ∃ moves, p.plan (p.discover nodes) = .ok moves ∧
        (p.hoistNodes options nodes).program = Edit.leaves (Move.performAll moves) p := by
  have hends := p.hoistNodes_endsIn options nodes
  generalize (p.hoistNodes options nodes).result = result at hends
  generalize (p.hoistNodes options nodes).program = q at hends ⊢
  cases hends with
  | rejected => exact .inl rfl
  | unplanned => exact .inl rfl
  | stuck _ hplan hrun => exact .inr ⟨_, hplan, (Edit.leaves_error hrun).symm⟩
  | unsound _ hplan hrun => exact .inr ⟨_, hplan, (Edit.leaves_ok hrun).symm⟩
  | done _ hplan hrun => exact .inr ⟨_, hplan, (Edit.leaves_ok hrun).symm⟩

theorem hoistNodes_relinked (p : Program) (options : HoistOptions) (nodes : List NodeId) :
    p.Relinked (p.hoistNodes options nodes).program := by
  rcases p.hoistNodes_leaves options nodes with hsame | ⟨moves, _, hleaves⟩
  · rw [hsame]
    exact .refl p
  · rw [hleaves]
    exact Move.relinks_performAll moves p

theorem hoistNodes_spares (hp : p.Linked) (options : HoistOptions) (nodes : List NodeId) :
    Spares (p.departing nodes) p (p.hoistNodes options nodes).program := by
  rcases p.hoistNodes_leaves options nodes with hsame | ⟨moves, hplan, hleaves⟩
  · rw [hsame]
    exact ⟨hp, fun _ => rfl⟩
  · rw [hleaves]
    exact hp.spares_performAll fun m hm => mem_departing hplan hm

theorem Relinked.blocks_size (h : p.Relinked q) : q.blocks.size = p.blocks.size :=
  Table.size_eq_of_isSome h.isSome_block

/-- However a run ends, it has changed nothing but links and lists. If the blocks are lists, every
node that defines no nested type of the enumeration keeps its block and its order there. -/
theorem hoistNodes_only_moves (p : Program) (options : HoistOptions) (nodes : List NodeId) :
    let q := (p.hoistNodes options nodes).program
    (q.nodes.size = p.nodes.size ∧ q.blocks.size = p.blocks.size ∧
      (∀ n, q.content? n = p.content? n) ∧ (∀ b, q.owner? b = p.owner? b) ∧
      q.symbols = p.symbols ∧ q.roots = p.roots) ∧
    (p.checkBlocks = [] →
      (∀ n, n ∉ p.departing nodes → q.block? n = p.block? n) ∧
      ∀ b, (q.members b).filter (· ∉ p.departing nodes) =
        (p.members b).filter (· ∉ p.departing nodes)) := by
  intro q
  have hq : p.Relinked q := p.hoistNodes_relinked options nodes
  refine ⟨⟨hq.nodes_size, hq.blocks_size, hq.content, hq.owner, hq.symbols, hq.roots⟩, ?_⟩
  intro hcheck
  have hp := checkBlocks_eq_nil_iff.1 hcheck
  have hspares : Spares (p.departing nodes) p q := hoistNodes_spares hp options nodes
  exact ⟨fun n hn => hspares.block?_eq hp hn, hspares.members⟩

/-- The run comes to a body that does not exist, after it has taken a type out of its list. -/
theorem hoistNodes_only_moves_bodiless :
    bodiless.checkBlocks = [] ∧
    (bodiless.hoistNodes {} [⟨3⟩]).result = .error (.link (.unknownBlock ⟨9⟩)) ∧
    bodiless.departing [⟨3⟩] = [⟨3⟩] ∧
    (∀ n, n ∉ bodiless.departing [⟨3⟩] →
      (bodiless.hoistNodes {} [⟨3⟩]).program.block? n = bodiless.block? n) ∧
    (bodiless.hoistNodes {} [⟨3⟩]).program.block? ⟨3⟩ = none := by
  have hcheck : bodiless.checkBlocks = [] := by decide
  refine ⟨hcheck, by decide, by decide, ?_, by decide⟩
  exact ((bodiless.hoistNodes_only_moves {} [⟨3⟩]).2 hcheck).1

end Program
end Hoist
