import Hoist.Proofs.Destination

/-! Hoisting said of trees. -/
namespace Hoist.Tree

def isType (t : Tree) : Bool := t.blank.typeDef?.isSome

mutual

/-- The tree once every type that stands in a type has left it. -/
def hoisted : Tree → Tree
  | .module s span body => .module s span (keep false body ++ lift false body)
  | .typeDef s span aggregate body => .typeDef s span aggregate (keep true body)
  | .function s span params result body => .function s span params result (keep false body)
  | t => t

/-- What remains of a body. Types leave it if it is the body of a type. -/
def keep (inType : Bool) : List Tree → List Tree
  | [] => []
  | t :: ts => if inType && t.isType then keep inType ts else t.hoisted :: keep inType ts

/-- The types that leave a tree for the module around it, in pre-order. -/
def leaving : Tree → List Tree
  | .typeDef _ _ _ body => lift true body
  | .function _ _ _ _ body => lift false body
  | _ => []

/-- The types that leave a body, in pre-order. -/
def lift (inType : Bool) : List Tree → List Tree
  | [] => []
  | t :: ts => (if inType && t.isType then [t.hoisted] else []) ++ t.leaving ++ lift inType ts

end

mutual

/-- The symbols of the types that stand in another type within a tree, in pre-order. -/
def nested : Tree → List SymbolId
  | .module _ _ body => nestedIn false body
  | .typeDef _ _ _ body => nestedIn true body
  | .function _ _ _ _ body => nestedIn false body
  | _ => []

def nestedIn (inType : Bool) : List Tree → List SymbolId
  | [] => []
  | t :: ts => (if inType then t.blank.typeDef?.toList else []) ++ t.nested ++ nestedIn inType ts

end

def isModule (t : Tree) : Bool := t.blank.moduleBody?.isSome

theorem hoisted_blank (t : Tree) : t.hoisted.blank = t.blank := by
  cases t <;> simp [hoisted, blank]

theorem hoisted_span (t : Tree) : t.hoisted.span = t.span := by
  cases t <;> simp [hoisted, span]

theorem hoisted_operands (t : Tree) : t.hoisted.operands = t.operands := by
  cases t <;> simp [hoisted, operands]

theorem hoisted_contents (t : Tree) : t.hoisted.contents =
    keep t.isType t.contents ++ if t.isModule then lift t.isType t.contents else [] := by
  cases t <;> simp [hoisted, contents, isType, isModule, blank, NodeKind.typeDef?,
    NodeKind.moduleBody?, keep]

theorem leaving_eq (t : Tree) :
    t.leaving = if t.isModule then [] else lift t.isType t.contents := by
  cases t <;> simp [leaving, contents, isType, isModule, blank, NodeKind.typeDef?,
    NodeKind.moduleBody?, lift]

theorem nested_eq (t : Tree) : t.nested = nestedIn t.isType t.contents := by
  cases t <;> simp [nested, contents, isType, blank, NodeKind.typeDef?, nestedIn]

/-- What has no body stays as it is. -/
theorem hoisted_of_leaf {t : Tree} (h : t.blank.body? = none) :
    t.hoisted = t ∧ t.leaving = [] ∧ t.nested = [] := by
  cases t <;> simp_all [hoisted, leaving, nested, blank, NodeKind.body?]

theorem keep_eq_map (ts : List Tree) : keep false ts = ts.map hoisted := by
  induction ts with
  | nil => simp [keep]
  | cons t ts ih => simp [keep, ih]

theorem nestedIn_eq_flatMap (ts : List Tree) : nestedIn false ts = ts.flatMap nested := by
  induction ts with
  | nil => simp [nestedIn]
  | cons t ts ih => simp [nestedIn, ih]

end Hoist.Tree

namespace Hoist.Program

def isTypeDef (p : Program) (n : NodeId) : Bool := (p.kind? n).any (·.typeDef?.isSome)

/-- The body of a node after some moves. A module gets what moves there, a type loses the types
among its members, and a function keeps its statements. -/
def bodyAfter (p : Program) (moves : List Move) : NodeKind → List NodeId
  | .module _ b => p.members b ++ (moves.filter (·.target = b)).map Move.definition
  | .typeDef _ _ b => (p.members b).filter fun m => !p.isTypeDef m
  | .function _ _ _ b => p.members b
  | _ => []

variable {p q : Program} {n m x : NodeId} {b d : BlockId} {k : NodeKind} {s c r : SymbolId}
  {ts us : List Tree} {ns ids all : List NodeId} {inType : Bool}

/-- The body of a node of stored trees is stored with them. -/
theorem Stores.mem_body (h : p.Stores ts ns ids) (hn : n ∈ ids) (hk : p.kind? n = some k)
    (hm : m ∈ p.body k) : m ∈ ids := by
  induction h with
  | nil => simp at hn
  | @cons t x k' ops inner rest ts ns hx _ _ hcont _ iho ihb ihr =>
    simp only [List.cons_append, List.mem_cons, List.mem_append] at hn ⊢
    rcases hn with rfl | (hn | hn) | hn
    · obtain rfl : k' = k := by simpa [kind?_eq_content?, hx] using hk
      exact .inr (.inl (.inr (hcont.sublist.subset hm)))
    · exact .inr (.inl (.inl (iho hn)))
    · exact .inr (.inl (.inr (ihb hn)))
    · exact .inr (.inr (ihr hn))

theorem Stores.eq_nil (h : p.Stores ts [] ids) : ts = [] ∧ ids = [] := by
  cases h
  exact ⟨rfl, rfl⟩

/-- What is no body and stands in none has no node with a body below it. -/
theorem Stores.not_hasBody (h : p.Stores ts ns ids) (hr : Tree.Regular p.symbols false ts)
    (hn : n ∈ ids) : ¬ p.hasBody n := by
  induction h with
  | nil => simp at hn
  | @cons t x k ops inner rest ts ns hx hblank _ hcont _ iho _ ihr =>
    rcases hr with _ | ⟨hbody, _, hro, _, hrest⟩
    simp only [List.cons_append, List.mem_cons, List.mem_append] at hn
    have hkb : k.body? = none := by
      have hsome := NodeKind.isSome_body?_blank k
      rw [hblank, hbody rfl] at hsome
      simpa using hsome.symm
    rcases hn with rfl | (hn | hn) | hn
    · simp [hasBody, kind?_eq_content?, hx, hkb]
    · exact iho hro hn
    · have hempty : p.body k = [] := by simp [body, hkb]
      rw [hempty] at hcont
      simp [hcont.eq_nil.2] at hn
    · exact ihr hrest hn

theorem Formed.mem_body_of_parent? (hp : p.Formed) (h : p.parent? m = some n) :
    ∃ k, p.kind? n = some k ∧ m ∈ p.body k := by
  obtain ⟨b, hb, hpar⟩ := Option.bind_eq_some_iff.1 h
  obtain ⟨e, he, ho⟩ := Option.bind_eq_some_iff.1 hpar
  obtain ⟨n', k, hn', hk, hkb⟩ := hp.blocks b e.owner (by simp [owner?, he])
  obtain rfl : n = n' := by simpa [ho] using hn'
  exact ⟨k, hk, by simpa [body, hkb] using hp.linked.mem_members.2 hb⟩

theorem Formed.eq_of_body {k' : NodeKind} (hp : p.Formed) (hn : p.kind? n = some k)
    (hm : p.kind? m = some k') (hb : k.body? = some b) (hb' : k'.body? = some b) : n = m := by
  simpa [hp.bodies n k b hn hb] using hp.bodies m k' b hm hb'

theorem nested?_of_not_type (hk : p.kind? n = some k) (ht : k.typeDef? = none) :
    p.nested? n = none := by
  simp [nested?, hk, ht]

theorem exists_module_of_dest? (h : p.dest? n = some b) :
    ∃ s r m s', p.nested? n = some s ∧ p.module? s = some r ∧ p.definition? r = some m ∧
      p.kind? m = some (.module s' b) := by
  obtain ⟨s, hs, h⟩ := Option.bind_eq_some_iff.1 h
  obtain ⟨r, hr, h⟩ := Option.bind_eq_some_iff.1 h
  obtain ⟨m, s', hm, hk⟩ := moduleBody?_eq_some_iff.1 h
  exact ⟨s, r, m, s', hs, hr, hm, hk⟩

/-- Nothing below an operand moves. -/
theorem Stores.nested?_eq_none (hs : p.Stores ts ns ids) (hr : Tree.Regular p.symbols false ts)
    (hn : n ∈ ids) : p.nested? n = none := by
  by_contra hne
  obtain ⟨s, hnest⟩ := Option.ne_none_iff_exists'.1 hne
  exact hs.not_hasBody hr hn (hasBody_of_nested? hnest)

theorem Stores.filter_dest?_eq_nil (hs : p.Stores ts ns ids)
    (hr : Tree.Regular p.symbols false ts) : ids.filter (p.dest? · = some d) = [] := by
  refine List.filter_eq_nil_iff.2 fun n hn hdest => ?_
  simp [dest?_of_nested? (hs.nested?_eq_none hr hn)] at hdest

/-- What arrives at a block from a tree and the trees after it. -/
theorem Stores.filter_dest?_cons (hs : p.Stores ts ns ids) (hr : Tree.Regular p.symbols false ts)
    (inner rest : List NodeId) :
    (x :: ids ++ inner ++ rest).filter (p.dest? · = some d) =
      (if p.dest? x = some d then [x] else []) ++ inner.filter (p.dest? · = some d) ++
        rest.filter (p.dest? · = some d) := by
  rw [List.filter_append, List.filter_append, List.filter_cons, hs.filter_dest?_eq_nil hr]
  by_cases hx : p.dest? x = some d <;> simp [hx]

theorem Stores.filterMap_nested?_cons (hs : p.Stores ts ns ids)
    (hr : Tree.Regular p.symbols false ts) (inner rest : List NodeId) :
    (x :: ids ++ inner ++ rest).filterMap p.nested? =
      (p.nested? x).toList ++ inner.filterMap p.nested? ++ rest.filterMap p.nested? := by
  have hnone : ids.filterMap p.nested? = [] :=
    List.filterMap_eq_nil_iff.2 fun n hn => hs.nested?_eq_none hr hn
  rw [List.filterMap_append, List.filterMap_append, List.filterMap_cons, hnone]
  cases p.nested? x <;> rfl

/-- Where there are no bodies, what the lists hold does not matter. -/
theorem Stores.relinked (hs : p.Stores ts ns ids) (hr : Tree.Regular p.symbols false ts)
    (hq : p.Relinked q) : q.Stores ts ns ids := by
  refine hs.congr (fun n _ => hq.content n) fun n hn k b hk hb => ?_
  exact (hs.not_hasBody hr hn (by simp [hasBody, hk, hb])).elim

/-- A tree is stored hoisted as soon as its body is. -/
theorem Stores.hoisted {t : Tree} {ops js : List NodeId} (hq : p.Relinked q)
    (hx : p.content? x = some (k, t.span)) (hblank : k.blank = t.blank)
    (hops : p.Stores t.operands k.operands ops) (hro : Tree.Regular p.symbols false t.operands)
    (hbody : q.Stores t.hoisted.contents (q.body k) js) :
    q.Stores [t.hoisted] [x] (x :: ops ++ js) := by
  have hqx : q.content? x = some (k, t.hoisted.span) := by rw [hq.content, hx, Tree.hoisted_span]
  have hqblank : k.blank = t.hoisted.blank := by rw [Tree.hoisted_blank, hblank]
  have hqops : q.Stores t.hoisted.operands k.operands ops := by
    rw [Tree.hoisted_operands]
    exact hops.relinked hro hq
  simpa using Stores.cons hqx hqblank hqops hbody .nil

/-- A tree that stays comes before what stays after it, one that leaves before what leaves it. -/
theorem Stores.hoisted_cons {t : Tree} {out out' js₁ js₂ ks₁ ks₂ : List NodeId}
    (hdest : p.dest? x = if inType && t.isType then some d else none)
    (hnest : p.nested? x = none ↔ (inType && t.isType) = false)
    (h₁ : q.Stores [t.hoisted] [x] js₁) (h₂ : q.Stores t.leaving out js₂)
    (hr₁ : q.Stores (Tree.keep inType ts) (ns.filter (p.nested? · = none)) ks₁)
    (hr₂ : q.Stores (Tree.lift inType ts) out' ks₂) :
    ∃ ls₁ ls₂, q.Stores (Tree.keep inType (t :: ts)) ((x :: ns).filter (p.nested? · = none)) ls₁ ∧
      q.Stores (Tree.lift inType (t :: ts))
        ((if p.dest? x = some d then [x] else []) ++ out ++ out') ls₂ ∧
      (ls₁ ++ ls₂).Perm (js₁ ++ js₂ ++ (ks₁ ++ ks₂)) := by
  rw [Tree.keep, Tree.lift]
  cases hleave : inType && t.isType with
  | true =>
    have hx : p.dest? x = some d := by simp [hdest, hleave]
    have hne : p.nested? x ≠ none := by simp [hnest, hleave]
    refine ⟨ks₁, js₁ ++ js₂ ++ ks₂, ?_, ?_, ?_⟩
    · rw [if_pos rfl, List.filter_cons_of_neg (by simpa using hne)]
      exact hr₁
    · rw [if_pos rfl, if_pos hx]
      exact (h₁.append h₂).append hr₂
    · refine List.perm_iff_count.2 fun a => ?_
      simp only [List.count_append]
      omega
  | false =>
    have hx : p.dest? x = none := by simp [hdest, hleave]
    refine ⟨js₁ ++ ks₁, js₂ ++ ks₂, ?_, ?_, ?_⟩
    · rw [if_neg Bool.false_ne_true, List.filter_cons_of_pos (by simpa using hnest.2 hleave)]
      exact h₁.append hr₁
    · rw [if_neg Bool.false_ne_true, if_neg (by simp [hx])]
      exact h₂.append hr₂
    · refine List.perm_iff_count.2 fun a => ?_
      simp only [List.count_append]
      omega

/-- None of the nodes has the body `d`. -/
def Outside (p : Program) (d : BlockId) (ids : List NodeId) : Prop :=
  ∀ n ∈ ids, ∀ k, p.kind? n = some k → k.body? ≠ some d

theorem Outside.mono {js : List NodeId} (h : p.Outside d ids) (hsub : js ⊆ ids) :
    p.Outside d js :=
  fun n hn => h n (hsub hn)

/-- Below a module none has the module's body, and below anything else none has the outer one. -/
theorem Outside.below (h : p.Outside d ids) (hp : p.Formed) (hk : p.kind? n = some k)
    (hn : n ∉ ids) : p.Outside (k.moduleBody?.getD d) ids := by
  cases hmb : k.moduleBody? with
  | none => exact h
  | some b =>
    intro m hm k' hk' hb
    obtain ⟨s, rfl⟩ := NodeKind.eq_module_of_moduleBody? hmb
    obtain rfl := hp.eq_of_body hk hk' rfl hb
    exact hn hm

section Holds

variable (h : p.Holds us all)

include h

/-- Where a node stands decides where what is in its body stands. -/
theorem Holds.stands_below (hk : p.kind? n = some k) (hs : p.IsModule n ∨ p.Stands n inType d)
    (hm : m ∈ p.body k) : p.Stands m k.typeDef?.isSome (k.moduleBody?.getD d) :=
  h.formed.stands_body h.declared hk (h.kinded hk) (fun _ => hs) hm

/-- Where a node stands decides whether it is nested and where it goes. -/
theorem Holds.nested?_of_stands (hn : p.kind? n = some k)
    (hs : p.IsModule n ∨ p.Stands n inType d) :
    p.nested? n = (if inType then k.typeDef? else none) ∧
      p.dest? n = if inType && k.typeDef?.isSome then some d else none := by
  cases ht : k.typeDef? with
  | none =>
    have hnest := nested?_of_not_type hn ht
    simp [hnest, dest?_of_nested? hnest]
  | some s =>
    obtain ⟨aggregate, b, rfl⟩ : ∃ aggregate b, k = .typeDef s aggregate b := by
      cases k <;> simp_all [NodeKind.typeDef?]
    rcases hs with ⟨s', b', hmod⟩ | hs
    · simp [hn] at hmod
    · have hdef := h.declared n s (by simp [Program.declared?, hn, NodeKind.declared?])
      obtain ⟨r, hr, hbody⟩ := hs.module? hdef
      obtain ⟨c, _, hc, htype, _⟩ := hs
      have hs := (h.kinded hn).isType (s := s) rfl
      have houter : p.outer? s = some c := by rw [outer?_eq hdef, hc]
      have hnest : p.nested? n = if inType then some s else none := by
        simp [nested?, hn, ht, hs, houter, htype]
      refine ⟨hnest, ?_⟩
      cases inType with
      | false => simp [dest?, hnest]
      | true => simp [dest?, hnest, hr, hbody]

/-- What leads to a declaration outwards is stored with it. -/
theorem Holds.mem_of_leadsTo (hs : p.Stores ts ns ids) (hx : x ∈ ids)
    (hr : p.declared? x = some r) (hlead : p.LeadsTo c r) (hc : p.definition? c = some n) :
    n ∈ ids := by
  obtain ⟨depth, hlead⟩ := hlead
  induction depth generalizing c n with
  | zero => simp [moduleFrom] at hlead
  | succ depth ih =>
    obtain ⟨e, _, hstep⟩ := moduleFrom_succ_eq_some_iff.1 hlead
    split at hstep
    · subst hstep
      obtain rfl : x = n := by simpa [hc] using (h.declared x c hr).symm
      exact hx
    · obtain ⟨t, ht, hlead⟩ := hstep
      rw [outer?_eq hc] at ht
      obtain ⟨m, hm, hmt⟩ := Option.bind_eq_some_iff.1 ht
      obtain ⟨k, hk, hmem⟩ := h.formed.mem_body_of_parent? hm
      exact hs.mem_body (ih (h.declared m t hmt) hlead) hk hmem

/-- A type that goes to the body of a module is stored with that module. -/
theorem Holds.mem_of_dest? (hs : p.Stores ts ns ids) (hx : x ∈ ids)
    (hk : p.kind? x = some (.module s b)) (hn : p.dest? n = some b) : n ∈ ids := by
  obtain ⟨s₁, r, m, s₂, hnest, hr, hm, hmk⟩ := exists_module_of_dest? hn
  obtain rfl := h.formed.eq_of_body hk hmk rfl rfl
  have hdef := h.declared n s₁ (declared?_of_nested? hnest)
  obtain ⟨c, hc, hlead⟩ := module?_eq_some_iff.1 hr
  rw [outer?_eq hdef] at hc
  obtain ⟨y, hy, hyc⟩ := Option.bind_eq_some_iff.1 hc
  obtain ⟨k, hk, hmem⟩ := h.formed.mem_body_of_parent? hy
  have hxr := h.declared?_of_definition? hm
  exact hs.mem_body (h.mem_of_leadsTo hs hx hxr hlead (h.declared y c hyc)) hk hmem

/-- The body of a module gets the types below the module that go there. -/
theorem Holds.filter_dest?_of_module (hs : p.Stores ts [x] (x :: ids)) (hin : ids <:+: all)
    (hk : p.kind? x = some (.module s b)) :
    all.filter (p.dest? · = some b) = ids.filter (p.dest? · = some b) := by
  have hmem : ∀ n, p.dest? n = some b → n ∈ ids := by
    intro n hn
    rcases List.mem_cons.1 (h.mem_of_dest? hs (by simp) hk hn) with rfl | hn'
    · simp [dest?_of_nested? (nested?_of_not_type hk rfl)] at hn
    · exact hn'
  obtain ⟨before, after, rfl⟩ := hin
  obtain ⟨hnd, _, hafter⟩ := List.nodup_append.1 h.nodup
  obtain ⟨_, _, hbefore⟩ := List.nodup_append.1 hnd
  have h₁ : before.filter (p.dest? · = some b) = [] := by
    refine List.filter_eq_nil_iff.2 fun n hn hdest => ?_
    exact hbefore n hn n (hmem n (by simpa using hdest)) rfl
  have h₂ : after.filter (p.dest? · = some b) = [] := by
    refine List.filter_eq_nil_iff.2 fun n hn hdest => ?_
    exact hafter n (by simp [hmem n (by simpa using hdest)]) n hn rfl
  rw [List.filter_append, List.filter_append, h₁, h₂, List.nil_append, List.append_nil]

/-- A body that belongs to no module gets nothing. -/
theorem Holds.filter_dest?_of_not_module (hk : p.kind? x = some k) (hb : k.body? = some b)
    (hm : k.moduleBody? = none) : all.filter (p.dest? · = some b) = [] := by
  refine List.filter_eq_nil_iff.2 fun n _ hn => ?_
  obtain ⟨_, _, m, s', _, _, _, hmk⟩ := exists_module_of_dest? (by simpa using hn)
  obtain rfl := h.formed.eq_of_body hk hmk hb rfl
  obtain rfl : k = .module s' b := by simpa [hk] using hmk
  simp [NodeKind.moduleBody?] at hm

/-- Below a module, nothing goes to the body of a module further out. -/
theorem Holds.filter_dest?_below (hs : p.Stores ts ns ids) (hr : Tree.Regular p.symbols true ts)
    (hns : ∀ n ∈ ns, p.IsModule n ∨ p.Stands n inType d) (hne : d ≠ b) (ho : p.Outside b ids) :
    ids.filter (p.dest? · = some b) = [] := by
  refine List.filter_eq_nil_iff.2 fun n hn hdest => ?_
  obtain ⟨s, _, _, _, hnest, _⟩ := exists_module_of_dest? (by simpa using hdest)
  obtain ⟨k, _, hk, hks, _⟩ := nested?_eq_some_iff.1 hnest
  rcases hs.stands hr h.formed h.declared (List.Subset.refl _) (fun _ => hns) hn
    (hasBody_of_nested? hnest) with hmod | ⟨c, d', hstands, hd'⟩
  · obtain ⟨s', b', hmod⟩ := hmod
    obtain rfl : k = .module s' b' := by simpa [hk] using hmod
    simp [NodeKind.typeDef?] at hks
  · obtain ⟨hn₁, hn₂⟩ := h.nested?_of_stands hk (.inr hstands)
    obtain rfl : c = true := by
      by_contra hc
      simp [hnest, hc] at hn₁
    obtain rfl : d' = b := by simpa [hks, hn₂] using hdest
    rcases hd' with rfl | ⟨y, hy, k', hk', hb'⟩
    · exact hne rfl
    · obtain ⟨s', rfl⟩ := NodeKind.eq_module_of_moduleBody? hb'
      exact ho y hy _ hk' rfl

/-- A body that is no module's only loses what is nested. -/
theorem Holds.body_of_not_module (hq : p.Rearranged q (p.membersAfter all))
    (hk : p.kind? x = some k) (hm : k.moduleBody? = none) :
    q.body k = (p.body k).filter (p.nested? · = none) := by
  cases hb : k.body? with
  | none => simp [body, hb]
  | some b =>
    have hnone := h.filter_dest?_of_not_module hk hb hm
    simp [body, hb, hq.members, membersAfter, hnone]

/-- One tree with what leaves it, given the same for its contents. -/
theorem Holds.hoisted_tree {t : Tree} {ops inner js₁ js₂ : List NodeId}
    (hq : p.Rearranged q (p.membersAfter all)) (hx : p.content? x = some (k, t.span))
    (hblank : k.blank = t.blank) (hops : p.Stores t.operands k.operands ops)
    (hro : Tree.Regular p.symbols false t.operands)
    (hcont : p.Stores t.contents (p.body k) inner) (hrc : Tree.Regular p.symbols true t.contents)
    (hin : ops ++ inner <:+: all) (hs : p.IsModule x ∨ p.Stands x inType d)
    (ho : p.Outside d (x :: inner))
    (h₁ : q.Stores (Tree.keep t.isType t.contents) ((p.body k).filter (p.nested? · = none)) js₁)
    (h₂ : q.Stores (Tree.lift t.isType t.contents)
      (inner.filter (p.dest? · = some (k.moduleBody?.getD d))) js₂) :
    ∃ js₁' js₂', q.Stores [t.hoisted] [x] (x :: ops ++ js₁') ∧
      q.Stores t.leaving (inner.filter (p.dest? · = some d)) js₂' ∧
      js₁' ++ js₂' = js₁ ++ js₂ := by
  have hkind : p.kind? x = some k := by simp [kind?_eq_content?, hx]
  have hmod : t.isModule = k.moduleBody?.isSome := by
    rw [Tree.isModule, ← hblank, NodeKind.isSome_moduleBody?_blank]
  cases hmb : k.moduleBody? with
  | some b =>
    -- what leaves the contents of a module arrives in its body
    rw [hmb] at hmod h₂
    have hbelow : ∀ y ∈ p.body k, p.IsModule y ∨ p.Stands y k.typeDef?.isSome b := by
      intro y hy
      exact .inr (by simpa [hmb] using h.stands_below hkind hs hy)
    obtain ⟨s, rfl⟩ := NodeKind.eq_module_of_moduleBody? hmb
    have hne : b ≠ d := fun hbd => ho x (by simp) _ hkind (by simp [NodeKind.body?, hbd])
    have hout : inner.filter (p.dest? · = some d) = [] :=
      h.filter_dest?_below hcont hrc hbelow hne (ho.mono (List.subset_cons_self _ _))
    have hsub : p.Stores [t] [x] (x :: (ops ++ inner)) := by
      simpa using Stores.cons hx hblank hops hcont .nil
    have hbody : q.body (.module s b) = (p.body (.module s b)).filter (p.nested? · = none) ++
        inner.filter (p.dest? · = some b) := by
      change q.members b = (p.members b).filter (p.nested? · = none) ++ _
      rw [hq.members, membersAfter, h.filter_dest?_of_module hsub hin hkind, List.filter_append,
        hops.filter_dest?_eq_nil hro, List.nil_append]
    have hqcont : q.Stores t.hoisted.contents (q.body (.module s b)) (js₁ ++ js₂) := by
      rw [Tree.hoisted_contents, hmod, hbody]
      exact h₁.append h₂
    refine ⟨_, [], .hoisted hq.relinked hx hblank hops hro hqcont, ?_, List.append_nil _⟩
    rw [Tree.leaving_eq, hmod, hout]
    exact .nil
  | none =>
    rw [hmb] at hmod h₂
    have hqcont : q.Stores t.hoisted.contents (q.body k) js₁ := by
      rw [Tree.hoisted_contents, hmod, h.body_of_not_module hq hkind hmb]
      simpa using h₁
    refine ⟨_, js₂, .hoisted hq.relinked hx hblank hops hro hqcont, ?_, rfl⟩
    rw [Tree.leaving_eq, hmod]
    exact h₂

/-- Of the trees in a body, those that stay are stored where they were, and what leaves them is
stored in the order in which it arrives in the body `d` of the module around. -/
theorem Holds.hoisted_stores (hq : p.Rearranged q (p.membersAfter all))
    (hs : p.Stores ts ns ids) (hr : Tree.Regular p.symbols true ts) (hin : ids <:+: all)
    (hns : ∀ n ∈ ns, p.IsModule n ∨ p.Stands n inType d) (ho : p.Outside d ids) :
    ∃ js₁ js₂, q.Stores (Tree.keep inType ts) (ns.filter (p.nested? · = none)) js₁ ∧
      q.Stores (Tree.lift inType ts) (ids.filter (p.dest? · = some d)) js₂ ∧
      (js₁ ++ js₂).Perm ids := by
  induction hs generalizing inType d with
  | nil => exact ⟨[], [], by simpa [Tree.keep] using .nil, by simpa [Tree.lift] using .nil, by simp⟩
  | @cons t x k ops inner rest ts ns hx hblank hops hcont hrest _ ihb ihr =>
    rcases hr with _ | ⟨_, _, hro, hrc, hrr⟩
    have hkind : p.kind? x = some k := by simp [kind?_eq_content?, hx]
    have htype : t.isType = k.typeDef?.isSome := by
      rw [Tree.isType, ← hblank, NodeKind.typeDef?_blank]
    have hxs := hns x (by simp)
    have hown : ops ++ inner <:+: all := List.IsInfix.trans ⟨[x], rest, by simp⟩ hin
    have hnd : (x :: ops ++ inner ++ rest).Nodup := h.nodup.sublist hin.sublist
    have hx_inner : x ∉ inner := by
      intro hmem
      simp [hmem] at hnd
    have hox : p.Outside d (x :: inner) := ho.mono fun n hn => by
      rcases List.mem_cons.1 hn with rfl | hn <;> simp [*]
    have hbelow : ∀ y ∈ p.body k, p.IsModule y ∨ p.Stands y t.isType (k.moduleBody?.getD d) := by
      intro y hy
      rw [htype]
      exact .inr (h.stands_below hkind hxs hy)
    obtain ⟨js₁, js₂, hjs₁, hjs₂, hjs⟩ :=
      ihb hrc (List.IsInfix.trans ⟨ops, [], by simp⟩ hown) hbelow
        ((hox.mono (List.subset_cons_self _ _)).below h.formed hkind hx_inner)
    obtain ⟨ks₁, ks₂, hks₁, hks₂, hks⟩ :=
      h.hoisted_tree hq hx hblank hops hro hcont hrc hown hxs hox hjs₁ hjs₂
    obtain ⟨ls₁, ls₂, hls₁, hls₂, hls⟩ := ihr hrr
      (List.IsInfix.trans ⟨x :: ops ++ inner, [], by simp⟩ hin) (fun n hn => hns n (by simp [hn]))
      (ho.mono (List.subset_append_right _ _))
    obtain ⟨hnest, hdest⟩ := h.nested?_of_stands hkind hxs
    have hstay : p.nested? x = none ↔ (inType && t.isType) = false := by
      rw [hnest, htype]
      cases inType <;> simp
    rw [← htype] at hdest
    obtain ⟨ms₁, ms₂, hms₁, hms₂, hms⟩ := Stores.hoisted_cons hdest hstay hks₁ hks₂ hls₁ hls₂
    rw [hops.filter_dest?_cons hro]
    refine ⟨ms₁, ms₂, hms₁, hms₂, hms.trans (List.Perm.append ?_ hls)⟩
    rw [List.append_assoc, hks]
    exact hjs.append_left _

/-- The nested types in pre-order are those of the trees. -/
theorem Holds.filterMap_nested? (hs : p.Stores ts ns ids) (hr : Tree.Regular p.symbols true ts)
    (hns : ∀ n ∈ ns, p.IsModule n ∨ p.Stands n inType d) :
    ids.filterMap p.nested? = Tree.nestedIn inType ts := by
  induction hs generalizing inType d with
  | nil => simp [Tree.nestedIn]
  | @cons t x k ops inner rest ts ns hx hblank hops _ _ _ ihb ihr =>
    rcases hr with _ | ⟨_, _, hro, hrc, hrr⟩
    have hkind : p.kind? x = some k := by simp [kind?_eq_content?, hx]
    have htype : t.blank.typeDef? = k.typeDef? := by rw [← hblank, NodeKind.typeDef?_blank]
    have hxs := hns x (by simp)
    have hbelow : ∀ y ∈ p.body k, p.IsModule y ∨ p.Stands y t.isType (k.moduleBody?.getD d) := by
      intro y hy
      rw [Tree.isType, htype]
      exact .inr (h.stands_below hkind hxs hy)
    rw [hops.filterMap_nested?_cons hro, (h.nested?_of_stands hkind hxs).1, ihb hrc hbelow,
      ihr hrr fun n hn => hns n (by simp [hn]), Tree.nestedIn, Tree.nested_eq, htype]
    cases inType <;> rfl

theorem Holds.nested?_member (hn : p.kind? n = some k) (hb : k.body? = some b)
    (hm : m ∈ p.members b) :
    p.nested? m = none ↔ ¬ (k.typeDef?.isSome ∧ p.isTypeDef m) := by
  have hmem : m ∈ p.body k := by simpa [body, hb] using hm
  obtain ⟨d, hstands⟩ : ∃ d, p.Stands m k.typeDef?.isSome d := by
    rcases h.stands (show p.hasBody n by simp [hasBody, hn, hb]) with hmod | ⟨c, d, hs⟩
    · have hs : p.IsModule n ∨ p.Stands n false b := .inl hmod
      exact ⟨_, h.stands_below hn hs hmem⟩
    · exact ⟨_, h.stands_below hn (.inr hs) hmem⟩
  obtain ⟨node, hnode⟩ : ∃ node, p.nodes[m]? = some node := by
    rw [← Option.isSome_iff_exists, ← Table.lt_size_iff_isSome]
    exact lt_size_of_block? (h.formed.linked.mem_members.1 hm)
  have hkind : p.kind? m = some node.kind := by simp [kind?, hnode]
  rw [(h.nested?_of_stands hkind (.inr hstands)).1]
  simp only [isTypeDef, hkind]
  split <;> simp_all

theorem Holds.body_hoisted {moves : List Move} (hq : p.Rearranged q (p.membersAfter all))
    (hmoves : ∀ b, (moves.filter (·.target = b)).map Move.definition =
      all.filter (p.dest? · = some b))
    (hn : p.kind? n = some k) : q.body k = p.bodyAfter moves k := by
  have hstay := fun b m hb hm => h.nested?_member (b := b) (m := m) hn hb hm
  cases k with
  | module s b =>
    change q.members b = _
    rw [hq.members, membersAfter, bodyAfter, hmoves]
    rw [List.filter_eq_self.2 fun m hm => by simp [hstay b m rfl hm, NodeKind.typeDef?]]
  | typeDef s aggregate b =>
    rw [h.body_of_not_module hq hn rfl]
    exact List.filter_congr fun m hm => by simp [hstay b m rfl hm, NodeKind.typeDef?]
  | function s params result b =>
    rw [h.body_of_not_module hq hn rfl]
    exact List.filter_eq_self.2 fun m hm => by simp [hstay b m rfl hm, NodeKind.typeDef?]
  | _ => rfl

/-- Hoisting a program that stores trees leaves one that stores the hoisted trees. -/
theorem Holds.hoist_stores (options : HoistOptions) :
    ∃ moves js, (p.hoist options).result = .ok ⟨p.nodes.size, moves⟩ ∧
      moves.map Move.symbol = us.flatMap Tree.nested ∧ (moves.map Move.symbol).Nodup ∧
      p.Relinked (p.hoist options).program ∧
      (p.hoist options).program.Stores (us.map Tree.hoisted) p.roots js ∧ js.Perm p.nodes.ids ∧
      ∀ n k, p.kind? n = some k → (p.hoist options).program.body k = p.bodyAfter moves k := by
  obtain ⟨moves, hres, hsym, harrive, hq⟩ := h.hoist_members options
  -- around the roots there is no module, so any block that is no body will do
  have hroots : ∀ n ∈ p.roots, p.IsModule n ∨ p.Stands n false p.blocks.nextId :=
    fun n hn => .inl (h.isModule_of_root hn)
  have hbodies : p.Outside p.blocks.nextId all := by
    intro n _ k hk hb
    exact Table.ne_nextId (lt_size_of_owner? (h.formed.bodies n k _ hk hb)) rfl
  have hnothing : all.filter (p.dest? · = some p.blocks.nextId) = [] := by
    refine List.filter_eq_nil_iff.2 fun n _ hdest => ?_
    obtain ⟨_, _, m, s', _, _, _, hk⟩ := exists_module_of_dest? (by simpa using hdest)
    exact hbodies m (h.mem_ids.2 (lt_size_of_kind? hk)) _ hk rfl
  have hstay : p.roots.filter (p.nested? · = none) = p.roots := by
    refine List.filter_eq_self.2 fun n hn => ?_
    obtain ⟨s, b, hk⟩ := h.isModule_of_root hn
    simpa using nested?_of_not_type hk rfl
  obtain ⟨js₁, js₂, h₁, h₂, hperm⟩ :=
    h.hoisted_stores hq h.stores h.regular (List.infix_refl _) hroots hbodies
  rw [hnothing] at h₂
  rw [hstay, Tree.keep_eq_map] at h₁
  rw [h₂.eq_nil.2, List.append_nil] at hperm
  refine ⟨moves, js₁, hres, ?_, ?_, hq.relinked, h₁, hperm.trans h.perm, fun n k hk => ?_⟩
  · rw [hsym, h.filterMap_nested? h.stores h.regular hroots, Tree.nestedIn_eq_flatMap]
  · rw [hsym]
    exact h.nodup_filterMap_nested
  · exact h.body_hoisted hq harrive hk

end Holds

end Hoist.Program
