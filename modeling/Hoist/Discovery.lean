import Hoist.Program

/-! Sets of nested types that remember in which order they were found. -/
namespace Hoist

/-- Each symbol once, in order of discovery. -/
@[ext] structure Discovery where
  order : List SymbolId
  nodup : order.Nodup
  deriving DecidableEq

namespace Discovery

def empty : Discovery := ⟨[], .nil⟩

variable (t : Discovery)

def contains (s : SymbolId) : Bool := t.order.contains s

/-- Also says whether the symbol is new. -/
def insert (s : SymbolId) : Bool × Discovery :=
  if h : s ∈ t.order then (false, t)
  else (true, ⟨t.order ++ [s], by grind [List.nodup_append, t.nodup]⟩)

def extend (l : List SymbolId) : Discovery :=
  l.foldl (fun t s => (t.insert s).2) t

def ofList (l : List SymbolId) : Discovery := empty.extend l

def size : Nat := t.order.length

def isEmpty : Bool := t.order.isEmpty

theorem order_insert (s : SymbolId) :
    (t.insert s).2.order = if s ∈ t.order then t.order else t.order ++ [s] := by
  unfold insert
  split <;> simp_all

theorem order_extend (l : List SymbolId) :
    (t.extend l).order = t.order ++ (l.filter (· ∉ t.order)).eraseDups := by
  induction l generalizing t with
  | nil => simp [extend]
  | cons s l ih =>
    have hcons : t.extend (s :: l) = (t.insert s).2.extend l := rfl
    rw [hcons, ih, order_insert]
    by_cases hs : s ∈ t.order
    · simp [hs]
    · have hrest : l.filter (· ∉ t.order ++ [s]) =
          (l.filter (· ∉ t.order)).filter fun x => !x == s := by
        rw [List.filter_filter]
        apply List.filter_congr
        intro x _
        grind
      rw [if_neg hs, hrest, List.filter_cons, if_pos (by simpa using hs), List.eraseDups_cons,
        List.append_assoc]
      rfl

/-- Each symbol where it comes first. -/
theorem order_ofList (l : List SymbolId) : (ofList l).order = l.eraseDups := by
  have hall : l.filter (· ∉ empty.order) = l := by
    rw [List.filter_eq_self]
    intro s _
    simp [empty]
  rw [ofList, order_extend, hall]
  rfl

theorem mem_ofList {l : List SymbolId} {s : SymbolId} : s ∈ (ofList l).order ↔ s ∈ l := by
  rw [order_ofList, List.mem_eraseDups]

end Discovery

/-- The nested types that an enumeration of nodes hits. -/
def Program.discover (p : Program) (nodes : List NodeId) : Discovery :=
  .ofList (nodes.filterMap p.nested?)

end Hoist
