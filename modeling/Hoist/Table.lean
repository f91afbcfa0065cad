import Hoist.Entity

/-! Tables that only grow: an entry keeps its identifier, and past the end there is nothing. -/
namespace Hoist

@[ext] structure Table (e : Entity) (α : Type) where
  entries : Array α
  deriving DecidableEq, Repr

namespace Table

variable {e : Entity} {α : Type}

def empty : Table e α := ⟨#[]⟩

instance : Inhabited (Table e α) := ⟨empty⟩

def size (t : Table e α) : Nat := t.entries.size

def isEmpty (t : Table e α) : Bool := t.size == 0

instance : GetElem? (Table e α) (EntityId e) α (fun t i => i.index < t.entries.size) where
  getElem t i h := t.entries[i.index]
  getElem? t i := t.entries[i.index]?

/-- The identifier that the next entry will get. -/
def nextId (t : Table e α) : EntityId e := ⟨t.size⟩

def push (t : Table e α) (a : α) : Table e α := ⟨t.entries.push a⟩

/-- A position past the end is left alone. -/
def modify (t : Table e α) (i : EntityId e) (f : α → α) : Table e α :=
  match t[i]? with
  | some a => ⟨t.entries.setIfInBounds i.index (f a)⟩
  | none => t

def ids (t : Table e α) : List (EntityId e) := (List.range t.size).map EntityId.mk

def toList (t : Table e α) : List α := t.entries.toList

/-- The entries beside their identifiers, oldest first. -/
def toAssoc (t : Table e α) : List (EntityId e × α) := t.ids.zip t.toList

theorem getElem?_entries (t : Table e α) (i : EntityId e) : t[i]? = t.entries[i.index]? := rfl

@[simp] theorem getElem?_empty (i : EntityId e) : (empty : Table e α)[i]? = none := by
  simp [empty]

@[simp] theorem size_empty : (empty : Table e α).size = 0 := rfl

theorem getElem?_eq_none_iff {t : Table e α} {i : EntityId e} :
    t[i]? = none ↔ t.size ≤ i.index := by
  simp [getElem?_entries, size]

theorem lt_size_iff_isSome {t : Table e α} {i : EntityId e} :
    i.index < t.size ↔ (t[i]?).isSome := by
  rw [← Nat.not_le, ← getElem?_eq_none_iff, Option.isSome_iff_ne_none]

theorem lt_size_of_getElem? {t : Table e α} {i : EntityId e} {a : α} (h : t[i]? = some a) :
    i.index < t.size := by
  rw [lt_size_iff_isSome, h]
  rfl

@[simp] theorem getElem?_nextId (t : Table e α) : t[t.nextId]? = none :=
  getElem?_eq_none_iff.2 (Nat.le_refl _)

theorem ne_nextId {t : Table e α} {i : EntityId e} (h : i.index < t.size) : i ≠ t.nextId := by
  rintro rfl
  exact Nat.lt_irrefl _ h

theorem size_le_of_isSome {β : Type} {t : Table e α} {u : Table e β}
    (h : ∀ i : EntityId e, (u[i]?).isSome = (t[i]?).isSome) : t.size ≤ u.size := by
  have hn : t[u.nextId]? = none := by simpa using (h u.nextId).symm
  exact getElem?_eq_none_iff.1 hn

theorem size_eq_of_isSome {β : Type} {t : Table e α} {u : Table e β}
    (h : ∀ i : EntityId e, (u[i]?).isSome = (t[i]?).isSome) : u.size = t.size :=
  Nat.le_antisymm (size_le_of_isSome fun i => (h i).symm) (size_le_of_isSome h)

@[simp] theorem size_push (t : Table e α) (a : α) : (t.push a).size = t.size + 1 := by
  simp [push, size]

theorem getElem?_push (t : Table e α) (a : α) (i : EntityId e) :
    (t.push a)[i]? = if i = t.nextId then some a else t[i]? := by
  simp [getElem?_entries, push, nextId, size, Array.getElem?_push, EntityId.ext_iff]

@[simp] theorem size_modify (t : Table e α) (i : EntityId e) (f : α → α) :
    (t.modify i f).size = t.size := by
  unfold modify
  split <;> simp [size]

theorem getElem?_modify (t : Table e α) (i j : EntityId e) (f : α → α) :
    (t.modify i f)[j]? = if i = j then t[j]?.map f else t[j]? := by
  unfold modify
  split
  · rename_i a h
    by_cases hij : i = j
    · subst hij
      obtain ⟨hi, rfl⟩ := Array.getElem?_eq_some_iff.1 h
      simp only [getElem?_entries]
      simp [hi]
    · have hne : i.index ≠ j.index := fun he => hij (EntityId.ext he)
      simp [getElem?_entries, hij, hne]
  · rename_i h
    by_cases hij : i = j
    · subst hij
      simp [h]
    · simp [hij]

theorem mem_ids {t : Table e α} {i : EntityId e} : i ∈ t.ids ↔ i.index < t.size := by
  simp only [ids, List.mem_map, List.mem_range]
  exact ⟨fun ⟨n, hn, he⟩ => he ▸ hn, fun h => ⟨i.index, h, rfl⟩⟩

@[simp] theorem length_ids (t : Table e α) : t.ids.length = t.size := by
  simp [ids]

@[simp] theorem length_toList (t : Table e α) : t.toList.length = t.size := by
  simp [toList, size]

@[simp] theorem length_toAssoc (t : Table e α) : t.toAssoc.length = t.size := by
  simp [toAssoc]

theorem nodup_ids (t : Table e α) : t.ids.Nodup := by
  refine List.pairwise_map.2 (List.nodup_range.imp ?_)
  intro m n hne heq
  exact hne (congrArg EntityId.index heq)

theorem mem_toList {t : Table e α} {a : α} : a ∈ t.toList ↔ ∃ i : EntityId e, t[i]? = some a := by
  rw [toList, Array.mem_toList_iff, Array.mem_iff_getElem?]
  exact ⟨fun ⟨n, hn⟩ => ⟨⟨n⟩, hn⟩, fun ⟨i, hi⟩ => ⟨i.index, hi⟩⟩

theorem mem_toAssoc {t : Table e α} {i : EntityId e} {a : α} :
    (i, a) ∈ t.toAssoc ↔ t[i]? = some a := by
  simp only [toAssoc, List.mem_iff_getElem?, List.getElem?_zip_eq_some, getElem?_entries]
  constructor
  · rintro ⟨k, hk, ha⟩
    obtain ⟨_, rfl⟩ := List.getElem?_eq_some_iff.1 hk
    simpa [ids, toList] using ha
  · intro ha
    obtain ⟨hi, _⟩ := Array.getElem?_eq_some_iff.1 ha
    exact ⟨i.index, by simp [ids, size, hi], by simpa [toList] using ha⟩

/-- The identifiers count the entries up. -/
theorem getElem?_toAssoc {t : Table e α} {n : Nat} {i : EntityId e} {a : α}
    (h : t.toAssoc[n]? = some (i, a)) : i.index = n ∧ t[i]? = some a := by
  refine ⟨?_, mem_toAssoc.1 (List.mem_of_getElem? h)⟩
  obtain ⟨hid, _⟩ := List.getElem?_zip_eq_some.1 h
  obtain ⟨_, rfl⟩ := List.getElem?_eq_some_iff.1 hid
  simp [ids]

theorem nodup_toAssoc (t : Table e α) : (t.toAssoc.map Prod.fst).Nodup := by
  have hids : t.toAssoc.map Prod.fst = t.ids := List.map_fst_zip (by simp)
  rw [hids]
  exact t.nodup_ids

theorem toList_push (t : Table e α) (a : α) : (t.push a).toList = t.toList ++ [a] := by
  simp [toList, push]

theorem nextId_eq_length (t : Table e α) : t.nextId = ⟨t.toList.length⟩ := by
  simp [nextId, size, toList]

theorem toList_modify (t : Table e α) (i : EntityId e) (f : α → α) :
    (t.modify i f).toList = t.toList.modify i.index f := by
  apply List.ext_getElem?
  intro k
  have hk := t.getElem?_modify i ⟨k⟩ f
  simp only [getElem?_entries, EntityId.ext_iff] at hk
  simp only [toList, Array.getElem?_toList, List.getElem?_modify, hk]
  by_cases hi : i.index = k <;> simp [hi]

/-- Two tables with equal look-ups are equal. -/
theorem ext_getElem? {t u : Table e α} (h : ∀ i : EntityId e, t[i]? = u[i]?) : t = u := by
  apply Table.ext
  apply Array.ext_getElem?
  intro n
  exact h ⟨n⟩

theorem push_modify (t : Table e α) (a : α) (f : α → α) :
    (t.push a).modify t.nextId f = t.push (f a) := by
  apply ext_getElem?
  intro i
  simp only [getElem?_modify, getElem?_push]
  by_cases h : i = t.nextId
  · simp [h]
  · simp [h, Ne.symm h]

/-- One for an entry that only the longer table has, zero for any other. -/
def added (t t' : Table e α) (i : EntityId e) : Nat :=
  if t.size ≤ i.index ∧ i.index < t'.size then 1 else 0

theorem added_self (t : Table e α) (i : EntityId e) : added t t i = 0 := by
  simp [added]

theorem added_trans {t t' t'' : Table e α} (h : t.size ≤ t'.size) (h' : t'.size ≤ t''.size)
    (i : EntityId e) : added t t' i + added t' t'' i = added t t'' i := by
  simp only [added]
  split <;> split <;> split <;> omega

theorem added_push (t : Table e α) (a : α) (i : EntityId e) :
    added t (t.push a) i = [t.nextId].count i := by
  simp only [added, size_push, List.count_singleton, beq_iff_eq, EntityId.ext_iff, nextId]
  split <;> split <;> omega

end Table
end Hoist
