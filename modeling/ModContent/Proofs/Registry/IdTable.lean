import Mathlib.Data.List.Nodup
import Mathlib.Data.List.Perm.Basic
import ModContent.Registry.IdTable

/-!
# Names and ids of a table

A table is **distinct** when no name stands in it twice; then looking a name up from the left,
from the right and by its id are the same question (`idOf?_eq_some_iff`, `lastIdOf?_eq_some_iff`).

An assignment is taken apart in two steps. Releasing a table keeps just the names that are listed,
each under its id. Filling leaves the names that are there (`getElem?_fill_of_some`) and adds the
new ones: as a multiset the names of the filled table are the old names and the new ones
(`filterMap_fill_perm`). Everything about `assignIds` below is read off these two facts.
-/

namespace ModContent

/-- What is not there and what is there is all. -/
theorem countP_isNone_add_countP_isSome {β : Type} (slots : List (Option β)) :
    slots.countP Option.isNone + slots.countP Option.isSome = slots.length := by
  have hsome : slots.countP Option.isSome = slots.countP fun slot ↦ ¬ slot.isNone := by
    refine List.countP_congr fun slot _ ↦ ?_
    cases slot <;> simp
  rw [hsome, ← List.length_eq_countP_add_countP]

namespace IdTable

variable {t : IdTable} {name : String} {id other : Nat}

/-! ### The names of a table -/

/-- The names in id order. -/
def names (t : IdTable) : List String := t.slots.filterMap fun slot ↦ slot

/-- No name has two ids. -/
def Distinct (t : IdTable) : Prop := t.names.Nodup

instance (t : IdTable) : Decidable t.Distinct := inferInstanceAs (Decidable (List.Nodup _))

theorem nameOf?_eq_some_iff : t.nameOf? id = some name ↔ t.slots[id]? = some (some name) := by
  simp [nameOf?, Option.join_eq_some_iff]

theorem mem_names_iff : name ∈ t.names ↔ ∃ id, t.nameOf? id = some name := by
  rw [names, List.mem_filterMap]
  simp only [exists_eq_right, List.mem_iff_getElem?, nameOf?_eq_some_iff]

/-- In a list without repeated texts each text stands in one place. -/
theorem index_unique {slots : List (Option String)}
    (h : (slots.filterMap fun slot ↦ slot).Nodup) {i j : Nat}
    (hi : slots[i]? = some (some name)) (hj : slots[j]? = some (some name)) : i = j := by
  induction slots generalizing i j with
  | nil => simp at hi
  | cons slot rest ih =>
    have hrest : (rest.filterMap fun slot ↦ slot).Nodup := by
      cases slot with
      | none => simpa using h
      | some _ => exact (List.nodup_cons.1 (by simpa using h)).2
    -- a text in front does not stand in the rest
    have hfront : ∀ k : Nat, slot = some name → rest[k]? ≠ some (some name) := by
      rintro k rfl hk
      have hmem : name ∉ rest.filterMap fun slot ↦ slot :=
        (List.nodup_cons.1 (by simpa using h)).1
      exact hmem (List.mem_filterMap.2 ⟨some name, List.mem_of_getElem? hk, rfl⟩)
    rcases i with - | i <;> rcases j with - | j
    · rfl
    · exact absurd hj (hfront j (by simpa using hi))
    · exact absurd hi (hfront i (by simpa using hj))
    · exact congrArg _ (ih hrest (by simpa using hi) (by simpa using hj))

/-- With different names, a name stands under one id. -/
theorem Distinct.eq_of_nameOf? (h : t.Distinct) (hid : t.nameOf? id = some name)
    (hother : t.nameOf? other = some name) : id = other :=
  index_unique h (nameOf?_eq_some_iff.1 hid) (nameOf?_eq_some_iff.1 hother)

/-- A name stands under the id that is found for it. -/
theorem nameOf?_of_idOf? (h : t.idOf? name = some id) : t.nameOf? id = some name := by
  rw [idOf?, List.findIdx?_eq_some_iff_getElem] at h
  obtain ⟨hlt, hslot, -⟩ := h
  rw [nameOf?_eq_some_iff, List.getElem?_eq_getElem hlt]
  simpa using hslot

/-- No id is found exactly for names that are not there. -/
theorem idOf?_eq_none_iff : t.idOf? name = none ↔ name ∉ t.names := by
  rw [idOf?, List.findIdx?_eq_none_iff, names, List.mem_filterMap]
  constructor
  · rintro h ⟨slot, hslot, rfl⟩
    simpa using h _ hslot
  · intro h slot hslot
    rw [beq_eq_false_iff_ne]
    rintro rfl
    exact h ⟨_, hslot, rfl⟩

/-- With different names, the id that is found is the one of the name. -/
theorem Distinct.idOf?_eq_some_iff (h : t.Distinct) :
    t.idOf? name = some id ↔ t.nameOf? id = some name := by
  refine ⟨nameOf?_of_idOf?, fun hid ↦ ?_⟩
  cases hfound : t.idOf? name with
  | none => exact absurd (mem_names_iff.2 ⟨id, hid⟩) (idOf?_eq_none_iff.1 hfound)
  | some found => rw [h.eq_of_nameOf? hid (nameOf?_of_idOf? hfound)]

theorem mem_entries_iff : (id, name) ∈ t.entries ↔ t.nameOf? id = some name := by
  simp only [entries, List.mem_filterMap, Prod.exists, Option.map_eq_some_iff, Prod.mk.injEq,
    nameOf?_eq_some_iff]
  constructor
  · rintro ⟨slot, i, hmem, n, rfl, rfl, rfl⟩
    exact List.mem_zipIdx_iff_getElem?.1 hmem
  · intro h
    exact ⟨some name, id, List.mem_zipIdx_iff_getElem?.2 h, name, rfl, rfl, rfl⟩

theorem nameOf?_of_lastIdOf? (h : t.lastIdOf? name = some id) : t.nameOf? id = some name := by
  obtain ⟨⟨found, n⟩, hfind, rfl⟩ := Option.map_eq_some_iff.1 h
  have hn : n = name := by simpa using List.find?_some hfind
  subst hn
  exact mem_entries_iff.1 (List.mem_reverse.1 (List.mem_of_find?_eq_some hfind))

/-- With different names, the last id is the only one. -/
theorem Distinct.lastIdOf?_eq_some_iff (h : t.Distinct) :
    t.lastIdOf? name = some id ↔ t.nameOf? id = some name := by
  refine ⟨nameOf?_of_lastIdOf?, fun hid ↦ ?_⟩
  cases hfound : t.lastIdOf? name with
  | none =>
    have hnone := List.find?_eq_none.1 (Option.map_eq_none_iff.1 hfound) (id, name)
      (List.mem_reverse.2 (mem_entries_iff.2 hid))
    simp at hnone
  | some found => rw [h.eq_of_nameOf? hid (nameOf?_of_lastIdOf? hfound)]

/-! ### Counting ids -/

theorem live_eq_length_names (t : IdTable) : t.live = t.names.length := by
  rw [live, names, List.length_filterMap_eq_countP]

theorem length_vacant (t : IdTable) : t.vacant.length = t.slots.countP Option.isNone := by
  rw [vacant, List.length_filterMap_eq_countP]
  conv_rhs => rw [← List.zipIdx_map_fst 0 t.slots, List.countP_map]
  refine List.countP_congr fun slot _ ↦ ?_
  cases hslot : slot.1 <;> simp [hslot]

/-- Every id is either vacant or live. -/
theorem length_vacant_add_live (t : IdTable) : t.vacant.length + t.live = t.idSpace := by
  rw [length_vacant, live, idSpace, countP_isNone_add_countP_isSome]

/-! ### Releasing -/

/-- An id keeps its name if this is one of the names. -/
theorem nameOf?_release {names : List String} :
    (t.release names).nameOf? id = (t.nameOf? id).filter fun name ↦ decide (name ∈ names) := by
  simp only [nameOf?, release, List.getElem?_map]
  cases t.slots[id]? <;> simp

theorem names_release {names : List String} :
    (t.release names).names = t.names.filter fun name ↦ decide (name ∈ names) := by
  simp only [IdTable.names, release, List.filterMap_map, List.filter_filterMap]
  rfl

@[simp] theorem length_release (names : List String) :
    (t.release names).slots.length = t.slots.length := by
  simp [release]

/-! ### Filling -/

/-- A name that is there stays under its id. -/
theorem getElem?_fill_of_some {slots : List (Option String)} {added : List String}
    (h : slots[id]? = some (some name)) : (fill slots added)[id]? = some (some name) := by
  induction slots generalizing id added with
  | nil => simp at h
  | cons slot rest ih =>
    cases added with
    | nil => simpa [fill] using h
    | cons first added =>
      cases id with
      | zero =>
        obtain rfl : slot = some name := by simpa using h
        rfl
      | succ id =>
        have hrest : rest[id]? = some (some name) := by simpa using h
        cases slot with
        | none => simpa [fill] using ih hrest
        | some _ => simpa [fill] using ih hrest

/-- The names of a filled list are those that were there and those added. -/
theorem filterMap_fill_perm (slots : List (Option String)) (added : List String) :
    ((fill slots added).filterMap fun slot ↦ slot).Perm
      ((slots.filterMap fun slot ↦ slot) ++ added) := by
  induction slots generalizing added with
  | nil =>
    cases added with
    | nil => exact .refl _
    | cons first added => simp [fill, List.filterMap_map]
  | cons slot rest ih =>
    cases added with
    | nil => simp [fill]
    | cons first added =>
      -- a vacant slot takes the first name, which so comes before the names of the later slots
      cases slot with
      | none => simpa [fill] using ((ih added).cons first).trans List.perm_middle.symm
      | some kept => simpa [fill] using ih (first :: added)

/-- A filled list grows by the names for which no slot is vacant. -/
theorem length_fill (slots : List (Option String)) (added : List String) :
    (fill slots added).length = slots.length + (added.length - slots.countP Option.isNone) := by
  induction slots generalizing added with
  | nil =>
    cases added with
    | nil => rfl
    | cons first added => simp [fill]
  | cons slot rest ih =>
    cases added with
    | nil => simp [fill]
    | cons first added =>
      cases slot with
      | none =>
        show (fill rest added).length + 1 = rest.length + 1 + _
        rw [ih, List.countP_cons_of_pos rfl, List.length_cons]
        omega
      | some kept =>
        show (fill rest (first :: added)).length + 1 = rest.length + 1 + _
        rw [ih, List.countP_cons_of_neg Bool.false_ne_true]
        omega

end IdTable

/-! ### Assigning -/

section Assign

open IdTable

variable {category : String} {previous : IdTable} {names : List String} {policy : SlotPolicy}
  {a : Assignment}

/-- The names of a build that the table before did not know. -/
def newNames (previous : IdTable) (names : List String) : List String :=
  names.filter fun name ↦ (previous.idOf? name).isNone

/-- New names are those that were not in the table. -/
theorem mem_newNames {name : String} :
    name ∈ newNames previous names ↔ name ∈ names ∧ name ∉ previous.names := by
  simp [newNames, idOf?_eq_none_iff]

/-- The new names go into the slots that the others leave free. -/
theorem slots_of_assignIds (h : assignIds category previous names policy = .ok a) :
    a.table.slots = fill (previous.release names).slots (newNames previous names) := by
  simp only [assignIds] at h
  split at h
  · cases h
  · obtain rfl := Except.ok.inj h
    rfl

/-- The names of the new table are the names of the old one that are still listed, and the new
ones. -/
theorem names_perm_of_assignIds (h : assignIds category previous names policy = .ok a) :
    a.table.names.Perm
      ((previous.names.filter fun name ↦ decide (name ∈ names)) ++ newNames previous names) := by
  rw [IdTable.names, slots_of_assignIds h, ← names_release]
  exact filterMap_fill_perm _ _

/-- The new table knows exactly the names of the build. -/
theorem mem_names_of_assignIds (h : assignIds category previous names policy = .ok a)
    {name : String} : name ∈ a.table.names ↔ name ∈ names := by
  rw [(names_perm_of_assignIds h).mem_iff, List.mem_append, List.mem_filter, mem_newNames]
  by_cases hknown : name ∈ previous.names <;> simp [hknown]

/-- Assigning different names keeps the names different. -/
theorem distinct_of_assignIds (h : assignIds category previous names policy = .ok a)
    (hprevious : previous.Distinct) (hnames : names.Nodup) : a.table.Distinct := by
  rw [Distinct, (names_perm_of_assignIds h).nodup_iff]
  refine (hprevious.filter _).append (hnames.filter _) fun name hkept hnew ↦ ?_
  exact (mem_newNames.1 hnew).2 (List.mem_filter.1 hkept).1

/-- A name that is still listed keeps its id. -/
theorem nameOf?_of_assignIds (h : assignIds category previous names policy = .ok a)
    {name : String} {id : Nat} (hname : name ∈ names) (hid : previous.nameOf? id = some name) :
    a.table.nameOf? id = some name := by
  have hreleased : (previous.release names).nameOf? id = some name := by
    rw [nameOf?_release, hid, Option.filter_some, if_pos (by simpa using hname)]
  rw [nameOf?_eq_some_iff, slots_of_assignIds h]
  exact getElem?_fill_of_some (nameOf?_eq_some_iff.1 hreleased)

/-- No id is lost. -/
theorem idSpace_le_of_assignIds (h : assignIds category previous names policy = .ok a) :
    previous.idSpace ≤ a.table.idSpace := by
  rw [idSpace, idSpace, slots_of_assignIds h, length_fill, length_release]
  exact Nat.le_add_right _ _

end Assign

end ModContent
