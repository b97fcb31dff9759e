import Mathlib.Data.List.Induction
import Mathlib.Data.List.Nodup
import Mathlib.Data.String.Basic
import ModContent.Dictionary

/-!
# Dictionaries of lists

A dictionary is the one made of its own entries (`Dictionary.ofList_entries`). Entries under
different texts are all kept (`Dictionary.perm_ofList`, `Dictionary.get?_ofList`).
-/

namespace ModContent

namespace Dictionary

variable {β : Type} {d : Dictionary β} {entries : List (String × β)} {key : String} {value : β}

/-- A text beyond all others goes to the end. -/
theorem place_of_forall_lt (h : ∀ entry ∈ entries, entry.1 < key) (value : β) :
    place key value entries = entries ++ [(key, value)] := by
  induction entries with
  | nil => rfl
  | cons head rest ih =>
    obtain ⟨other, old⟩ := head
    rw [List.forall_mem_cons] at h
    rw [place, if_neg (lt_asymm h.1), if_neg (ne_of_gt h.1), ih h.2, List.cons_append]

/-- The last entry of a list is put in last. -/
theorem ofList_concat (entries : List (String × β)) (key : String) (value : β) :
    ofList (entries ++ [(key, value)]) = (ofList entries).insert key value := by
  rw [ofList, ofList, List.foldl_concat]

/-- A list that is sorted is kept as it is. -/
theorem entries_ofList (h : entries.Pairwise fun a b ↦ a.1 < b.1) :
    (ofList entries).entries = entries := by
  induction entries using List.reverseRecOn with
  | nil => rfl
  | append_singleton entries entry ih =>
    obtain ⟨key, value⟩ := entry
    obtain ⟨hentries, -, hlast⟩ := List.pairwise_append.1 h
    have hlt : ∀ first ∈ entries, first.1 < key := fun first hfirst ↦
      hlast first hfirst _ (List.mem_singleton_self _)
    rw [ofList_concat]
    show place key value (ofList entries).entries = _
    rw [ih hentries, place_of_forall_lt hlt]

/-- **A dictionary is the one made of its own entries.** -/
theorem ofList_entries (d : Dictionary β) : ofList d.entries = d := by
  obtain ⟨entries, h⟩ := d
  have hentries := entries_ofList h
  cases hlist : ofList entries with
  | mk found hfound =>
    rw [hlist] at hentries
    subst hentries
    rfl

/-! ### Entries under different texts -/

/-- Where the key is new, placing an entry adds it and leaves the others. -/
theorem perm_place (h : ∀ entry ∈ entries, entry.1 ≠ key) (value : β) :
    (place key value entries).Perm ((key, value) :: entries) := by
  induction entries with
  | nil => exact .refl _
  | cons head rest ih =>
    obtain ⟨other, old⟩ := head
    rw [List.forall_mem_cons] at h
    rw [place]
    split
    · exact .refl _
    · rw [if_neg (Ne.symm h.1)]
      exact ((ih h.2).cons _).trans (.swap _ _ _)

/-- A last entry keeps the keys different exactly if its key is new. -/
theorem nodup_keys_concat : ((entries ++ [(key, value)]).map Prod.fst).Nodup ↔
    key ∉ entries.map Prod.fst ∧ (entries.map Prod.fst).Nodup := by
  rw [List.map_append, List.map_singleton, ← List.concat_eq_append, List.nodup_concat]

/-- No entry is lost, and none comes in. -/
theorem perm_ofList (h : (entries.map Prod.fst).Nodup) : (ofList entries).entries.Perm entries := by
  induction entries using List.reverseRecOn with
  | nil => exact .refl _
  | append_singleton entries entry ih =>
    obtain ⟨key, value⟩ := entry
    obtain ⟨hkey, hentries⟩ := nodup_keys_concat.1 h
    have hperm := ih hentries
    have hnew : ∀ entry ∈ (ofList entries).entries, entry.1 ≠ key := by
      rintro entry hentry rfl
      exact hkey (List.mem_map_of_mem (hperm.mem_iff.1 hentry))
    rw [ofList_concat]
    exact ((perm_place hnew value).trans (hperm.cons _)).trans (List.perm_append_singleton _ _).symm

theorem get?_ofList (h : (entries.map Prod.fst).Nodup) (hmem : (key, value) ∈ entries) :
    (ofList entries).get? key = some value := by
  induction entries using List.reverseRecOn with
  | nil => exact absurd hmem List.not_mem_nil
  | append_singleton entries entry ih =>
    obtain ⟨last, lastValue⟩ := entry
    obtain ⟨hlast, hentries⟩ := nodup_keys_concat.1 h
    rw [ofList_concat, get?_insert]
    rcases List.mem_append.1 hmem with hbefore | heq
    · have hne : key ≠ last := fun heq ↦ hlast (heq ▸ List.mem_map_of_mem hbefore)
      rw [if_neg hne, ih hentries hbefore]
    · obtain ⟨rfl, rfl⟩ := Prod.mk.inj (List.mem_singleton.1 heq)
      rw [if_pos rfl]

end Dictionary

end ModContent
