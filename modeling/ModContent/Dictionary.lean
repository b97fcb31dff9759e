/-!
# Dictionaries

A dictionary is a list of texts with values, sorted by text and without repeated ones. `insert`
replaces the value of a text that is there, so the last of several insertions under one text counts.
-/

namespace ModContent

/-- Values by text. The entries are kept in the order of the texts, so equal dictionaries have equal
entries. -/
structure Dictionary (β : Type) where
  entries : List (String × β)
  /-- The texts are strictly ascending. -/
  ascending : entries.Pairwise fun a b ↦ a.1 < b.1
  deriving DecidableEq, Repr

namespace Dictionary

variable {β : Type} {entries : List (String × β)} {key : String} {value : β}

/-- The dictionary without entries. -/
def empty : Dictionary β := ⟨[], .nil⟩

/-- Puts an entry into a sorted list of entries. -/
def place (key : String) (value : β) : List (String × β) → List (String × β)
  | [] => [(key, value)]
  | (other, old) :: rest =>
    if key < other then (key, value) :: (other, old) :: rest
    else if key = other then (key, value) :: rest
    else (other, old) :: place key value rest

/-- What is there after a value was placed was placed or there before. -/
theorem mem_place {entry : String × β} (h : entry ∈ place key value entries) :
    entry = (key, value) ∨ entry ∈ entries := by
  induction entries with
  | nil => exact .inl (List.mem_singleton.1 h)
  | cons head rest ih =>
    obtain ⟨other, old⟩ := head
    rw [place] at h
    split at h
    · exact List.mem_cons.1 h
    · split at h
      · rcases List.mem_cons.1 h with rfl | hrest
        · exact .inl rfl
        · exact .inr (List.mem_cons_of_mem _ hrest)
      · rcases List.mem_cons.1 h with rfl | hrest
        · exact .inr List.mem_cons_self
        · exact (ih hrest).imp_right (List.mem_cons_of_mem _)

/-- A sorted list stays sorted. -/
theorem pairwise_place (h : entries.Pairwise fun a b ↦ a.1 < b.1) (key : String) (value : β) :
    (place key value entries).Pairwise fun a b ↦ a.1 < b.1 := by
  induction entries with
  | nil => exact List.pairwise_singleton _ _
  | cons head rest ih =>
    obtain ⟨other, old⟩ := head
    obtain ⟨hhead, hrest⟩ := List.pairwise_cons.1 h
    rw [place]
    split
    · next hlt =>
      refine List.pairwise_cons.2 ⟨fun entry hentry ↦ ?_, h⟩
      rcases List.mem_cons.1 hentry with rfl | hentry
      · exact hlt
      · exact String.lt_trans hlt (hhead entry hentry)
    · next hnot =>
      split
      · next heq => exact List.pairwise_cons.2 ⟨heq ▸ hhead, hrest⟩
      · next hne =>
        refine List.pairwise_cons.2 ⟨fun entry hentry ↦ ?_, ih hrest⟩
        rcases mem_place hentry with rfl | hentry
        · exact Std.lt_of_le_of_ne (String.not_lt.1 hnot) (Ne.symm hne)
        · exact hhead entry hentry

/-- Puts a value under a text, in place of the one that was there. -/
def insert (d : Dictionary β) (key : String) (value : β) : Dictionary β :=
  ⟨place key value d.entries, pairwise_place d.ascending key value⟩

/-- The value under a text. -/
def get? (d : Dictionary β) (key : String) : Option β := d.entries.lookup key

/-- The dictionary of a list of entries; of several under one text the last counts. -/
def ofList (entries : List (String × β)) : Dictionary β :=
  entries.foldl (fun d entry ↦ d.insert entry.1 entry.2) empty

@[simp] theorem get?_empty (key : String) : (empty : Dictionary β).get? key = none := rfl

/-- A look-up takes the first entry with the text. -/
theorem lookup_cons_if (entries : List (String × β)) (key other : String) (value : β) :
    ((key, value) :: entries).lookup other =
      if other = key then some value else entries.lookup other := by
  by_cases h : other = key
  · simp [h]
  · simp [List.lookup_cons, h, beq_eq_false_iff_ne.2 h]

/-- A placed value is found under its text, and others under theirs as before. -/
theorem lookup_place (entries : List (String × β)) (key other : String) (value : β) :
    (place key value entries).lookup other =
      if other = key then some value else entries.lookup other := by
  induction entries with
  | nil => exact lookup_cons_if [] key other value
  | cons entry rest ih =>
    rcases entry with ⟨k, v⟩
    rw [place]
    split
    · exact lookup_cons_if _ key other value
    · split
      · next heq =>
        subst heq
        simp only [lookup_cons_if]
        split <;> rfl
      · next hne =>
        simp only [lookup_cons_if, ih]
        grind

/-- An inserted value is found under its text, and others under theirs as before. -/
@[simp] theorem get?_insert (d : Dictionary β) (key other : String) (value : β) :
    (d.insert key value).get? other = if other = key then some value else d.get? other :=
  lookup_place d.entries key other value

end Dictionary

end ModContent
