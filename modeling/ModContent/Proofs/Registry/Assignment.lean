import Mathlib.Data.Finset.Card
import Mathlib.Data.Nat.Nth
import ModContent.Proofs.Registry.IdTable

/-!
# What an assignment gives

An id is **free for** some names when none of them stands under it: it is vacant, or lies past the
end, or its name is not among them. That says which ids are vacant once the names that are gone are
released, without releasing them (`isVacant_release_iff`). Two facts about filling then say all:

* a new name goes to the vacant id that has as many vacant ids before it as there are new names
  before the name (`getElem?_fill_nth`);
* ids past the end are used only once the vacant ones are (`length_fill`).

The numbers of an assignment are sizes of sets of names: those kept are in both sets, those added
and removed in one of them only (`assignIds_eq`). Main statement: `assignIds_settles`.
-/

namespace ModContent

namespace IdTable

variable {t : IdTable} {names : List String} {name : String} {id : Nat}

/-! ### Free ids -/

/-- No name stands under the id; it may lie past the end. -/
def IsVacant (t : IdTable) (id : Nat) : Prop := t.nameOf? id = none

instance (t : IdTable) : DecidablePred t.IsVacant :=
  fun id ↦ inferInstanceAs (Decidable (t.nameOf? id = none))

/-- None of the names stands under the id. -/
def FreeFor (t : IdTable) (names : List String) (id : Nat) : Prop :=
  ∀ name ∈ names, t.nameOf? id ≠ some name

instance (t : IdTable) (names : List String) : DecidablePred (t.FreeFor names) :=
  fun id ↦ inferInstanceAs (Decidable (∀ name ∈ names, t.nameOf? id ≠ some name))

/-- The ids that are vacant once names are released are those that are free. -/
theorem isVacant_release_iff : (t.release names).IsVacant id ↔ t.FreeFor names id := by
  rw [IsVacant, nameOf?_release, Option.filter_eq_none_iff]
  constructor
  · intro h name hname hid
    exact h name hid (decide_eq_true hname)
  · intro h name hid hname
    exact h name (of_decide_eq_true hname) hid

theorem count_isVacant_cons (slot : Option String) (slots : List (Option String)) (i : Nat) :
    Nat.count (IsVacant ⟨slot :: slots⟩) (i + 1) =
      Nat.count (IsVacant ⟨slots⟩) i + if slot.isNone then 1 else 0 := by
  rw [Nat.count_succ']
  cases slot with
  | none => rfl
  | some _ => rfl

/-- The vacant ids of a table are counted up to its end. -/
theorem count_isVacant (t : IdTable) : Nat.count t.IsVacant t.idSpace = t.vacant.length := by
  obtain ⟨slots⟩ := t
  rw [length_vacant]
  show Nat.count (IsVacant ⟨slots⟩) slots.length = slots.countP Option.isNone
  induction slots with
  | nil => rfl
  | cons slot rest ih => rw [List.length_cons, count_isVacant_cons, ih, List.countP_cons]

/-- As many ids are free for the names as are vacant once the others are released. -/
theorem count_freeFor (t : IdTable) (names : List String) :
    Nat.count (t.FreeFor names) t.idSpace = (t.release names).vacant.length := by
  have hidSpace : (t.release names).idSpace = t.idSpace := length_release names
  rw [← count_isVacant, hidSpace, Nat.count_eq_card_filter_range, Nat.count_eq_card_filter_range]
  simp only [isVacant_release_iff]

/-! ### The id of a new name -/

/-- A name that is filled in goes to a vacant id, with as many vacant ids before it as there are
names before the name. -/
theorem exists_getElem?_fill (slots : List (Option String)) {added : List String} {k : Nat}
    (h : added[k]? = some name) :
    ∃ i, (fill slots added)[i]? = some (some name) ∧ IsVacant ⟨slots⟩ i ∧
      Nat.count (IsVacant ⟨slots⟩) i = k := by
  induction slots generalizing added k with
  | nil =>
    -- past the end all ids are vacant
    refine ⟨k, ?_, rfl, Nat.count_of_forall fun _ _ ↦ rfl⟩
    cases added with
    | nil => cases h
    | cons first added =>
      show ((first :: added).map some)[k]? = _
      rw [List.getElem?_map, h]
      rfl
  | cons slot rest ih =>
    cases added with
    | nil => cases h
    | cons first added =>
      cases slot with
      | none =>
        cases k with
        | zero =>
          obtain rfl := Option.some.inj h
          exact ⟨0, rfl, rfl, rfl⟩
        | succ k =>
          have hlater : added[k]? = some name := h
          obtain ⟨i, hi, hvacant, hcount⟩ := ih hlater
          exact ⟨i + 1, hi, hvacant, by rw [count_isVacant_cons, hcount]; rfl⟩
      | some kept =>
        obtain ⟨i, hi, hvacant, hcount⟩ := ih h
        exact ⟨i + 1, hi, hvacant, by rw [count_isVacant_cons, hcount]; rfl⟩

/-- The names that are filled in take the vacant ids in order. -/
theorem getElem?_fill_nth (slots : List (Option String)) {added : List String} {k : Nat}
    (h : added[k]? = some name) :
    (fill slots added)[Nat.nth (IsVacant ⟨slots⟩) k]? = some (some name) := by
  obtain ⟨i, hi, hvacant, rfl⟩ := exists_getElem?_fill slots h
  rwa [Nat.nth_count hvacant]

end IdTable

/-! ### The numbers of an assignment -/

section Numbers

open IdTable

variable {previous : IdTable} {names : List String}

/-- The new names are those that the table does not have. -/
theorem newNames_eq (previous : IdTable) (names : List String) :
    newNames previous names = names.filter (· ∉ previous.names) := by
  refine List.filter_congr fun name _ ↦ ?_
  rw [Bool.eq_iff_iff, Option.isNone_iff_eq_none, idOf?_eq_none_iff, decide_eq_true_iff]

/-- There are as many new names as names that were not there. -/
theorem length_newNames (hnames : names.Nodup) :
    (newNames previous names).length = (names.toFinset \ previous.names.toFinset).card := by
  rw [newNames_eq, ← List.toFinset_card_of_nodup (hnames.filter _)]
  congr 1
  ext name
  simp

/-- What is in both sets and what is only in the first is all of the first. -/
theorem card_inter_add_length_newNames (previous : IdTable) (hnames : names.Nodup) :
    (names.toFinset ∩ previous.names.toFinset).card + (newNames previous names).length =
      names.length := by
  rw [length_newNames hnames, Finset.card_inter_add_card_sdiff, List.toFinset_card_of_nodup hnames]

/-- In a distinct table the names that stay are counted as a set. -/
theorem live_release (hprevious : previous.Distinct) (names : List String) :
    (previous.release names).live = (previous.names.toFinset ∩ names.toFinset).card := by
  rw [live_eq_length_names, names_release, ← List.toFinset_card_of_nodup (hprevious.filter _)]
  congr 1
  ext name
  simp

theorem card_inter_add_card_sdiff_names (hprevious : previous.Distinct) (names : List String) :
    (previous.names.toFinset ∩ names.toFinset).card +
      (previous.names.toFinset \ names.toFinset).card = previous.live := by
  rw [Finset.card_inter_add_card_sdiff, List.toFinset_card_of_nodup hprevious, live_eq_length_names]

/-- Each id of a distinct table is free for the names or holds one of them. -/
theorem count_freeFor_add_card_inter (hprevious : previous.Distinct) (names : List String) :
    Nat.count (previous.FreeFor names) previous.idSpace +
      (names.toFinset ∩ previous.names.toFinset).card = previous.idSpace := by
  rw [count_freeFor, Finset.inter_comm, ← live_release hprevious, length_vacant_add_live]
  exact length_release names

/-- More of the names are new than ids are free for them. -/
def IdTable.Overruns (t : IdTable) (names : List String) : Prop :=
  Nat.count (t.FreeFor names) t.idSpace < (names.toFinset \ t.names.toFinset).card

instance (t : IdTable) (names : List String) : Decidable (t.Overruns names) :=
  inferInstanceAs (Decidable (_ < _))

/-- Whether names overrun a table depends on the set of names only. -/
theorem overruns_congr {names' : List String} (h : ∀ name, name ∈ names' ↔ name ∈ names) :
    previous.Overruns names' ↔ previous.Overruns names := by
  have hsets : names'.toFinset = names.toFinset := by
    ext name
    rw [List.mem_toFinset, List.mem_toFinset, h]
  have hfree : ∀ id, previous.FreeFor names' id ↔ previous.FreeFor names id :=
    fun id ↦ forall_congr' fun name ↦ by rw [h]
  rw [Overruns, Overruns, hsets, Nat.count_eq_card_filter_range, Nat.count_eq_card_filter_range]
  simp only [hfree]

/-- An assignment fails if the names overrun the table and it may not grow. Else it fills the
released table with the new names. -/
theorem assignIds_eq (category : String) (previous : IdTable) (hnames : names.Nodup)
    (policy : SlotPolicy) :
    assignIds category previous names policy =
      if previous.Overruns names ∧ ¬ previous.isEmpty ∧ policy = .failFast then
        .error (.slotUnderflow category (names.toFinset \ previous.names.toFinset).card
          (Nat.count (previous.FreeFor names) previous.idSpace))
      else
        .ok
          { table := ⟨fill (previous.release names).slots (newNames previous names)⟩
            kept := (names.toFinset ∩ previous.names.toFinset).card
            added := (names.toFinset \ previous.names.toFinset).card
            removed := previous.live - (previous.release names).live } := by
  have hkept : (names.toFinset ∩ previous.names.toFinset).card =
      names.length - (newNames previous names).length := by
    have hall := card_inter_add_length_newNames previous hnames
    omega
  simp only [Overruns, hkept, ← length_newNames hnames, count_freeFor]
  rfl

/-- An assignment to any names succeeds, but for a table that they overrun and that may not grow. -/
theorem exists_assignIds_ok_iff (category : String) (previous : IdTable) (hnames : names.Nodup)
    (policy : SlotPolicy) :
    (∃ a, assignIds category previous names policy = .ok a) ↔
      ¬ (previous.Overruns names ∧ ¬ previous.isEmpty ∧ policy = .failFast) := by
  rw [assignIds_eq category previous hnames]
  split
  · next hfails => simp [hfails]
  · next hfits => exact ⟨fun _ ↦ hfits, fun _ ↦ ⟨_, rfl⟩⟩

end Numbers

/-! ### The assignment as a whole -/

section Whole

open IdTable

variable {category : String} {previous : IdTable} {names : List String} {policy : SlotPolicy}
  {a : Assignment}

/-- What an assignment to these names makes of a table. -/
structure Assignment.Settles (a : Assignment) (previous : IdTable) (names : List String) :
    Prop where
  distinct : a.table.Distinct
  live : ∀ name, name ∈ a.table.names ↔ name ∈ names
  /-- A name that was there keeps its id. -/
  stays : ∀ name ∈ names, ∀ id, previous.nameOf? id = some name → a.table.nameOf? id = some name
  /-- The new names take the free ids in order, those past the end after all others. -/
  takes : ∀ k name, (names.filter (· ∉ previous.names))[k]? = some name →
    a.table.nameOf? (Nat.nth (previous.FreeFor names) k) = some name
  kept : a.kept = (names.toFinset ∩ previous.names.toFinset).card
  added : a.added = (names.toFinset \ previous.names.toFinset).card
  removed : a.removed = (previous.names.toFinset \ names.toFinset).card

/-- A new name takes the free id that is as far along among the free ids as the name is among the
new names. -/
theorem nameOf?_nth_of_assignIds (h : assignIds category previous names policy = .ok a) {k : Nat}
    {name : String} (hk : (newNames previous names)[k]? = some name) :
    a.table.nameOf? (Nat.nth (previous.FreeFor names) k) = some name := by
  have hfree : (previous.release names).IsVacant = previous.FreeFor names :=
    funext fun id ↦ propext isVacant_release_iff
  rw [← hfree, nameOf?_eq_some_iff, slots_of_assignIds h]
  exact getElem?_fill_nth (previous.release names).slots hk

/-- The numbers of an assignment count its names. -/
theorem numbers_of_assignIds (h : assignIds category previous names policy = .ok a)
    (hprevious : previous.Distinct) (hnames : names.Nodup) :
    a.kept = (names.toFinset ∩ previous.names.toFinset).card ∧
      a.added = (names.toFinset \ previous.names.toFinset).card ∧
      a.removed = (previous.names.toFinset \ names.toFinset).card := by
  rw [assignIds_eq category previous hnames] at h
  split at h
  · cases h
  · obtain rfl := Except.ok.inj h
    refine ⟨rfl, rfl, ?_⟩
    have hall := card_inter_add_card_sdiff_names hprevious names
    show previous.live - (previous.release names).live = _
    rw [live_release hprevious]
    omega

/-- A name of the build is kept or added. -/
theorem kept_add_added_of_assignIds (h : assignIds category previous names policy = .ok a)
    (hnames : names.Nodup) : a.kept + a.added = names.length := by
  rw [assignIds_eq category previous hnames] at h
  split at h
  · cases h
  · obtain rfl := Except.ok.inj h
    rw [← card_inter_add_length_newNames previous hnames, length_newNames hnames]

theorem settles_of_assignIds (h : assignIds category previous names policy = .ok a)
    (hprevious : previous.Distinct) (hnames : names.Nodup) : a.Settles previous names where
  distinct := distinct_of_assignIds h hprevious hnames
  live _ := mem_names_of_assignIds h
  stays _ hname _ := nameOf?_of_assignIds h hname
  takes _ _ hk := nameOf?_nth_of_assignIds h (newNames_eq previous names ▸ hk)
  kept := (numbers_of_assignIds h hprevious hnames).1
  added := (numbers_of_assignIds h hprevious hnames).2.1
  removed := (numbers_of_assignIds h hprevious hnames).2.2

/-- A table of which no name is gone has nothing to release. -/
theorem release_eq_self (h : ∀ name ∈ previous.names, name ∈ names) :
    previous.release names = previous := by
  obtain ⟨slots⟩ := previous
  rw [release, IdTable.mk.injEq]
  refine (List.map_congr_left fun slot hslot ↦ ?_).trans (List.map_id slots)
  cases slot with
  | none => rfl
  | some name =>
    have hname := h name (List.mem_filterMap.2 ⟨_, hslot, rfl⟩)
    rw [Option.filter_some, if_pos (decide_eq_true hname)]
    rfl

/-- The old names in another order change nothing. -/
theorem assignIds_of_perm (category : String) (policy : SlotPolicy) (hprevious : previous.Distinct)
    (h : names.Perm previous.names) :
    assignIds category previous names policy = .ok ⟨previous, previous.live, 0, 0⟩ := by
  have hnames : names.Nodup := h.nodup_iff.2 hprevious
  have hsets : names.toFinset = previous.names.toFinset := List.toFinset_eq_of_perm _ _ h
  have hnew : newNames previous names = [] := by
    rw [newNames_eq, List.filter_eq_nil_iff]
    intro name hname
    simpa using h.mem_iff.1 hname
  have hkept : previous.release names = previous :=
    release_eq_self fun name hname ↦ h.mem_iff.2 hname
  have hover : ¬ previous.Overruns names := by
    rw [Overruns, hsets, Finset.sdiff_self, Finset.card_empty]
    exact Nat.not_lt_zero _
  have hlive : previous.names.toFinset.card = previous.live := by
    rw [List.toFinset_card_of_nodup hprevious, live_eq_length_names]
  rw [assignIds_eq category previous hnames, if_neg fun hfails ↦ hover hfails.1, hsets, hnew, hkept,
    Finset.inter_self, Finset.sdiff_self, hlive, Nat.sub_self, fill, Finset.card_empty]

/-- **What an assignment does** to a table without repeated names. The new table has no repeated
names, and its names are those of the build. A name that stays keeps its id, and the new names take
the ids that are then vacant in order, with all ids past the end among them. The numbers are those
of the names in both sets and in one of them only. The old names in any order change nothing. -/
theorem assignIds_settles (category : String) (previous : IdTable) (names : List String)
    (policy : SlotPolicy) (hprevious : previous.Distinct) (hnames : names.Nodup) :
    (∀ a, assignIds category previous names policy = .ok a →
      a.Settles previous names ∧ a.kept + a.removed = previous.live ∧
        a.kept + a.added = names.length) ∧
    (names.Perm previous.names →
      assignIds category previous names policy = .ok ⟨previous, previous.live, 0, 0⟩) := by
  refine ⟨fun a h ↦ ?_, assignIds_of_perm category policy hprevious⟩
  have hsettles := settles_of_assignIds h hprevious hnames
  refine ⟨hsettles, ?_, kept_add_added_of_assignIds h hnames⟩
  rw [hsettles.kept, hsettles.removed, Finset.inter_comm]
  exact card_inter_add_card_sdiff_names hprevious names

/-- A table with a vacant id in the middle. -/
def threeUnits : IdTable := ⟨[some "infantry", none, some "armour", some "artillery"]⟩

/-- One name goes away and four come, for two of which ids are free within the table. -/
theorem assignIds_settles_past_end :
    threeUnits.Distinct ∧
    ["cavalry", "artillery", "engineers", "infantry", "scouts", "rangers"].Nodup ∧
    assignIds "unit" threeUnits
        ["cavalry", "artillery", "engineers", "infantry", "scouts", "rangers"] .grow =
      .ok ⟨.ofNames ["infantry", "cavalry", "engineers", "artillery", "scouts", "rangers"],
        2, 4, 1⟩ ∧
    Assignment.Settles
      ⟨.ofNames ["infantry", "cavalry", "engineers", "artillery", "scouts", "rangers"], 2, 4, 1⟩
      threeUnits ["cavalry", "artillery", "engineers", "infantry", "scouts", "rangers"] ∧
    assignIds "unit" threeUnits ["artillery", "infantry", "armour"] .failFast =
      .ok ⟨threeUnits, 3, 0, 0⟩ := by
  have hdistinct : threeUnits.Distinct := by decide
  refine ⟨hdistinct, by decide, by decide, ?_, ?_⟩
  · exact ((assignIds_settles "unit" threeUnits _ .grow hdistinct (by decide)).1 _ (by decide)).1
  · exact (assignIds_settles "unit" threeUnits _ .failFast hdistinct (by decide)).2 (by decide)

end Whole

end ModContent
