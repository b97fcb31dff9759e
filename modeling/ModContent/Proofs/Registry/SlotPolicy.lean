import ModContent.Proofs.Registry.Assignment
import ModContent.Proofs.Registry.Repeated

/-!
# How large an id table gets

The code compares the new names with the ids that are free for them. In a table without repeated
names each id is free or holds a name that stays, so this asks whether there are more names than ids
(`overruns_iff`), and a table that may grow gets as large as the names need
(`idSpace_of_assignIds`).

A table that may not grow keeps its size, once it has one (`Registry.Capped`): a build keeps it, so
every update of the registry does, and so does a run. A table without any id is not capped: its
first build may grow. Main statement: `table_size_follows_policy`.
-/

namespace ModContent

namespace IdTable

variable {category : String} {previous : IdTable} {names : List String} {policy : SlotPolicy}
  {a : Assignment}

/-- A table is empty if it has no ids, vacant ones included. -/
theorem isEmpty_eq_true_iff {t : IdTable} : t.isEmpty = true ↔ t.idSpace = 0 := by
  rw [isEmpty, List.isEmpty_iff, idSpace, List.length_eq_zero_iff]

/-- Names overrun a distinct table if and only if there are more of them than ids. -/
theorem overruns_iff (hprevious : previous.Distinct) (hnames : names.Nodup) :
    previous.Overruns names ↔ previous.idSpace < names.length := by
  have hids := count_freeFor_add_card_inter hprevious names
  have hall := card_inter_add_length_newNames previous hnames
  rw [Overruns, ← length_newNames hnames]
  omega

/-- The table has room for the names, and never less than before. -/
theorem idSpace_of_assignIds (h : assignIds category previous names policy = .ok a)
    (hprevious : previous.Distinct) (hnames : names.Nodup) :
    a.table.idSpace = max previous.idSpace names.length := by
  have hids := count_freeFor_add_card_inter hprevious names
  have hall := card_inter_add_length_newNames previous hnames
  have hidSpace : a.table.idSpace = previous.idSpace +
      ((newNames previous names).length -
        Nat.count (previous.FreeFor names) previous.idSpace) := by
    rw [idSpace, slots_of_assignIds h, length_fill, length_release, count_freeFor, length_vacant]
    rfl
  omega

/-- A table that may not grow takes no more names than it has ids. -/
theorem length_le_of_assignIds (h : assignIds category previous names .failFast = .ok a)
    (hprevious : previous.Distinct) (hnames : names.Nodup) (hseeded : ¬ previous.isEmpty) :
    names.length ≤ previous.idSpace := by
  by_contra hlt
  have hover := (overruns_iff hprevious hnames).2 (Nat.lt_of_not_le hlt)
  rw [assignIds_eq category previous hnames, if_pos ⟨hover, hseeded, rfl⟩] at h
  cases h

end IdTable

/-! ### Tables that may not grow -/

open IdTable

section Build

variable {α : Type}

/-- The table may not grow. It has as many ids as this, one at least, and no repeated names. -/
structure Registry.Capped (r : Registry α) (n : Nat) : Prop where
  policy : r.policy = .failFast
  distinct : r.snapshot.Distinct
  idSpace : r.snapshot.idSpace = n
  pos : 0 < n

/-- What is built from a capped table has as many ids. -/
theorem Registry.Capped.committed [Definition α] {r : Registry α} {t : ContentTree}
    {contents : Build α} {report : RebuildReport} {n : Nat} (hr : r.Capped n)
    (h : r.build t = .ok (contents, report)) : (r.committed contents).Capped n := by
  obtain ⟨hdistinct, -⟩ := Registry.build_spec h hr.distinct
  obtain ⟨a, hassign, htable, -⟩ := Registry.lists_of_build h
  refine ⟨hr.policy, hdistinct, ?_, hr.pos⟩
  have hnames := Build.nodup_sources t r.category
  have hseeded : ¬ r.contents.table.isEmpty := by
    rw [isEmpty_eq_true_iff]
    exact hr.idSpace ▸ Nat.ne_of_gt hr.pos
  rw [hr.policy] at hassign
  have hle := length_le_of_assignIds hassign hr.distinct hnames hseeded
  calc contents.table.idSpace = a.table.idSpace := by rw [htable]
    _ = r.contents.table.idSpace :=
      (idSpace_of_assignIds hassign hr.distinct hnames).trans (Nat.max_eq_left hle)
    _ = n := hr.idSpace

end Build

/-- An update of a capped registry keeps it capped, whether it succeeds or not. -/
theorem Update.capped_apply {r : AnyRegistry} {n : Nat} (hr : r.registry.Capped n) (u : Update) :
    (u.apply r).registry.Capped n := by
  obtain ⟨t, contents, report, -, hbuild, h⟩ | ⟨-, h | h⟩ := u.apply_cases r
  · rw [h]
    exact Registry.Capped.committed (r := r.registry) hr hbuild
  · rw [h]
    exact hr
  · rw [h]
    exact ⟨hr.policy, hr.distinct, hr.idSpace, hr.pos⟩

/-- So it is capped after any number of updates. -/
theorem AnyRegistry.capped_after {r : AnyRegistry} {n : Nat} (hr : r.registry.Capped n)
    (updates : List Update) (k : Nat) : (r.after updates k).registry.Capped n := by
  induction k with
  | zero => exact hr
  | succ k ih =>
    obtain ⟨u, h, -⟩ | ⟨h, -⟩ := r.after_succ updates k
    · rw [h]
      exact Update.capped_apply ih u
    · rw [h]
      exact ih

/-- **The slot policy and the size of a table** without repeated names. Where it may grow, an
assignment succeeds and leaves as many ids as there were, or as there are names if these are more.
Where it may not, and has ids, it fails if and only if there are more names than ids, and tells the
numbers of new names and of ids free for them; else the number of ids stays. So it stays over any
updates of a registry, the failing ones included. -/
theorem table_size_follows_policy (category : String) (previous : IdTable) (names : List String)
    (hprevious : previous.Distinct) (hnames : names.Nodup) :
    (∃ a, assignIds category previous names .grow = .ok a ∧
      a.table.idSpace = max previous.idSpace names.length) ∧
    (¬ previous.isEmpty →
      (previous.idSpace < names.length →
        assignIds category previous names .failFast =
          .error (.slotUnderflow category (names.toFinset \ previous.names.toFinset).card
            (Nat.count (previous.FreeFor names) previous.idSpace))) ∧
      (names.length ≤ previous.idSpace →
        ∃ a, assignIds category previous names .failFast = .ok a ∧
          a.table.idSpace = previous.idSpace)) ∧
    (∀ (r : AnyRegistry) (updates : List Update) (k : Nat), r.registry.policy = .failFast →
      r.registry.snapshot.Distinct → ¬ r.registry.snapshot.isEmpty →
      (r.after updates k).registry.snapshot.idSpace = r.registry.snapshot.idSpace) := by
  have hover := overruns_iff hprevious hnames
  refine ⟨?_, fun hseeded ↦ ⟨fun hlt ↦ ?_, fun hle ↦ ?_⟩,
    fun r updates k hpolicy hdistinct hseeded ↦ ?_⟩
  · have hok := assignIds_eq category previous hnames .grow
    rw [if_neg fun hfails ↦ nomatch hfails.2.2] at hok
    exact ⟨_, hok, idSpace_of_assignIds hok hprevious hnames⟩
  · rw [assignIds_eq category previous hnames, if_pos ⟨hover.2 hlt, hseeded, rfl⟩]
  · have hok := assignIds_eq category previous hnames .failFast
    rw [if_neg fun hfails ↦ Nat.not_le_of_lt (hover.1 hfails.1) hle] at hok
    exact ⟨_, hok, (idSpace_of_assignIds hok hprevious hnames).trans (Nat.max_eq_left hle)⟩
  · have hpos : 0 < r.registry.snapshot.idSpace :=
      Nat.pos_of_ne_zero fun hzero ↦ hseeded (isEmpty_eq_true_iff.2 hzero)
    exact (AnyRegistry.capped_after ⟨hpolicy, hdistinct, rfl, hpos⟩ updates k).idSpace

/-- Units for a table of four ids, one of them vacant. -/
def cappedUnits : AnyRegistry :=
  ⟨((Registry.new "unit" .failFast).withIds threeUnits : Registry Record)⟩

/-- Three names are new and two ids free for them, so there is no room in the table. An update with
too many names and one with few leave the number of ids as it is. -/
theorem table_size_follows_policy_of_units :
    threeUnits.Distinct ∧ ["scouts", "armour", "cavalry", "infantry", "engineers"].Nodup ∧
    assignIds "unit" threeUnits ["scouts", "armour", "cavalry", "infantry", "engineers"]
      .failFast = .error (.slotUnderflow "unit" 3 2) ∧
    (cappedUnits.after
      [.alone (unitTree ["scouts", "armour", "cavalry", "infantry", "engineers"]),
        .alone (unitTree ["scouts"])] 2).registry.snapshot.idSpace = 4 := by
  have hdistinct : threeUnits.Distinct := by decide
  have hnames : ["scouts", "armour", "cavalry", "infantry", "engineers"].Nodup := by decide
  obtain ⟨-, hcapped, hrun⟩ := table_size_follows_policy "unit" threeUnits _ hdistinct hnames
  refine ⟨hdistinct, hnames, (hcapped (by decide)).1 (by decide), ?_⟩
  exact hrun cappedUnits _ 2 rfl hdistinct (by decide)

end ModContent
