import ModContent.Proofs.Registry.Calls
import ModContent.Proofs.Registry.Run

/-!
# Tables with repeated names

A registry takes the ids that it is given as they are, and a name may stand in them twice
(`IdTable.Repeats`). Looking such a name up in the table gives its first id, while its entry stands
under the last; the ids between have a name but no entry. So after a rebuild the table and the
registry are two views of the same ids (`Registry.ViewsAgree`) if and only if no name of the tree
stood twice in the table before. Repeated names that the tree does not have go away and do no harm.
-/

namespace ModContent

namespace IdTable

variable {t : IdTable} {name : String} {id : Nat}

/-- The name has two ids or more. -/
def Repeats (t : IdTable) (name : String) : Prop := 2 ≤ t.names.count name

instance (t : IdTable) (name : String) : Decidable (t.Repeats name) :=
  inferInstanceAs (Decidable (2 ≤ _))

/-- A table is distinct if and only if no name has two ids. -/
theorem distinct_iff_not_repeats : t.Distinct ↔ ∀ name, ¬ t.Repeats name := by
  rw [Distinct, List.nodup_iff_count_le_one]
  exact forall_congr' fun name ↦ by rw [Repeats]; omega

theorem mem_names_of_lastIdOf?_ne_none (h : t.lastIdOf? name ≠ none) : name ∈ t.names := by
  obtain ⟨id, hid⟩ := Option.ne_none_iff_exists'.1 h
  exact mem_names_iff.2 ⟨id, nameOf?_of_lastIdOf? hid⟩

theorem lastIdOf?_ne_none_of_mem_names (h : name ∈ t.names) : t.lastIdOf? name ≠ none := by
  obtain ⟨id, hid⟩ := mem_names_iff.1 h
  intro hnone
  have hmiss := List.find?_eq_none.1 (Option.map_eq_none_iff.1 hnone) (id, name)
    (List.mem_reverse.2 (mem_entries_iff.2 hid))
  simp at hmiss

end IdTable

open Build IdTable

variable {α : Type} [Definition α]

/-! ### The ids that a build gives -/

namespace Build

variable {b built : Build α} {t : ContentTree} {seed : IdTable} {names : List String}

/-- These names have been taken up, each under the last of its ids. -/
structure Lists (b : Build α) (seed : IdTable) (names : List String) : Prop where
  table : b.table = seed
  ids : ∀ name, b.ids.lookup name = if name ∈ names then seed.lastIdOf? name else none

/-- Adding a node under a new name lists it beside the others. -/
theorem Lists.addNode {source : NodeId × Node} (hb : b.Lists seed names)
    (hnew : source.2.key.name ∉ names) (h : addNode t b source = .ok built) :
    built.Lists seed (source.2.key.name :: names) := by
  have hfree : b.ids.lookup source.2.key.name = none := by rw [hb.ids, if_neg hnew]
  rcases addNode_cases h with ⟨hnone, rfl⟩ | ⟨id, definition, hid, -, rfl⟩
  · refine ⟨hb.table, fun name ↦ ?_⟩
    by_cases hname : name = source.2.key.name
    · rw [hname, hfree, if_pos List.mem_cons_self, ← hb.table, hnone]
    · simp [hb.ids, hname]
  · refine ⟨hb.table, fun name ↦ ?_⟩
    have hnot : source.2.key.name ∉ b.ids.map Prod.fst := by
      intro hmem
      obtain ⟨pair, hpair, hname⟩ := List.mem_map.1 hmem
      have hne := List.lookup_eq_none_iff.1 hfree pair hpair
      simp [hname] at hne
    rw [lookup_ids_place hnot]
    by_cases hname : name = source.2.key.name
    · rw [hname, if_pos rfl, if_pos List.mem_cons_self, ← hb.table, hid]
    · simp [hb.ids, hname]

end Build

namespace Registry

variable {r rebuilt : Registry α} {t : ContentTree} {contents : Build α} {report : RebuildReport}

/-- A build takes the table of the assignment, and gives each name the last of its ids there. -/
theorem lists_of_build (h : r.build t = .ok (contents, report)) :
    ∃ a, assignIds r.category r.contents.table
        ((sources t r.category).map fun source ↦ source.2.key.name) r.policy = .ok a ∧
      contents.table = a.table ∧
      ∀ name, contents.ids.lookup name = contents.table.lastIdOf? name := by
  obtain ⟨a, hassign, hfold, -⟩ := Registry.build_ok h
  have hempty : (vacated a.table : Build α).Lists a.table [] := ⟨rfl, fun name ↦ by simp [vacated]⟩
  obtain ⟨shown, hlists, hshown⟩ := foldlM_addNode_induction
    (motive := fun names built ↦ built.Lists a.table names)
    (fun hb hnew hadd ↦ hb.addNode hnew hadd) hempty
    (nodup_sources t r.category) (fun _ _ ↦ List.not_mem_nil) hfold
  refine ⟨a, hassign, hlists.table, fun name ↦ ?_⟩
  rw [hlists.ids, hlists.table]
  split
  · rfl
  · next hname =>
    -- a name of the table is a name of the tree, and so it was taken up
    by_contra hsome
    have hmem := mem_names_of_lastIdOf?_ne_none (Ne.symm hsome)
    rw [mem_names_of_assignIds hassign] at hmem
    exact hname ((hshown name).2 (.inl hmem))

/-- The report counts the ids of the build that have no entry. -/
theorem vacant_of_build (h : r.build t = .ok (contents, report)) :
    report.vacant = contents.vacancies := by
  obtain ⟨a, -, -, rfl⟩ := Registry.build_ok h
  rfl

/-- Each id of the table has an entry or is counted as vacant. -/
theorem vacant_add_size_of_build (h : r.build t = .ok (contents, report)) :
    report.vacant + (r.committed contents).size = contents.table.idSpace := by
  have hfilling := filling_of_build h
  rw [size_eq_length_all (r := r.committed contents) hfilling.toCoherent, vacant_of_build h,
    ← hfilling.length, vacancies, all, List.length_filterMap_eq_countP]
  exact countP_isNone_add_countP_isSome contents.entries

/-- The table and the name index of a build know the same names. -/
theorem mem_ids_iff_of_build (h : r.build t = .ok (contents, report)) (name : String) :
    name ∈ contents.ids.map Prod.fst ↔ name ∈ contents.table.names := by
  obtain ⟨-, -, -, hids⟩ := lists_of_build h
  have hlookup := hids name
  constructor
  · intro hname
    refine mem_names_of_lastIdOf?_ne_none fun hnone ↦ ?_
    rw [hnone, List.lookup_eq_none_iff] at hlookup
    obtain ⟨pair, hpair, rfl⟩ := List.mem_map.1 hname
    simpa using hlookup pair hpair
  · intro hname
    by_contra hnot
    rw [lookup_eq_none_of_not_mem hnot] at hlookup
    exact lastIdOf?_ne_none_of_mem_names hname hlookup.symm

/-- A distinct table has as many names as the registry has entries. -/
theorem live_eq_size_of_distinct (h : r.build t = .ok (contents, report))
    (hdistinct : contents.table.Distinct) :
    contents.table.live = (r.committed contents).size := by
  have hperm := (List.perm_ext_iff_of_nodup (coherent_of_build h).nodup hdistinct).2
    (mem_ids_iff_of_build h)
  rw [live_eq_length_names, ← hperm.length_eq, List.length_map]
  rfl

/-- The new table is distinct if and only if no name of the tree stood twice in the old one. -/
theorem distinct_of_build_iff (h : r.build t = .ok (contents, report)) :
    contents.table.Distinct ↔ ∀ name ∈ t.namesIn r.category, ¬ r.snapshot.Repeats name := by
  obtain ⟨a, hassign, htable, -⟩ := lists_of_build h
  set names := (sources t r.category).map fun source ↦ source.2.key.name with hnames
  have hmem : ∀ name, name ∈ t.namesIn r.category ↔ name ∈ names := fun name ↦ mem_sources.symm
  -- the new names are distinct and new, so only the kept ones can stand twice
  have hnodup : (newNames r.contents.table names).Nodup :=
    (nodup_sources t r.category).filter _
  have hkept : ∀ name ∈ names, (r.contents.table.names.filter fun name ↦
      decide (name ∈ names)).count name = r.contents.table.names.count name :=
    fun name hname ↦ List.count_filter (decide_eq_true hname)
  rw [htable, Distinct, (names_perm_of_assignIds hassign).nodup_iff, List.nodup_append]
  simp only [hmem, Repeats, snapshot]
  constructor
  · rintro ⟨hdistinct, -, -⟩ name hname
    have hle := List.nodup_iff_count_le_one.1 hdistinct name
    rw [hkept name hname] at hle
    omega
  · intro hseed
    refine ⟨List.nodup_iff_count_le_one.2 fun name ↦ ?_, hnodup, ?_⟩
    · by_cases hname : name ∈ names
      · have hnot := hseed name hname
        rw [hkept name hname]
        omega
      · rw [List.count_eq_zero.2]
        · exact Nat.zero_le 1
        · simp [hname]
    · rintro name hold added hadded rfl
      exact (mem_newNames.1 hadded).2 (List.mem_filter.1 hold).1

/-- A rebuild that succeeds commits what it builds. -/
theorem build_of_rebuild_ok (h : r.rebuild t = (rebuilt, .ok report)) :
    ∃ contents, r.build t = .ok (contents, report) ∧ rebuilt = r.committed contents := by
  cases hbuild : r.build t with
  | error error =>
    rw [rebuild_of_build_error hbuild] at h
    cases h
  | ok pair =>
    obtain ⟨contents, report⟩ := pair
    rw [rebuild_of_build_ok hbuild] at h
    obtain ⟨rfl, hreport⟩ := Prod.mk.inj h
    obtain rfl := Except.ok.inj hreport
    exact ⟨contents, rfl, rfl⟩

/-- The registry and its table agree on the ids of names and on how many there are. -/
structure ViewsAgree (r : Registry α) (report : RebuildReport) : Prop where
  /-- A name has one id only. -/
  unique : ∀ name, ¬ r.snapshot.Repeats name
  ids : ∀ name, r.idOf? name = r.snapshot.idOf? name
  live : r.snapshot.live = r.size
  vacant : r.snapshot.vacant.length = report.vacant

end Registry

open Registry

/-- **The table and the registry after a rebuild**, whatever the table before was. The index gives
each name the last of its ids, and each id has an entry or is counted as vacant. The table and the
registry agree if and only if no name of the tree stood twice in the table before. -/
theorem rebuild_views_agree_iff (r rebuilt : Registry α) (t : ContentTree)
    (report : RebuildReport) (h : r.rebuild t = (rebuilt, .ok report)) :
    (∀ name, rebuilt.idOf? name = rebuilt.snapshot.lastIdOf? name) ∧
      report.vacant + rebuilt.size = rebuilt.snapshot.idSpace ∧
      (rebuilt.ViewsAgree report ↔
        ∀ name ∈ t.namesIn r.category, ¬ r.snapshot.Repeats name) := by
  obtain ⟨contents, hbuild, rfl⟩ := build_of_rebuild_ok h
  obtain ⟨-, -, -, hids⟩ := lists_of_build hbuild
  have hcount := vacant_add_size_of_build hbuild
  refine ⟨hids, hcount, ?_⟩
  rw [← distinct_of_build_iff hbuild]
  constructor
  · exact fun hagree ↦ distinct_iff_not_repeats.2 hagree.unique
  · intro hdistinct
    have hlive := live_eq_size_of_distinct hbuild hdistinct
    have htotal := contents.table.length_vacant_add_live
    refine ⟨distinct_iff_not_repeats.1 hdistinct, fun name ↦ (hids name).trans ?_, hlive, ?_⟩
    · refine Option.ext fun id ↦ ?_
      rw [hdistinct.lastIdOf?_eq_some_iff, ← hdistinct.idOf?_eq_some_iff]
      rfl
    · show contents.table.vacant.length = report.vacant
      omega

/-- A table with a name twice. -/
def goneTwice : Registry Record :=
  (new "unit" .grow).withIds ⟨[some "gone", some "archer", some "gone"]⟩

/-- A repeated name does no harm when the tree does not have it. -/
theorem rebuild_views_agree_iff_of_gone :
    (goneTwice.rebuild (unitTree ["archer", "cavalry"])).2 = .ok ⟨"unit", 1, 1, 2, 1, 3⟩ ∧
      (goneTwice.rebuild (unitTree ["archer", "cavalry"])).1.ViewsAgree
        ⟨"unit", 1, 1, 2, 1, 3⟩ := by
  have houtcome : (goneTwice.rebuild (unitTree ["archer", "cavalry"])).2 =
      .ok ⟨"unit", 1, 1, 2, 1, 3⟩ := by decide
  refine ⟨houtcome, ?_⟩
  refine (rebuild_views_agree_iff goneTwice (goneTwice.rebuild (unitTree ["archer", "cavalry"])).1
    (unitTree ["archer", "cavalry"]) ⟨"unit", 1, 1, 2, 1, 3⟩ ?_).2.2.2 ?_
  · rw [← houtcome]
  · decide

/-- A name that stands in the table twice and is still in the tree keeps both ids there, but has one
entry. The table and the registry give it different ids, and they count differently. -/
theorem repeated_name_splits_views :
    let (r, outcome) :=
      ((new "unit" .grow : Registry Record).withIds (.ofNames ["archer", "archer"])).rebuild
        (unitTree ["archer"])
    outcome = .ok ⟨"unit", 1, 0, 0, 1, 2⟩ ∧
      r.idOf? "archer" = some 1 ∧ r.snapshot.idOf? "archer" = some 0 ∧
      r.snapshot.live = 2 ∧ r.size = 1 ∧ r.snapshot.vacant = [] := by
  decide

end ModContent
