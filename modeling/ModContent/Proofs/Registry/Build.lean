import ModContent.Proofs.Outcome
import ModContent.Proofs.Registry.IdTable
import ModContent.Registry.Basic

/-!
# What a build shows

A build takes up one node of each name, so its names are distinct, and puts each definition under
the id of its name. When the id table of the registry is distinct, the table of the build is too,
and its two indices agree with it (`Build.Indexed`): the id of a name and the name under an id are
the same in the table, in the name index and among the entries. So statements about ids need to be
made of the table only.
-/

namespace ModContent

variable {α : Type}

/-- The names of the top-level nodes of a category, in tree order. -/
def ContentTree.namesIn (t : ContentTree) (category : String) : List String :=
  (t.childrenIn ContentTree.root category).map fun child ↦ child.2.key.name

namespace Build

/-! ### The nodes taken up -/

/-- The names that are left are those of the nodes, but for the ones seen before. -/
theorem mem_firstOfEachName {seen : List String} {nodes : List (NodeId × Node)} {name : String} :
    name ∈ (firstOfEachName seen nodes).map (fun source ↦ source.2.key.name) ↔
      name ∈ nodes.map (fun source ↦ source.2.key.name) ∧ name ∉ seen := by
  induction nodes generalizing seen with
  | nil => simp [firstOfEachName]
  | cons source rest ih =>
    by_cases hseen : source.2.key.name ∈ seen
    · rw [firstOfEachName, if_pos hseen, ih, List.map_cons, List.mem_cons]
      constructor
      · rintro ⟨hmem, hnot⟩
        exact ⟨.inr hmem, hnot⟩
      · rintro ⟨rfl | hmem, hnot⟩
        · exact absurd hseen hnot
        · exact ⟨hmem, hnot⟩
    · rw [firstOfEachName, if_neg hseen, List.map_cons, List.mem_cons, ih, List.map_cons,
        List.mem_cons, List.mem_cons]
      by_cases hname : name = source.2.key.name
      · subst hname
        simp [hseen]
      · simp [hname]

theorem nodup_firstOfEachName {seen : List String} {nodes : List (NodeId × Node)} :
    ((firstOfEachName seen nodes).map fun source ↦ source.2.key.name).Nodup := by
  induction nodes generalizing seen with
  | nil => exact List.nodup_nil
  | cons source rest ih =>
    rw [firstOfEachName]
    split
    · exact ih
    · rw [List.map_cons, List.nodup_cons]
      refine ⟨fun hmem ↦ ?_, ih⟩
      exact (mem_firstOfEachName.1 hmem).2 List.mem_cons_self

/-- A build takes up one node of each name. -/
theorem nodup_sources (t : ContentTree) (category : String) :
    ((sources t category).map fun source ↦ source.2.key.name).Nodup :=
  nodup_firstOfEachName

/-- The names of a build are those of the nodes of its category. -/
theorem mem_sources {t : ContentTree} {category name : String} :
    name ∈ (sources t category).map (fun source ↦ source.2.key.name) ↔
      name ∈ t.namesIn category := by
  rw [sources, mem_firstOfEachName, ContentTree.namesIn]
  simp

/-! ### Putting definitions in place -/

/-- The name index and the entries show these names, each under its id of the table. -/
structure Shows (b : Build α) (names : List String) : Prop where
  ids : ∀ name, b.ids.lookup name = if name ∈ names then b.table.idOf? name else none
  entries : ∀ id, (b.entries[id]?.join).map Entry.name =
    (b.table.nameOf? id).filter fun name ↦ decide (name ∈ names)
  length : b.entries.length = b.table.idSpace

/-- The name index and the entries show all names of the table. -/
structure Indexed (b : Build α) : Prop where
  ids : ∀ name, b.ids.lookup name = b.table.idOf? name
  entries : ∀ id, (b.entries[id]?.join).map Entry.name = b.table.nameOf? id
  length : b.entries.length = b.table.idSpace

theorem shows_vacated (table : IdTable) : (vacated table : Build α).Shows [] where
  ids name := by simp [vacated]
  entries id := by
    simp only [vacated, List.getElem?_replicate]
    split <;> simp
  length := by simp [vacated]

/-- Once all names of the table are shown, the indices agree with the table. -/
theorem Shows.indexed {b : Build α} {names : List String} (h : b.Shows names)
    (hnames : ∀ name, name ∈ b.table.names → name ∈ names) : b.Indexed where
  ids name := by
    rw [h.ids]
    split
    · rfl
    · next hname => exact (IdTable.idOf?_eq_none_iff.2 fun hmem ↦ hname (hnames name hmem)).symm
  entries id := by
    rw [h.entries]
    cases hid : b.table.nameOf? id with
    | none => rfl
    | some name =>
      rw [Option.filter_some, if_pos]
      exact decide_eq_true (hnames name (IdTable.mem_names_iff.2 ⟨id, hid⟩))
  length := h.length

variable {b built : Build α} {names : List String} {name : String} {id : Nat}

/-- A name without an id is shown by showing nothing. -/
theorem Shows.skip (hb : b.Shows names) (hname : name ∉ b.table.names) :
    b.Shows (name :: names) where
  ids other := by
    rw [hb.ids]
    by_cases heq : other = name
    · subst heq
      simp [IdTable.idOf?_eq_none_iff.2 hname]
    · simp [heq]
  entries id := by
    rw [hb.entries]
    cases hid : b.table.nameOf? id with
    | none => rfl
    | some other =>
      have hne : other ≠ name := by
        rintro rfl
        exact hname (IdTable.mem_names_iff.2 ⟨id, hid⟩)
      simp [Option.filter_some, hne]
  length := hb.length

/-- Putting a definition under the id of its name shows the name. -/
theorem Shows.place (hb : b.Shows names) (hdistinct : b.table.Distinct) (hnew : name ∉ names)
    (hid : b.table.nameOf? id = some name) (definition : α) :
    (b.place id name definition).Shows (name :: names) where
  ids other := by
    show (b.ids ++ [(name, id)]).lookup other = _
    rw [List.lookup_append, hb.ids]
    by_cases heq : other = name
    · subst heq
      simp [hnew, Build.place, hdistinct.idOf?_eq_some_iff.2 hid]
    · have hbeq : (other == name) = false := beq_eq_false_iff_ne.2 heq
      simp [Build.place, heq, List.lookup_cons, hbeq]
  entries other := by
    have hlt : id < b.entries.length := by
      rw [hb.length]
      exact (List.getElem?_eq_some_iff.1 (IdTable.nameOf?_eq_some_iff.1 hid)).1
    show ((b.entries.set id _)[other]?.join).map Entry.name = (b.table.nameOf? other).filter _
    rw [List.getElem?_set]
    by_cases heq : id = other
    · subst heq
      rw [if_pos rfl, if_pos hlt, hid, Option.filter_some, if_pos (by simp)]
      rfl
    · rw [if_neg heq, hb.entries]
      cases hother : b.table.nameOf? other with
      | none => rfl
      | some found =>
        have hne : found ≠ name := fun hfound ↦
          heq (hdistinct.eq_of_nameOf? hid (hfound ▸ hother))
        simp [Option.filter_some, hne]
  length := by simpa [Build.place] using hb.length

variable [Definition α] {t : ContentTree} {source : NodeId × Node}

/-- What becomes of a node: nothing if its name has no id, else its definition is put in place. -/
theorem addNode_cases (h : addNode t b source = .ok built) :
    (b.table.lastIdOf? source.2.key.name = none ∧ built = b) ∨
      ∃ id definition, b.table.lastIdOf? source.2.key.name = some id ∧
        Definition.ofNode t source.1 source.2 = .ok definition ∧
        built = b.place id source.2.key.name definition := by
  unfold addNode at h
  cases hlast : b.table.lastIdOf? source.2.key.name with
  | none =>
    rw [hlast] at h
    exact .inl ⟨rfl, (Except.ok.inj h).symm⟩
  | some id =>
    rw [hlast] at h
    obtain ⟨definition, hdefinition, h⟩ := bind_eq_ok_iff.1 h
    exact .inr ⟨id, definition, rfl, hdefinition, (Except.ok.inj h).symm⟩

theorem table_addNode (h : addNode t b source = .ok built) : built.table = b.table := by
  rcases addNode_cases h with ⟨-, rfl⟩ | ⟨id, definition, -, -, rfl⟩
  · rfl
  · rfl

/-- What holds of the names taken up so far, and is kept with each node of a new name, holds of all
names in the end. -/
theorem foldlM_addNode_induction {motive : List String → Build α → Prop}
    (step : ∀ {names b source built}, motive names b → source.2.key.name ∉ names →
      addNode t b source = .ok built → motive (source.2.key.name :: names) built)
    {sources : List (NodeId × Node)} (hb : motive names b)
    (hnodup : (sources.map fun source ↦ source.2.key.name).Nodup)
    (hnew : ∀ name ∈ sources.map fun source ↦ source.2.key.name, name ∉ names)
    (h : sources.foldlM (Build.addNode t) b = .ok built) :
    ∃ shown, motive shown built ∧
      ∀ name, name ∈ shown ↔ name ∈ sources.map (fun source ↦ source.2.key.name) ∨ name ∈ names := by
  induction sources generalizing b names with
  | nil =>
    obtain rfl := Except.ok.inj h
    exact ⟨names, hb, fun name ↦ by simp⟩
  | cons source rest ih =>
    rw [List.map_cons, List.nodup_cons] at hnodup
    rw [List.map_cons, List.forall_mem_cons] at hnew
    rw [List.foldlM_cons] at h
    obtain ⟨next, hadd, h⟩ := bind_eq_ok_iff.1 h
    -- the names to come differ from the one just taken up, too
    have hnext : ∀ name ∈ rest.map fun source ↦ source.2.key.name,
        name ∉ source.2.key.name :: names := by
      intro name hname hmem
      rcases List.mem_cons.1 hmem with rfl | hmem
      · exact hnodup.1 hname
      · exact hnew.2 name hname hmem
    obtain ⟨shown, hshown, hmem⟩ := ih (step hb hnew.1 hadd) hnodup.2 hnext h
    refine ⟨shown, hshown, fun name ↦ ?_⟩
    rw [hmem, List.map_cons, List.mem_cons, List.mem_cons]
    tauto

/-- One node more shows one name more. -/
theorem Shows.addNode (hb : b.Shows names) (hdistinct : b.table.Distinct)
    (hnew : source.2.key.name ∉ names) (h : addNode t b source = .ok built) :
    built.Shows (source.2.key.name :: names) := by
  rcases addNode_cases h with ⟨hnone, rfl⟩ | ⟨id, definition, hid, -, rfl⟩
  · refine hb.skip fun hname ↦ ?_
    obtain ⟨id, hid⟩ := IdTable.mem_names_iff.1 hname
    rw [hdistinct.lastIdOf?_eq_some_iff.2 hid] at hnone
    cases hnone
  · exact hb.place hdistinct hnew (IdTable.nameOf?_of_lastIdOf? hid) definition

/-- All nodes together show their names beside those shown before. -/
theorem Shows.foldlM_addNode {sources : List (NodeId × Node)} (hb : b.Shows names)
    (hdistinct : b.table.Distinct)
    (hnodup : (sources.map fun source ↦ source.2.key.name).Nodup)
    (hnew : ∀ name ∈ sources.map fun source ↦ source.2.key.name, name ∉ names)
    (h : sources.foldlM (Build.addNode t) b = .ok built) :
    built.table = b.table ∧
      ∃ shown, built.Shows shown ∧ names ⊆ shown ∧
        ∀ name ∈ sources.map fun source ↦ source.2.key.name, name ∈ shown := by
  obtain ⟨shown, ⟨htable, hshown⟩, hmem⟩ :=
    foldlM_addNode_induction (motive := fun names built ↦ built.table = b.table ∧ built.Shows names)
      (fun ⟨htable, hnext⟩ hnew hadd ↦
        ⟨(table_addNode hadd).trans htable, hnext.addNode (htable ▸ hdistinct) hnew hadd⟩)
      ⟨rfl, hb⟩ hnodup hnew h
  exact ⟨htable, shown, hshown, fun name hname ↦ (hmem name).2 (.inr hname),
    fun name hname ↦ (hmem name).2 (.inl hname)⟩

end Build

/-! ### New contents -/

open Build

variable [Definition α] {r : Registry α} {t : ContentTree} {built : Build α}
  {report : RebuildReport}

/-- A build assigns ids to the names of its category and puts the definition of each in place. It
reports the numbers of the assignment. -/
theorem Registry.build_ok (h : r.build t = .ok (built, report)) :
    ∃ a, assignIds r.category r.contents.table
        ((sources t r.category).map fun source ↦ source.2.key.name) r.policy = .ok a ∧
      (sources t r.category).foldlM (addNode t) (vacated a.table) = .ok built ∧
      report = ⟨r.category, a.kept, a.added, a.removed, built.vacancies, built.entries.length⟩ := by
  obtain ⟨a, hassign, h⟩ := bind_eq_ok_iff.1 h
  obtain ⟨contents, hfold, h⟩ := bind_eq_ok_iff.1 h
  obtain ⟨rfl, rfl⟩ := Prod.mk.inj (Except.ok.inj h)
  exact ⟨a, hassign, hfold, rfl⟩

/-- A build from a distinct table is distinct and indexed, its names are those of the category,
names that were there keep their ids, and no id is lost. -/
theorem Registry.build_spec (h : r.build t = .ok (built, report))
    (hdistinct : r.contents.table.Distinct) :
    built.table.Distinct ∧ built.Indexed ∧
      (∀ name, name ∈ built.table.names ↔ name ∈ t.namesIn r.category) ∧
      (∀ name id, name ∈ t.namesIn r.category → r.contents.table.nameOf? id = some name →
        built.table.nameOf? id = some name) ∧
      r.contents.table.idSpace ≤ built.table.idSpace := by
  obtain ⟨a, hassign, hfold, -⟩ := Registry.build_ok h
  have hnodup := nodup_sources t r.category
  have ha : a.table.Distinct := distinct_of_assignIds hassign hdistinct hnodup
  obtain ⟨htable, shown, hshown, -, hall⟩ :=
    (shows_vacated a.table).foldlM_addNode ha hnodup (fun _ _ ↦ List.not_mem_nil) hfold
  replace htable : built.table = a.table := htable
  have hnames : ∀ name, name ∈ built.table.names ↔ name ∈ t.namesIn r.category := by
    intro name
    rw [htable, mem_names_of_assignIds hassign, mem_sources]
  refine ⟨htable ▸ ha, hshown.indexed fun name hname ↦ ?_, hnames, fun name id hname hid ↦ ?_, ?_⟩
  · exact hall name (mem_sources.2 ((hnames name).1 hname))
  · rw [htable]
    exact nameOf?_of_assignIds hassign (mem_sources.2 hname) hid
  · rw [htable]
    exact idSpace_le_of_assignIds hassign

end ModContent
