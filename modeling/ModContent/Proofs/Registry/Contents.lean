import Mathlib.Data.List.Dedup
import ModContent.Proofs.Registry.Assignment
import ModContent.Proofs.Registry.Repeated

/-!
# What a rebuild takes from a tree

Of the top-level nodes of its category a registry takes the first of each name
(`ContentTree.firstNamed?`, which searches the tree and does not go through the build). A rebuild
drops none of them, and has no entry that is not one of them (`Registry.Mirrors`). That holds for
any id table, also one in which names stand twice, since it rests on two facts that do not ask for
distinct names:

* the new table knows exactly the names of the build, so no node is skipped for want of an id;
* an entry is put in place with the definition of its node and is not overwritten
  (`of_foldlM_addNode`).

So a rebuild fails only if ids run out or a definition cannot be built (`exists_build_ok_iff`).
Main statement: `rebuild_mirrors_tree`.
-/

namespace ModContent

/-- The first top-level node of a category with this name, with its handle. -/
def ContentTree.firstNamed? (t : ContentTree) (category name : String) :
    Option (NodeId × Node) :=
  (t.childrenIn ContentTree.root category).find? fun child ↦ child.2.key.name == name

open IdTable

variable {α : Type}

namespace Build

variable {b built : Build α} {t : ContentTree} {source : NodeId × Node}
  {sources : List (NodeId × Node)} {category : String}

/-! ### The nodes taken up -/

/-- The nodes that are left are the first of their names. -/
theorem mem_firstOfEachName_iff {seen : List String} {nodes : List (NodeId × Node)} :
    source ∈ firstOfEachName seen nodes ↔
      source.2.key.name ∉ seen ∧
        nodes.find? (fun node ↦ node.2.key.name == source.2.key.name) = some source := by
  induction nodes generalizing seen with
  | nil => simp [firstOfEachName]
  | cons node rest ih =>
    rw [firstOfEachName, List.find?_cons]
    by_cases hname : node.2.key.name = source.2.key.name
    · -- the first node of the name is found, and later ones are not taken up
      rw [beq_iff_eq.2 hname, hname]
      split
      · next hseen => simp [ih, hseen]
      · next hseen =>
        rw [List.mem_cons, ih, Option.some.injEq]
        constructor
        · rintro (rfl | ⟨hnot, -⟩)
          · exact ⟨hseen, rfl⟩
          · exact absurd List.mem_cons_self hnot
        · rintro ⟨-, rfl⟩
          exact .inl rfl
    · rw [beq_eq_false_iff_ne.2 hname]
      split
      · exact ih
      · next hseen =>
        have hne : source ≠ node := by
          rintro rfl
          exact hname rfl
        rw [List.mem_cons, ih, List.mem_cons, not_or]
        simp [hne, Ne.symm hname]

/-- The nodes taken up are the first of their names. -/
theorem mem_sources_iff :
    source ∈ Build.sources t category ↔
      t.firstNamed? category source.2.key.name = some source := by
  rw [Build.sources, mem_firstOfEachName_iff]
  simp [ContentTree.firstNamed?]

/-! ### Their definitions -/

variable [Definition α]

/-- An entry was there before, or holds the definition of one of the nodes. -/
theorem of_foldlM_addNode (h : sources.foldlM (addNode t) b = .ok built) {id : Nat}
    {entry : Entry α} (hentry : built.entries[id]?.join = some entry) :
    b.entries[id]?.join = some entry ∨
      ∃ source ∈ sources, source.2.key.name = entry.name ∧
        Definition.ofNode t source.1 source.2 = .ok entry.definition := by
  induction sources generalizing b with
  | nil =>
    obtain rfl := Except.ok.inj h
    exact .inl hentry
  | cons source rest ih =>
    rw [List.foldlM_cons] at h
    obtain ⟨next, hadd, h⟩ := bind_eq_ok_iff.1 h
    rcases ih h with hnext | ⟨other, hother, hname, hdefinition⟩
    · rcases addNode_cases hadd with ⟨-, rfl⟩ | ⟨place, definition, -, hdefinition, rfl⟩
      · exact .inl hnext
      · have hset : (b.entries.set place _)[id]?.join = some entry := hnext
        rw [List.getElem?_set] at hset
        split at hset
        · split at hset
          · obtain rfl := Option.some.inj hset
            exact .inr ⟨source, List.mem_cons_self, rfl, hdefinition⟩
          · cases hset
        · exact .inl hset
    · exact .inr ⟨other, List.mem_cons_of_mem _ hother, hname, hdefinition⟩

/-- Where each name has an id, all definitions are put in place if and only if each can be built. -/
theorem exists_foldlM_addNode_ok_iff
    (hnames : ∀ source ∈ sources, source.2.key.name ∈ b.table.names) :
    (∃ built : Build α, sources.foldlM (addNode t) b = .ok built) ↔
      ∀ source ∈ sources, ∃ definition : α,
        Definition.ofNode t source.1 source.2 = .ok definition := by
  induction sources generalizing b with
  | nil => exact ⟨fun _ ↦ nofun, fun _ ↦ ⟨b, rfl⟩⟩
  | cons source rest ih =>
    rw [List.forall_mem_cons] at hnames
    rw [List.foldlM_cons, List.forall_mem_cons]
    constructor
    · rintro ⟨built, h⟩
      obtain ⟨next, hadd, h⟩ := bind_eq_ok_iff.1 h
      have hrest := (ih (table_addNode hadd ▸ hnames.2)).1 ⟨built, h⟩
      rcases addNode_cases hadd with ⟨hnone, -⟩ | ⟨-, definition, -, hdefinition, -⟩
      · exact absurd hnone (lastIdOf?_ne_none_of_mem_names hnames.1)
      · exact ⟨⟨definition, hdefinition⟩, hrest⟩
    · rintro ⟨⟨definition, hdefinition⟩, hrest⟩
      obtain ⟨id, hid⟩ := Option.ne_none_iff_exists'.1 (lastIdOf?_ne_none_of_mem_names hnames.1)
      have hadd : addNode t b source = .ok (b.place id source.2.key.name definition) := by
        rw [addNode, hid, hdefinition]
        rfl
      obtain ⟨built, h⟩ := (ih (b := b.place id source.2.key.name definition) hnames.2).2 hrest
      exact ⟨built, bind_eq_ok_iff.2 ⟨_, hadd, h⟩⟩

end Build

namespace Registry

open Build

variable {r : Registry α} {t : ContentTree} {contents : Build α} {report : RebuildReport}

/-- The table may not grow, and more names of the tree are new than ids are free for them. -/
def Underflows (r : Registry α) (t : ContentTree) : Prop :=
  r.policy = .failFast ∧ ¬ r.snapshot.isEmpty ∧ r.snapshot.Overruns (t.namesIn r.category)

theorem contains_iff (name : String) : r.contains name ↔ name ∈ r.contents.ids.map Prod.fst := by
  rw [contains, idOf?, Option.isSome_iff_ne_none]
  refine ⟨fun h ↦ ?_, fun h hnone ↦ ?_⟩
  · by_contra hnot
    exact h (lookup_eq_none_of_not_mem hnot)
  · obtain ⟨pair, hpair, rfl⟩ := List.mem_map.1 h
    simpa using List.lookup_eq_none_iff.1 hnone pair hpair

variable [Definition α]

/-- The registry holds the definitions of its category in the tree, and no others. -/
structure Mirrors (r : Registry α) (t : ContentTree) : Prop where
  /-- There is one entry for each name. -/
  names : (r.all.map Entry.name).Perm (t.namesIn r.category).dedup
  index : ∀ name, r.contains name ↔ name ∈ t.namesIn r.category
  table : ∀ name, name ∈ r.snapshot.names ↔ name ∈ t.namesIn r.category
  /-- An entry holds the definition of the first node of its name. -/
  entries : ∀ entry ∈ r.all, ∃ source, t.firstNamed? r.category entry.name = some source ∧
    Definition.ofNode t source.1 source.2 = .ok entry.definition

/-- Contents can be built of a tree unless ids run out or a definition cannot be built. -/
theorem exists_build_ok_iff :
    (∃ pair, r.build t = .ok pair) ↔
      ¬ r.Underflows t ∧ ∀ source ∈ sources t r.category, ∃ definition : α,
        Definition.ofNode t source.1 source.2 = .ok definition := by
  set names := (sources t r.category).map fun source ↦ source.2.key.name
  have hnodup : names.Nodup := nodup_sources t r.category
  have hassigned : (∃ a, assignIds r.category r.contents.table names r.policy = .ok a) ↔
      ¬ r.Underflows t := by
    have hover : r.contents.table.Overruns names ↔
        r.contents.table.Overruns (t.namesIn r.category) := overruns_congr fun _ ↦ mem_sources
    rw [exists_assignIds_ok_iff r.category r.contents.table hnodup, hover, Underflows]
    exact not_congr ⟨fun ⟨hover, hsome, hpolicy⟩ ↦ ⟨hpolicy, hsome, hover⟩,
      fun ⟨hpolicy, hsome, hover⟩ ↦ ⟨hover, hsome, hpolicy⟩⟩
  -- an assignment has an id for each name, so no node is skipped
  have hplaced : ∀ a, assignIds r.category r.contents.table names r.policy = .ok a →
      ((∃ built : Build α,
          (sources t r.category).foldlM (addNode t) (vacated a.table) = .ok built) ↔
        ∀ source ∈ sources t r.category, ∃ definition : α,
          Definition.ofNode t source.1 source.2 = .ok definition) := by
    intro a ha
    refine exists_foldlM_addNode_ok_iff fun source hsource ↦ ?_
    exact (mem_names_of_assignIds ha).2 (List.mem_map_of_mem hsource)
  constructor
  · rintro ⟨⟨built, report⟩, h⟩
    obtain ⟨a, ha, hfold, -⟩ := build_ok h
    exact ⟨hassigned.1 ⟨a, ha⟩, (hplaced a ha).1 ⟨built, hfold⟩⟩
  · rintro ⟨hfits, hdefinitions⟩
    obtain ⟨a, ha⟩ := hassigned.2 hfits
    obtain ⟨built, hfold⟩ := (hplaced a ha).2 hdefinitions
    exact ⟨_, bind_eq_ok_iff.2 ⟨a, ha, bind_eq_ok_iff.2 ⟨built, hfold, rfl⟩⟩⟩

/-- The entries of a build are the first nodes of their names. -/
theorem entries_of_build (h : r.build t = .ok (contents, report)) {entry : Entry α}
    (hentry : entry ∈ (r.committed contents).all) :
    ∃ source, t.firstNamed? r.category entry.name = some source ∧
      Definition.ofNode t source.1 source.2 = .ok entry.definition := by
  obtain ⟨a, -, hfold, -⟩ := build_ok h
  obtain ⟨id, hid⟩ := mem_all_iff.1 hentry
  obtain hvacated | ⟨source, hsource, hname, hdefinition⟩ := of_foldlM_addNode hfold hid
  · -- no entry was there before
    cases ((filling_vacated a.table : (vacated a.table : Build α).Filling).entries id entry
      hvacated).2
  · exact ⟨source, hname ▸ mem_sources_iff.1 hsource, hdefinition⟩

/-- The new table knows the names of the tree. -/
theorem mem_names_of_build (h : r.build t = .ok (contents, report)) (name : String) :
    name ∈ contents.table.names ↔ name ∈ t.namesIn r.category := by
  obtain ⟨a, hassign, htable, -⟩ := lists_of_build h
  rw [htable, mem_names_of_assignIds hassign, mem_sources]

/-- The index of a build has the names of the tree. -/
theorem mem_ids_of_build (h : r.build t = .ok (contents, report)) (name : String) :
    name ∈ contents.ids.map Prod.fst ↔ name ∈ t.namesIn r.category :=
  (mem_ids_iff_of_build h name).trans (mem_names_of_build h name)

/-- What a build shows mirrors the tree. -/
theorem mirrors_of_build (h : r.build t = .ok (contents, report)) :
    (r.committed contents).Mirrors t where
  names := by
    have hcoherent : (r.committed contents).contents.Coherent := coherent_of_build h
    rw [List.perm_ext_iff_of_nodup (nodup_names_all hcoherent) (List.nodup_dedup _)]
    intro name
    rw [← mem_names_iff hcoherent, List.mem_dedup]
    exact mem_ids_of_build h name
  index name := (contains_iff name).trans (mem_ids_of_build h name)
  table name := (mem_names_of_build h name :)
  entries _ := entries_of_build h

/-- A build has one entry for each name that it kept or added. -/
theorem kept_add_added_of_build (h : r.build t = .ok (contents, report)) :
    report.kept + report.added = (r.committed contents).size := by
  obtain ⟨a, hassign, -, rfl⟩ := build_ok h
  have hnodup := nodup_sources t r.category
  have hperm : (contents.ids.map Prod.fst).Perm
      ((sources t r.category).map fun source ↦ source.2.key.name) := by
    rw [List.perm_ext_iff_of_nodup (coherent_of_build h).nodup hnodup]
    exact fun name ↦ (mem_ids_of_build h name).trans mem_sources.symm
  show a.kept + a.added = contents.ids.length
  rw [kept_add_added_of_assignIds hassign hnodup, ← hperm.length_eq, List.length_map]

/-- A rebuild fails if and only if nothing can be built. -/
theorem exists_rebuild_error_iff :
    (∃ error, (r.rebuild t).2 = .error error) ↔ ¬ ∃ pair, r.build t = .ok pair := by
  cases hbuild : r.build t with
  | error error => simp [rebuild_of_build_error hbuild]
  | ok pair =>
    obtain ⟨contents, report⟩ := pair
    simp [rebuild_of_build_ok hbuild]

end Registry

open Registry

/-- **What a rebuild takes from a tree.** From any table, also one with repeated names, a rebuild
that succeeds has one entry for each name of its category, with the definition of the first node of
the name, and its numbers add up. It fails if and only if ids run out, or the definition of such a
first node cannot be built. -/
theorem rebuild_mirrors_tree {α : Type} [Definition α] (r : Registry α) (t : ContentTree) :
    (∀ rebuilt report, r.rebuild t = (rebuilt, .ok report) →
      rebuilt.category = r.category ∧ rebuilt.Mirrors t ∧
        report.kept + report.added = rebuilt.size ∧
        report.vacant + rebuilt.size = rebuilt.idSpace ∧
        report.idSpace = rebuilt.idSpace ∧ rebuilt.snapshot.idSpace = rebuilt.idSpace) ∧
    ((∃ error, (r.rebuild t).2 = .error error) ↔
      r.Underflows t ∨ ∃ name source error, t.firstNamed? r.category name = some source ∧
        (Definition.ofNode t source.1 source.2 : Except ContentError α) = .error error) := by
  constructor
  · intro rebuilt report h
    obtain ⟨contents, hbuild, rfl⟩ := build_of_rebuild_ok h
    have hlength : contents.entries.length = contents.table.idSpace :=
      (filling_of_build hbuild).length
    have hcount := vacant_add_size_of_build hbuild
    refine ⟨rfl, mirrors_of_build hbuild, kept_add_added_of_build hbuild,
      hcount.trans hlength.symm, ?_, hlength.symm⟩
    obtain ⟨a, -, -, rfl⟩ := build_ok hbuild
    rfl
  · rw [exists_rebuild_error_iff, exists_build_ok_iff, not_and_or, not_not]
    refine or_congr_right ⟨fun h ↦ ?_, ?_⟩
    · push Not at h
      obtain ⟨source, hsource, hfails⟩ := h
      refine ⟨source.2.key.name, source, ?_⟩
      cases houtcome : (Definition.ofNode t source.1 source.2 : Except ContentError α) with
      | error error => exact ⟨error, Build.mem_sources_iff.1 hsource, rfl⟩
      | ok definition => exact absurd houtcome (hfails definition)
    · rintro ⟨name, source, error, hfirst, herror⟩ hall
      -- the node that was found has the name it was looked for by
      obtain rfl : source.2.key.name = name := by simpa using List.find?_some hfirst
      obtain ⟨definition, hdefinition⟩ := hall source (Build.mem_sources_iff.2 hfirst)
      rw [herror] at hdefinition
      cases hdefinition

/-- A tree with two nodes of one name, of which only the first has a child. -/
def twoArchers : ContentTree :=
  let t := (unitTree ["archer"]).childOrCreate ⟨1⟩ ⟨"bow", none⟩
  let (second, t) := t.2.create ⟨"archer", some "unit"⟩
  t.link ContentTree.root second

/-- A registry in whose table the name of both nodes has two ids. -/
def archerTwice : Registry Record :=
  (new "unit" .grow).withIds (.ofNames ["archer", "gone", "archer"])

/-- Two nodes of one name, and a table that has the name twice. -/
theorem rebuild_mirrors_tree_of_two_archers :
    archerTwice.rebuild twoArchers =
        ((archerTwice.rebuild twoArchers).1, .ok ⟨"unit", 1, 0, 1, 2, 3⟩) ∧
      (archerTwice.rebuild twoArchers).1.Mirrors twoArchers ∧
      (archerTwice.rebuild twoArchers).1.all = [⟨some 2, "archer", ⟨Dictionary.empty, 1⟩⟩] := by
  have houtcome : archerTwice.rebuild twoArchers =
      ((archerTwice.rebuild twoArchers).1, .ok ⟨"unit", 1, 0, 1, 2, 3⟩) := by decide
  exact ⟨houtcome, ((rebuild_mirrors_tree archerTwice twoArchers).1 _ _ houtcome).2.1, by decide⟩

end ModContent
