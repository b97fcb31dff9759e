import Mathlib.Data.List.Nodup
import Mathlib.Data.List.Perm.Subperm
import ModContent.Proofs.Disk.Path
import ModContent.Proofs.Disk.Written

/-!
# The disk as a tree

On a disk that is a tree every entry lies in a directory, and its name can stand in a path as one
part (`Disk.IsTree`). A new disk is one, and so is every disk that comes from it by writing files,
also where the device breaks off a write, making directories and removing (`Disk.Made.isTree`).

All that is seen of a disk is `Disk.get?`. The names inside a location are those with something
there, each once (`Disk.mem_namesIn`, `Disk.nodup_namesIn`), and the path to a directory joined with
such a name leads to it (`Disk.locate_join`). In a tree no location is deeper than there are entries
(`Disk.IsTree.length_le`), and a path to a file is one to write the file to
(`Disk.IsTree.target_of_locate`).
-/

namespace ModContent

namespace Disk

variable {d d' : Disk} {place outer inner : DiskLocation} {name path : String} {entry : DiskEntry}

/-! ### What is seen of a disk -/

@[simp] theorem get?_nil (d : Disk) : d.get? [] = some .directory := rfl

/-- There is something at a location exactly if an entry says so. -/
theorem get?_ne_none_iff : d.get? (name :: place) ≠ none ↔
    ∃ found ∈ d.entries, found.1 = name :: place := by
  rw [get?, if_neg (List.cons_ne_nil _ _), ← Option.isSome_iff_ne_none, List.lookup_isSome_iff]
  exact exists_congr fun found ↦ and_congr_right fun _ ↦ beq_iff_eq.trans eq_comm

/-- The names in a directory are those of what lies there. -/
theorem mem_namesIn : name ∈ d.namesIn place ↔ d.get? (name :: place) ≠ none := by
  rw [namesIn, List.mem_eraseDups, List.mem_filterMap, get?_ne_none_iff]
  refine exists_congr fun found ↦ and_congr_right fun _ ↦ ?_
  cases found.1 with
  | nil => simp
  | cons inside around =>
    simp only [Option.ite_none_right_eq_some, Option.some.injEq, List.cons.injEq]
    exact and_comm

/-- Where no location is repeated, each entry is what is seen there. -/
theorem lookup_eq_some_iff_mem {entries : List (DiskLocation × DiskEntry)}
    (h : (entries.map Prod.fst).Nodup) :
    entries.lookup place = some entry ↔ (place, entry) ∈ entries := by
  induction entries with
  | nil => simp
  | cons found rest ih =>
    obtain ⟨key, value⟩ := found
    rw [List.map_cons, List.nodup_cons] at h
    rw [List.lookup_cons, List.mem_cons, Prod.mk.injEq]
    by_cases hkey : place = key
    · subst hkey
      have hrest : (place, entry) ∉ rest := fun hmem ↦
        h.1 (List.mem_map.2 ⟨_, hmem, rfl⟩)
      simp [hrest, eq_comm]
    · have hother : (place == key) = false := beq_eq_false_iff_ne.2 hkey
      simp [hother, hkey, ih h.2]

theorem nodup_eraseDups (names : List String) : names.eraseDups.Nodup := by
  cases names with
  | nil => exact List.nodup_nil
  | cons name rest =>
    rw [List.eraseDups_cons]
    exact List.nodup_cons.2 ⟨by simp [List.mem_eraseDups], nodup_eraseDups _⟩
termination_by names.length
decreasing_by exact Nat.lt_succ_of_le (List.length_filter_le _ rest)

theorem nodup_namesIn (d : Disk) (place : DiskLocation) : (d.namesIn place).Nodup :=
  nodup_eraseDups _

/-- A look-up after entries were kept by their locations. -/
theorem lookup_filter {entries : List (DiskLocation × DiskEntry)} (keep : DiskLocation → Bool) :
    (entries.filter fun found ↦ keep found.1).lookup place =
      if keep place then entries.lookup place else none := by
  induction entries with
  | nil => simp
  | cons found rest ih =>
    obtain ⟨key, value⟩ := found
    rw [List.filter_cons]
    by_cases hplace : place = key
    · subst hplace
      cases hkeep : keep place <;> simp [hkeep, ih]
    · have hother : (place == key) = false := beq_eq_false_iff_ne.2 hplace
      cases keep key <;> simp [List.lookup_cons, hother, ih]

/-- After a location was erased, nothing is seen there or inside it. -/
theorem get?_erase (d : Disk) (h : inner ≠ []) :
    (d.erase place).get? inner = if place <:+ inner then none else d.get? inner := by
  rw [get?, if_neg h, get?, if_neg h]
  refine (lookup_filter fun inner ↦ !place.isSuffixOf inner).trans ?_
  by_cases hinside : place <:+ inner
  · rw [if_pos hinside, List.isSuffixOf_iff_suffix.2 hinside]
    rfl
  · rw [if_neg hinside, Bool.eq_false_iff.2 fun h ↦ hinside (List.isSuffixOf_iff_suffix.1 h)]
    rfl

/-! ### Names in a directory -/

/-- A plain name leads to what has it. -/
theorem Leads.eq_cons (hname : PlainName name) (h : d.Leads place name.toList inner) :
    inner = name :: place := by
  generalize hpart : name.toList = part at h
  cases h with
  | here _ hhere => exact absurd hhere (by simp [← hpart, hname.nonempty, hname.dot])
  | up _ => exact absurd hpart hname.dots
  | into _ _ _ _ _ _ => rw [← hpart, String.ofList_toList]

/-- The path to a name in a directory leads to it. -/
theorem locate_join (hname : PlainName name) (houter : d.locate path = .ok outer)
    (hinner : d.locate (Path.join path name) = .ok inner) : inner = name :: outer := by
  obtain ⟨_, -, houter⟩ := bind_eq_ok_iff.1 houter
  obtain ⟨_, -, hinner⟩ := bind_eq_ok_iff.1 hinner
  have hstart : d.startOf (Path.join path name) = d.startOf path :=
    congrArg (fun absolute : Bool ↦ if absolute then [] else d.here)
      (Path.isAbsolute_join path hname)
  obtain ⟨parts, hparts, hdirectory⟩ := Path.splitOn_join path hname
  rw [hparts, hstart, walk_append_eq_ok_iff] at hinner
  obtain ⟨around, haround, hlast⟩ := hinner
  obtain rfl : around = outer := by
    rcases hdirectory with hdirectory | hdirectory
    · rw [hdirectory, haround] at houter
      exact Except.ok.inj houter
    · -- a separator at the end leads nowhere else
      rw [hdirectory, walk_append_eq_ok_iff] at houter
      obtain ⟨again, hagain, hhere⟩ := houter
      obtain rfl := Except.ok.inj (haround.symm.trans hagain)
      cases walk_singleton_eq_ok_iff.1 hhere with
      | here _ _ => rfl
      | into _ hnil _ _ _ _ => exact absurd rfl hnil
  exact (walk_singleton_eq_ok_iff.1 hlast).eq_cons hname

/-- A file to write in a directory gets its name there. -/
theorem target_join (hname : PlainName name) (h : d.target (Path.join path name) = .ok inner) :
    ∃ outer, inner = name :: outer := by
  obtain ⟨parts, last, outer, -, hparts, -, -, -, -, -, -, rfl, -⟩ := target_eq_ok h
  obtain ⟨parts', hparts', -⟩ := Path.splitOn_join path hname
  obtain ⟨-, hlast⟩ := List.append_inj' (hparts.symm.trans hparts') rfl
  exact ⟨outer, by rw [List.singleton_inj.1 hlast, String.ofList_toList]⟩

/-! ### Trees -/

/-- Every entry has a plain name and lies in a directory. -/
structure IsTree (d : Disk) : Prop where
  plain : ∀ {name place}, d.get? (name :: place) ≠ none → PlainName name
  outer : ∀ {name place}, d.get? (name :: place) ≠ none → d.get? place = some .directory

namespace IsTree

/-- Around what is there are directories. -/
theorem directory_of_append (h : d.IsTree) {inside : DiskLocation} (hne : inside ≠ [])
    (hthere : d.get? (inside ++ place) ≠ none) : d.get? place = some .directory := by
  induction inside with
  | nil => exact absurd rfl hne
  | cons name inside ih =>
    have houter : d.get? (inside ++ place) = some .directory := h.outer hthere
    by_cases hinside : inside = []
    · rwa [hinside] at houter
    · exact ih hinside (by rw [houter]; exact Option.some_ne_none _)

/-- The names of what is there are plain. -/
theorem plain_of_mem (h : d.IsTree) (hthere : d.get? (inner ++ place) ≠ none) :
    ∀ name ∈ inner, PlainName name := by
  intro name hname
  obtain ⟨inside, around, rfl⟩ := List.append_of_mem hname
  rw [List.append_assoc, List.cons_append] at hthere
  have hseen : d.get? (name :: (around ++ place)) ≠ none := by
    by_cases hinside : inside = []
    · rwa [hinside] at hthere
    · rw [h.directory_of_append hinside hthere]
      exact Option.some_ne_none _
  exact h.plain hseen

/-- A location is no deeper than there are entries: it and those around it are all different. -/
theorem length_le (h : d.IsTree) (hthere : d.get? place ≠ none) :
    place.length ≤ d.entries.length := by
  let around := (List.range place.length).map fun k ↦ place.drop k
  have hdistinct : around.Nodup := by
    refine List.Nodup.map_on (fun i hi j hj hij ↦ ?_) List.nodup_range
    have hlength := congrArg List.length hij
    rw [List.length_drop, List.length_drop] at hlength
    have := List.mem_range.1 hi
    have := List.mem_range.1 hj
    omega
  have hsubset : around ⊆ d.entries.map Prod.fst := by
    intro suffix hsuffix
    obtain ⟨k, hk, rfl⟩ := List.mem_map.1 hsuffix
    obtain ⟨name, outer, hdrop⟩ := List.exists_cons_of_ne_nil
      (List.ne_nil_of_length_pos (l := place.drop k)
        (by rw [List.length_drop]; exact Nat.sub_pos_of_lt (List.mem_range.1 hk)))
    have hseen : d.get? (place.drop k) ≠ none := by
      rw [← List.take_append_drop k place] at hthere
      by_cases htake : place.take k = []
      · rwa [htake] at hthere
      · rw [h.directory_of_append htake hthere]
        exact Option.some_ne_none _
    rw [hdrop] at hseen ⊢
    obtain ⟨found, hfound, hplace⟩ := get?_ne_none_iff.1 hseen
    exact hplace ▸ List.mem_map_of_mem hfound
  have hle := (hdistinct.subperm hsubset).length_le
  rwa [List.length_map, List.length_map, List.length_range] at hle

/-- It is enough to look at the entries. -/
theorem of_entries (h : ∀ found ∈ d.entries, ∃ name outer, found.1 = name :: outer ∧
    PlainName name ∧ d.get? outer = some .directory) : d.IsTree := by
  have hthere : ∀ {name outer}, d.get? (name :: outer) ≠ none →
      PlainName name ∧ d.get? outer = some .directory := by
    intro name outer hseen
    obtain ⟨found, hfound, hplace⟩ := get?_ne_none_iff.1 hseen
    obtain ⟨name', outer', hplace', hname⟩ := h found hfound
    obtain ⟨rfl, rfl⟩ := List.cons.inj (hplace.symm.trans hplace')
    exact hname
  exact ⟨fun hseen ↦ (hthere hseen).1, fun hseen ↦ (hthere hseen).2⟩

/-- Around a directory is a directory. -/
theorem directory_tail (h : d.IsTree) (hplace : d.get? place = some .directory) :
    d.get? place.tail = some .directory := by
  cases place with
  | nil => rfl
  | cons name outer => exact h.outer (hplace ▸ Option.some_ne_none _)

/-- A path to a file is one to write the file to. -/
theorem target_of_locate (h : d.IsTree) {bytes : ByteArray} (hlocate : d.locate path = .ok place)
    (hfile : d.get? place = some (.file bytes)) : d.target path = .ok place := by
  have hkind : d.get? place ≠ some .directory := by rw [hfile]; nofun
  obtain ⟨_, hpath, hwalk⟩ := bind_eq_ok_iff.1 hlocate
  obtain ⟨parts, last, hparts⟩ :=
    (List.eq_nil_or_concat' (Text.splitOn '/' path.toList)).resolve_left (Text.splitOn_ne_nil _ _)
  rw [hparts, walk_append_eq_ok_iff] at hwalk
  obtain ⟨outer, houter, hlast⟩ := hwalk
  have hdirectory := (walk_singleton_eq_ok_iff.1 hlast).directory
  cases walk_singleton_eq_ok_iff.1 hlast with
  | here _ _ => exact absurd hdirectory hkind
  | up _ => exact absurd (h.directory_tail hdirectory) hkind
  | into _ hnil hdot hdots hname _ =>
    exact target_of_walk hpath hparts houter hdirectory hnil hdot hdots hname hkind

/-! ### What keeps a tree -/

/-- A new disk has no entries to be in a directory. -/
theorem empty (here : DiskLocation) (fault? : DiskLocation → ByteArray → Option WriteFault) :
    IsTree ⟨[], here, fault?⟩ :=
  ⟨fun h ↦ absurd rfl h, fun h ↦ absurd rfl h⟩

/-- A new entry in a directory, or one that takes the place of a file. -/
theorem put (h : d.IsTree) (hname : PlainName name) (houter : d.get? place = some .directory)
    (hfree : d.get? (name :: place) = some .directory → entry = .directory) :
    (d.put (name :: place) entry).IsTree := by
  have hget : ∀ other, (d.put (name :: place) entry).get? other =
      if other = name :: place then some entry else d.get? other := fun other ↦
    get?_put d _ other entry (List.cons_ne_nil _ _)
  -- what was a directory still is one
  have hkept : ∀ {other}, d.get? other = some .directory →
      (d.put (name :: place) entry).get? other = some .directory := by
    intro other hother
    rw [hget]
    split
    · next heq => rw [hfree (heq ▸ hother)]
    · exact hother
  constructor
  · intro other around hthere
    rw [hget] at hthere
    split at hthere
    · next heq => exact (List.cons.inj heq).1 ▸ hname
    · exact h.plain hthere
  · intro other around hthere
    rw [hget] at hthere
    split at hthere
    · next heq => exact hkept ((List.cons.inj heq).2 ▸ houter)
    · exact hkept (h.outer hthere)

/-- What is inside a location goes with it, so no entry is left without its directory. -/
theorem erase (h : d.IsTree) (place : DiskLocation) : (d.erase place).IsTree := by
  have hthere : ∀ {name outer}, (d.erase place).get? (name :: outer) ≠ none →
      ¬ place <:+ name :: outer ∧ d.get? (name :: outer) ≠ none := by
    intro name outer hthere
    rw [get?_erase d (List.cons_ne_nil _ _)] at hthere
    split at hthere
    · exact absurd rfl hthere
    · next houtside => exact ⟨houtside, hthere⟩
  constructor
  · intro name outer hseen
    exact h.plain (hthere hseen).2
  · intro name outer hseen
    obtain ⟨houtside, hbefore⟩ := hthere hseen
    by_cases hroot : outer = []
    · rw [hroot, get?_nil]
    · rw [get?_erase d hroot, if_neg fun h ↦ houtside (h.trans (List.suffix_cons name outer))]
      exact h.outer hbefore

/-- A file is written into a directory that is there. -/
theorem writeBytes (h : d.IsTree) {bytes : ByteArray} (hwrite : d.writeBytes path bytes = .ok d') :
    d'.IsTree := by
  obtain ⟨target, htarget, -, rfl⟩ := writeBytes_eq_ok hwrite
  obtain ⟨parts, name, outer, -, hparts, -, houter, hnil, hdot, hdots, -, rfl, hfree⟩ :=
    target_eq_ok htarget
  have hpart : name ∈ Text.splitOn '/' path.toList := by
    rw [hparts]
    exact List.mem_append_right _ (List.mem_singleton_self name)
  have hslash : '/' ∉ name := Text.not_mem_of_mem_splitOn hpart
  exact h.put (.ofList hslash hnil hdot hdots) houter fun hthere ↦ absurd hthere hfree

/-- A write that is broken off leaves a file of other bytes. -/
theorem save (h : d.IsTree) (path text : String) : (d.save path text).1.IsTree := by
  obtain ⟨_, -, hsave⟩ | ⟨d', hwrite, hsave⟩ | ⟨_, _, ⟨htarget, -⟩, hsave⟩ := d.save_cases path text
  · rwa [hsave]
  · rw [hsave]
    exact h.writeBytes hwrite
  · rw [hsave]
    exact h.writeBytes (bind_eq_ok_iff.2 ⟨_, htarget, rfl⟩)

/-- Directories are made from the outside in. -/
theorem makeDirectories {parts : List (List Char)} (h : d.IsTree)
    (hparts : ∀ part ∈ parts, '/' ∉ part) (hmake : d.makeDirectories place parts = .ok d') :
    d'.IsTree := by
  induction parts generalizing d place with
  | nil =>
    obtain ⟨_, -, hmake⟩ := bind_eq_ok_iff.1 hmake
    exact Except.ok.inj hmake ▸ h
  | cons part parts ih =>
    obtain ⟨hslash, hrest⟩ := List.forall_mem_cons.1 hparts
    rw [Disk.makeDirectories] at hmake
    obtain ⟨_, hplace, hmake⟩ := bind_eq_ok_iff.1 hmake
    split at hmake
    · exact ih h hrest hmake
    · next hhere =>
      rw [Bool.or_eq_true, decide_eq_true_eq, decide_eq_true_eq, not_or] at hhere
      split at hmake
      · exact ih h hrest hmake
      · next hup =>
        obtain ⟨_, -, hmake⟩ := bind_eq_ok_iff.1 hmake
        dsimp only at hmake
        split at hmake
        · exact ih (h.put (.ofList hslash hhere.1 hhere.2 hup) (directoryAt_eq_ok_iff.1 hplace)
            fun _ ↦ rfl) hrest hmake
        · exact ih h hrest hmake

theorem makeDirectory (h : d.IsTree) (hmake : d.makeDirectory path = .ok d') : d'.IsTree := by
  rw [Disk.makeDirectory] at hmake
  split at hmake
  · exact Except.ok.inj hmake ▸ h
  · obtain ⟨_, -, hmake⟩ := bind_eq_ok_iff.1 hmake
    exact h.makeDirectories (fun _ ↦ Text.not_mem_of_mem_splitOn) hmake

/-- Removing takes away a location and all below it. -/
theorem remove (h : d.IsTree) (hremove : d.remove path = .ok d') : d'.IsTree := by
  obtain ⟨place, -, herase⟩ := bind_eq_ok_iff.1 hremove
  exact Except.ok.inj herase ▸ h.erase place

end IsTree

/-- The disks that come from an empty one. -/
inductive Made : Disk → Prop
  | empty (fault? : DiskLocation → ByteArray → Option WriteFault) : Made ⟨[], [], fault?⟩
  | write {d d' : Disk} {path : String} {bytes : ByteArray} :
    Made d → d.writeBytes path bytes = .ok d' → Made d'
  | save {d : Disk} (path text : String) : Made d → Made (d.save path text).1
  | makeDirectory {d d' : Disk} {path : String} :
    Made d → d.makeDirectory path = .ok d' → Made d'
  | remove {d d' : Disk} {path : String} : Made d → d.remove path = .ok d' → Made d'
  | enter {d : Disk} {path : String} {place : DiskLocation} :
    Made d → d.locate path = .ok place → Made { d with here := place }

/-- **Every disk that comes from an empty one is a tree.** -/
theorem Made.isTree (h : Made d) : d.IsTree := by
  induction h with
  | empty fault? => exact .empty [] fault?
  | write _ hwrite ih => exact ih.writeBytes hwrite
  | save path text _ ih => exact ih.save path text
  | makeDirectory _ hmake ih => exact ih.makeDirectory hmake
  | remove _ hremove ih => exact ih.remove hremove
  | enter _ _ ih => exact ⟨ih.plain, ih.outer⟩

end Disk

end ModContent
