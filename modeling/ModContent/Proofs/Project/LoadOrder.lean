import Mathlib.Data.List.Sort
import Mathlib.Data.String.Basic
import ModContent.Project.Files
import ModContent.Proofs.Disk.Tree
import ModContent.Proofs.Project.Selection
import ModContent.Proofs.Text.Bytes

/-!
# The load order of files

The definition files of a data directory are the selected files below it, each once
(`Disk.IsTree.mem_listing`). Two of them are in the order in which their paths part: at the first
names that differ, a directory comes before a file, and otherwise the bytes of the names decide
(`Disk.Precedes`). A list with given members is in this order in one way only, so it does not matter
in which order the entries of the disk are listed (`Disk.SameTree.definitionFiles_eq`).

Each directory is sorted by a comparator. It is a linear order on the names in there
(`Disk.loadOrder_eq_lt_iff`), and the directory in this order is its subdirectories and then its
files, both by name (`Disk.inLoadOrder_eq`).

`Disk.filesWithin` goes down a bounded number of levels. The bound is never reached, since in a tree
no location is deeper than there are entries.
-/

namespace ModContent.Disk

variable {d d' : Disk} {place : DiskLocation} {name a b directory : String}
  {names p q : List String} {fuel : Nat} {m : Manifest}

/-! ### The order of two files -/

/-- Whether the first of two names in a directory is gone through before the second. -/
def ComesBefore (d : Disk) (place : DiskLocation) (a b : String) : Prop :=
  (d.get? (a :: place) = some .directory ∧ d.get? (b :: place) ≠ some .directory) ∨
    ((d.get? (a :: place) = some .directory ↔ d.get? (b :: place) = some .directory) ∧
      Text.bytes a.toList < Text.bytes b.toList)

/-- Whether the first of two files below a location is loaded before the second. The files are given
by the names on the way to them. -/
inductive Precedes (d : Disk) : DiskLocation → List String → List String → Prop
  | here {place : DiskLocation} {a b : String} {p q : List String} :
    d.ComesBefore place a b → Precedes d place (a :: p) (b :: q)
  | inside {place : DiskLocation} {name : String} {p q : List String} :
    Precedes d (name :: place) p q → Precedes d place (name :: p) (name :: q)

theorem ComesBefore.irrefl : ¬ d.ComesBefore place a a := by
  rintro (⟨h, hne⟩ | ⟨-, hlt⟩)
  · exact hne h
  · exact List.lt_irrefl _ hlt

theorem ComesBefore.asymm (h : d.ComesBefore place a b) : ¬ d.ComesBefore place b a := by
  rcases h with ⟨ha, hb⟩ | ⟨hiff, hlt⟩ <;> rintro (⟨hb', ha'⟩ | ⟨hiff', hlt'⟩)
  · exact hb hb'
  · exact hb (hiff'.2 ha)
  · exact ha' (hiff.2 hb')
  · exact List.lt_asymm hlt hlt'

/-- Of two paths one at most comes before the other. -/
theorem Precedes.asymm (h : d.Precedes place p q) : ¬ d.Precedes place q p := by
  induction h with
  | here hab =>
    rintro (hba | _)
    · exact hab.asymm hba
    · exact hab.irrefl
  | inside _ ih =>
    rintro (hself | hback)
    · exact hself.irrefl
    · exact ih hback

theorem Precedes.irrefl : ¬ d.Precedes place p p := fun h ↦ h.asymm h

instance : Std.Asymm (d.Precedes place) := ⟨fun _ _ h ↦ h.asymm⟩

/-! ### Names in order -/

/-- The names in a directory in the order of their bytes. -/
def sortedNames (d : Disk) (place : DiskLocation) : List String :=
  (d.namesIn place).mergeSort fun a b ↦ decide (a ≤ b)

theorem mem_sortedNames : name ∈ d.sortedNames place ↔ d.get? (name :: place) ≠ none := by
  rw [sortedNames, List.mem_mergeSort, mem_namesIn]

/-- Names are sorted as texts, each once. -/
theorem pairwise_lt_sortedNames (d : Disk) (place : DiskLocation) :
    (d.sortedNames place).Pairwise (· < ·) := by
  have htrans : ∀ a b c : String, decide (a ≤ b) = true → decide (b ≤ c) = true →
      decide (a ≤ c) = true := fun a b c hab hbc ↦
    decide_eq_true (le_trans (of_decide_eq_true hab) (of_decide_eq_true hbc))
  have htotal : ∀ a b : String, (decide (a ≤ b) || decide (b ≤ a)) = true := fun a b ↦ by
    simpa using le_total a b
  have hsorted := List.pairwise_mergeSort htrans htotal (d.namesIn place)
  have hdistinct : (d.sortedNames place).Nodup := List.nodup_mergeSort.2 (d.nodup_namesIn place)
  exact (hsorted.and hdistinct).imp fun ⟨hle, hne⟩ ↦ lt_of_le_of_ne (of_decide_eq_true hle) hne

theorem pairwise_sortedNames (d : Disk) (place : DiskLocation) :
    (d.sortedNames place).Pairwise fun a b ↦ Text.bytes a.toList < Text.bytes b.toList :=
  (d.pairwise_lt_sortedNames place).imp fun hlt ↦
    Text.bytes_lt_bytes_iff.2 (String.lt_iff_toList_lt.1 hlt)

/-! ### Sorting a directory -/

/-- A name is that of a directory if there is one. -/
theorem holdsDirectory_iff :
    d.holdsDirectory place name = true ↔ d.get? (name :: place) = some .directory := by
  rw [holdsDirectory]
  split <;> simp_all

/-- Two names are of the same kind if both are directories or neither is. -/
theorem holdsDirectory_eq_iff : d.holdsDirectory place a = d.holdsDirectory place b ↔
    (d.get? (a :: place) = some .directory ↔ d.get? (b :: place) = some .directory) := by
  rw [Bool.eq_iff_iff, holdsDirectory_iff, holdsDirectory_iff]

/-- The comparator puts first what is gone through first. -/
theorem loadOrder_eq_lt_iff : d.loadOrder place a b = .lt ↔ d.ComesBefore place a b := by
  have hname : a < b ↔ Text.bytes a.toList < Text.bytes b.toList :=
    String.lt_iff_toList_lt.trans Text.bytes_lt_bytes_iff.symm
  rw [loadOrder, Ordering.then_eq_lt, compare_lt_iff_lt, compare_eq_iff_eq, compare_lt_iff_lt,
    Bool.lt_iff, ← Bool.not_eq_true, holdsDirectory_iff, holdsDirectory_iff, ComesBefore, hname,
    holdsDirectory_eq_iff]
  exact or_congr and_comm (and_congr_left' Iff.comm)

/-- Names that compare equal are equal. -/
theorem loadOrder_eq_eq_iff : d.loadOrder place a b = .eq ↔ a = b := by
  rw [loadOrder, Ordering.then_eq_eq, compare_eq_iff_eq, compare_eq_iff_eq, and_iff_right_iff_imp]
  rintro rfl
  rfl

instance : Std.TransCmp (d.loadOrder place) :=
  have : Std.TransCmp fun a b ↦ compare (d.holdsDirectory place b) (d.holdsDirectory place a) :=
    inferInstanceAs (Std.TransCmp fun a b ↦ compareOn (d.holdsDirectory place) b a)
  inferInstanceAs (Std.TransCmp (compareLex
    (fun a b ↦ compare (d.holdsDirectory place b) (d.holdsDirectory place a)) compare))

/-- The names in load order are those of what lies in the directory. -/
theorem mem_inLoadOrder : name ∈ d.inLoadOrder place ↔ d.get? (name :: place) ≠ none := by
  rw [inLoadOrder, List.mem_mergeSort, mem_namesIn]

/-- **A directory is sorted.** -/
theorem pairwise_inLoadOrder (d : Disk) (place : DiskLocation) :
    (d.inLoadOrder place).Pairwise (d.ComesBefore place) := by
  have hsorted : (d.inLoadOrder place).Pairwise fun a b ↦ (d.loadOrder place a b).isLE := by
    refine List.pairwise_mergeSort (fun _ _ _ ↦ Std.TransCmp.isLE_trans) (fun a b ↦ ?_) _
    have hswap : d.loadOrder place b a = (d.loadOrder place a b).swap := Std.OrientedCmp.eq_swap
    rw [hswap]
    cases d.loadOrder place a b <;> rfl
  have hdistinct : (d.inLoadOrder place).Nodup := List.nodup_mergeSort.2 (d.nodup_namesIn place)
  refine (hsorted.and hdistinct).imp fun ⟨hle, hne⟩ ↦ ?_
  rcases Ordering.isLE_iff_eq_lt_or_eq_eq.1 hle with hlt | heq
  · exact loadOrder_eq_lt_iff.1 hlt
  · exact absurd (loadOrder_eq_eq_iff.1 heq) hne

instance : Std.Asymm (d.ComesBefore place) := ⟨fun _ _ h ↦ h.asymm⟩

/-- **Directories come before files, and both come by name.** -/
theorem inLoadOrder_eq (d : Disk) (place : DiskLocation) : d.inLoadOrder place =
    (d.sortedNames place).filter (d.holdsDirectory place) ++
      (d.sortedNames place).filter fun name ↦ !d.holdsDirectory place name := by
  have hsorted := d.pairwise_sortedNames place
  refine (d.pairwise_inLoadOrder place).eq_of_mem_iff (List.pairwise_append.2 ⟨?_, ?_, ?_⟩) ?_
  · refine (hsorted.filter _).imp_of_mem fun ha hb hlt ↦ .inr ⟨holdsDirectory_eq_iff.1 ?_, hlt⟩
    rw [(List.mem_filter.1 ha).2, (List.mem_filter.1 hb).2]
  · refine (hsorted.filter _).imp_of_mem fun ha hb hlt ↦ .inr ⟨holdsDirectory_eq_iff.1 ?_, hlt⟩
    exact Bool.not_inj ((List.mem_filter.1 ha).2.trans (List.mem_filter.1 hb).2.symm)
  · intro a ha b hb
    have hfile := (List.mem_filter.1 hb).2
    rw [Bool.not_eq_true', ← Bool.not_eq_true, holdsDirectory_iff] at hfile
    exact .inl ⟨holdsDirectory_iff.1 (List.mem_filter.1 ha).2, hfile⟩
  · intro name
    rw [mem_inLoadOrder, List.mem_append, List.mem_filter, List.mem_filter, mem_sortedNames,
      ← and_or_left, ← Bool.or_eq_true, Bool.or_not_self, and_iff_left rfl]

/-! ### Going through a directory -/

/-- A location with a file. -/
def IsFileAt (d : Disk) (place : DiskLocation) : Prop := ∃ bytes, d.get? place = some (.file bytes)

theorem IsFileAt.get?_ne_none (h : d.IsFileAt place) : d.get? place ≠ none :=
  let ⟨bytes, hfile⟩ := h
  Option.ne_none_iff_exists'.2 ⟨.file bytes, hfile⟩

/-- The files after one was written are this one and those before. -/
theorem isFileAt_put_iff {target : DiskLocation} {bytes : ByteArray}
    (h : d.get? target ≠ some .directory) :
    (d.put target (.file bytes)).IsFileAt place ↔ place = target ∨ d.IsFileAt place := by
  rw [IsFileAt, get?_put_file h]
  split
  · next heq => exact iff_of_true ⟨bytes, rfl⟩ (.inl heq)
  · next hne => exact (or_iff_right hne).symm

/-- The files that a name in a directory stands for, given those below a location. -/
def namesBehind (d : Disk) (below : DiskLocation → List (List String)) (place : DiskLocation)
    (name : String) : List (List String) :=
  match d.get? (name :: place) with
  | some .directory => (below (name :: place)).map (name :: ·)
  | some (.file _) => [[name]]
  | none => []

/-- The files at most `fuel` levels below a location, by the names on the way to them. -/
def namesWithin (d : Disk) : Nat → DiskLocation → List (List String)
  | 0, _ => []
  | fuel + 1, place => (d.inLoadOrder place).flatMap (d.namesBehind (d.namesWithin fuel) place)

/-- Behind a name lies what is below the directory, or the file itself. -/
theorem mem_namesBehind {below : DiskLocation → List (List String)} :
    names ∈ d.namesBehind below place name ↔ ∃ rest, names = name :: rest ∧
      (d.get? (name :: place) = some .directory ∧ rest ∈ below (name :: place) ∨
        d.IsFileAt (name :: place) ∧ rest = []) := by
  rw [namesBehind, IsFileAt]
  split
  · next hdirectory => simp [hdirectory, eq_comm, and_comm]
  · next hfile => simp [hfile]
  · next hnone => simp [hnone]

/-- One level of the walk. -/
theorem mem_namesWithin_succ : names ∈ d.namesWithin (fuel + 1) place ↔ ∃ name rest,
    names = name :: rest ∧
      (d.get? (name :: place) = some .directory ∧ rest ∈ d.namesWithin fuel (name :: place) ∨
        d.IsFileAt (name :: place) ∧ rest = []) := by
  simp only [namesWithin, List.mem_flatMap, mem_namesBehind, mem_inLoadOrder]
  refine exists_congr fun name ↦ and_iff_right_of_imp ?_
  rintro ⟨rest, -, ⟨hdirectory, -⟩ | ⟨hfile, -⟩⟩
  · exact hdirectory ▸ Option.some_ne_none _
  · exact hfile.get?_ne_none

/-- **The files are those that are there**, as deep as the walk goes. -/
theorem IsTree.mem_namesWithin (hd : d.IsTree) : names ∈ d.namesWithin fuel place ↔
    names ≠ [] ∧ names.length ≤ fuel ∧ d.IsFileAt (names.reverse ++ place) := by
  induction fuel generalizing names place with
  | zero =>
    refine iff_of_false List.not_mem_nil fun ⟨hne, hlength, _⟩ ↦ ?_
    exact hne (List.eq_nil_of_length_eq_zero (Nat.le_zero.1 hlength))
  | succ fuel ih =>
    rw [mem_namesWithin_succ]
    constructor
    · rintro ⟨name, rest, rfl, ⟨-, hrest⟩ | ⟨hfile, rfl⟩⟩
      · obtain ⟨-, hlength, hfile⟩ := ih.1 hrest
        rw [List.reverse_cons, List.append_assoc, List.singleton_append]
        exact ⟨List.cons_ne_nil _ _, Nat.succ_le_succ hlength, hfile⟩
      · exact ⟨List.cons_ne_nil _ _, Nat.le_add_left 1 fuel, hfile⟩
    · rintro ⟨hne, hlength, hfile⟩
      obtain ⟨name, rest, rfl⟩ := List.exists_cons_of_ne_nil hne
      rw [List.reverse_cons, List.append_assoc, List.singleton_append] at hfile
      refine ⟨name, rest, rfl, ?_⟩
      by_cases hrest : rest = []
      · subst hrest
        exact .inr ⟨hfile, rfl⟩
      · have hdirectory : d.get? (name :: place) = some .directory :=
          hd.directory_of_append (mt List.reverse_eq_nil_iff.1 hrest) hfile.get?_ne_none
        exact .inl ⟨hdirectory, ih.2 ⟨hrest, Nat.le_of_succ_le_succ hlength, hfile⟩⟩

/-- **The files come in load order.** -/
theorem pairwise_namesWithin (d : Disk) (fuel : Nat) (place : DiskLocation) :
    (d.namesWithin fuel place).Pairwise (d.Precedes place) := by
  induction fuel generalizing place with
  | zero => exact .nil
  | succ fuel ih =>
    rw [namesWithin, List.pairwise_flatMap]
    refine ⟨fun name _ ↦ ?_, (d.pairwise_inLoadOrder place).imp fun hab p hp q hq ↦ ?_⟩
    · rw [namesBehind]
      split
      · exact List.pairwise_map.2 ((ih (name :: place)).imp .inside)
      · exact List.pairwise_singleton _ _
      · exact .nil
    · obtain ⟨p, rfl, -⟩ := mem_namesBehind.1 hp
      obtain ⟨q, rfl, -⟩ := mem_namesBehind.1 hq
      exact .here hab

theorem IsTree.plain_of_isFileAt (hd : d.IsTree) (h : d.IsFileAt (names.reverse ++ place)) :
    ∀ name ∈ names, PlainName name := fun name hname ↦
  hd.plain_of_mem h.get?_ne_none name (List.mem_reverse.2 hname)

/-- The paths are those of the names. -/
theorem IsTree.filesWithin_eq (hd : d.IsTree) (fuel : Nat) (place : DiskLocation) :
    d.filesWithin fuel place = (d.namesWithin fuel place).map Path.ofNames := by
  induction fuel generalizing place with
  | zero => rfl
  | succ fuel ih =>
    rw [filesWithin, namesWithin, List.map_flatMap]
    refine List.flatMap_congr fun name hname ↦ ?_
    have hthere := mem_inLoadOrder.1 hname
    rw [namesBehind]
    rcases d.get? (name :: place) with _ | _ | _
    · rfl
    · dsimp only
      rw [ih, List.map_map, List.map_map]
      refine List.map_congr_left fun rest hrest ↦ ?_
      obtain ⟨hne, -, hfile⟩ := hd.mem_namesWithin.1 hrest
      exact Path.join_ofNames hne (hd.plain hthere) (hd.plain_of_isFileAt hfile)
    · dsimp only
      rw [List.map_singleton, Path.ofNames, String.intercalate_singleton]

/-! ### The definition files of a directory -/

/-- The selected files below a location in load order, by the names on the way to them. -/
def listing (d : Disk) (m : Manifest) (place : DiskLocation) : List (List String) :=
  (d.namesWithin (d.entries.length + 1) place).filter fun names ↦
    m.isDefinitionFile (Path.ofNames names) && !m.isExcluded (Path.ofNames names)

/-- **The selected files are listed**, and no others. -/
theorem IsTree.mem_listing (hd : d.IsTree) (hplace : d.get? place = some .directory) :
    names ∈ d.listing m place ↔ d.IsFileAt (names.reverse ++ place) ∧ m.Selects names := by
  have hne : d.IsFileAt (names.reverse ++ place) → names ≠ [] := by
    rintro ⟨bytes, hfile⟩ rfl
    rw [List.reverse_nil, List.nil_append, hplace] at hfile
    cases hfile
  rw [listing, List.mem_filter, hd.mem_namesWithin]
  constructor
  · rintro ⟨⟨hne, -, hfile⟩, hselected⟩
    exact ⟨hfile, (Manifest.isSelected_iff hne (hd.plain_of_isFileAt hfile)).1 hselected⟩
  · rintro ⟨hfile, hselects⟩
    have hlength : names.length ≤ d.entries.length + 1 := by
      have hle := hd.length_le hfile.get?_ne_none
      rw [List.length_append, List.length_reverse] at hle
      omega
    exact ⟨⟨hne hfile, hlength, hfile⟩,
      (Manifest.isSelected_iff (hne hfile) (hd.plain_of_isFileAt hfile)).2 hselects⟩

/-- The files of a listing are in order. -/
theorem pairwise_listing (d : Disk) (m : Manifest) (place : DiskLocation) :
    (d.listing m place).Pairwise (d.Precedes place) :=
  (d.pairwise_namesWithin _ place).filter _

theorem nodup_listing (d : Disk) (m : Manifest) (place : DiskLocation) :
    (d.listing m place).Nodup :=
  (d.pairwise_listing m place).imp fun h ↦ by
    rintro rfl
    exact h.irrefl

/-- The definition files of a directory are its listing, as paths. -/
theorem IsTree.definitionFiles_eq (hd : d.IsTree) (m : Manifest)
    (hplace : d.locate directory = .ok place) (hdirectory : d.get? place = some .directory) :
    d.definitionFiles m directory =
      (d.listing m place).map fun names ↦ Path.join directory (Path.ofNames names) := by
  have hthere : d.isDirectory directory = true := isDirectory_iff.2 ⟨place, hplace, hdirectory⟩
  rw [definitionFiles, hplace]
  dsimp only
  rw [if_pos hthere, hd.filesWithin_eq, List.filter_map, List.map_map]
  rfl

/-- Where there is no directory there are no files. -/
theorem definitionFiles_eq_nil (m : Manifest) (h : d.isDirectory directory = false) :
    d.definitionFiles m directory = [] := by
  rw [definitionFiles, h]
  cases d.locate directory <;> rfl

/-- **Each file is listed once.** -/
theorem IsTree.nodup_definitionFiles (hd : d.IsTree) (m : Manifest) (directory : String) :
    (d.definitionFiles m directory).Nodup := by
  by_cases hthere : d.isDirectory directory = true
  · obtain ⟨place, hplace, hdirectory⟩ := isDirectory_iff.1 hthere
    rw [hd.definitionFiles_eq m hplace hdirectory]
    refine List.Nodup.map_on (fun p hp q hq hsame ↦ ?_) (d.nodup_listing m place)
    obtain ⟨hfile, hselects⟩ := (hd.mem_listing hdirectory).1 hp
    obtain ⟨hfile', hselects'⟩ := (hd.mem_listing hdirectory).1 hq
    have hplain := hd.plain_of_isFileAt hfile
    have hplain' := hd.plain_of_isFileAt hfile'
    have hpaths := Path.join_inj (Path.isAbsolute_ofNames hplain)
      (Path.isAbsolute_ofNames hplain') hsame
    exact Path.ofNames_inj hselects.ne_nil hselects'.ne_nil
      (fun name hname ↦ (hplain name hname).slash) (fun name hname ↦ (hplain' name hname).slash)
      hpaths
  · rw [definitionFiles_eq_nil m (Bool.eq_false_iff.2 hthere)]
    exact List.nodup_nil

/-! ### Disks with the same directories -/

section

variable (h : ∀ place, d'.get? place = some .directory ↔ d.get? place = some .directory)
include h

/-- The order of two files depends on the directories only. -/
theorem precedes_congr : d'.Precedes place p q ↔ d.Precedes place p q := by
  have hbefore : ∀ place a b, d'.ComesBefore place a b ↔ d.ComesBefore place a b :=
    fun place a b ↦ by simp only [ComesBefore, Ne, h]
  constructor
  · intro hp
    induction hp with
    | here hab => exact .here ((hbefore _ _ _).1 hab)
    | inside _ ih => exact .inside ih
  · intro hp
    induction hp with
    | here hab => exact .here ((hbefore _ _ _).2 hab)
    | inside _ ih => exact .inside ih

/-- Lists of the same files are the same. -/
theorem listing_eq_of_mem_iff {m' : Manifest}
    (hmem : ∀ names, names ∈ d'.listing m' place ↔ names ∈ d.listing m place) :
    d'.listing m' place = d.listing m place := by
  exact ((d'.pairwise_listing m' place).imp (precedes_congr h).1).eq_of_mem_iff
    (d.pairwise_listing m place) hmem

end

/-! ### Entries in another order -/

/-- Two disks on which the same is seen, however their entries are listed. -/
structure SameTree (d d' : Disk) : Prop where
  here : d'.here = d.here
  get? : ∀ place, d'.get? place = d.get? place

namespace SameTree

/-- The same entries in another order, where no location is repeated. -/
theorem of_perm {entries : List (DiskLocation × DiskEntry)}
    (h : (d.entries.map Prod.fst).Nodup) (hperm : d.entries.Perm entries) :
    d.SameTree { d with entries } := by
  refine ⟨rfl, fun place ↦ ?_⟩
  simp only [Disk.get?]
  split
  · rfl
  · refine Option.ext fun entry ↦ ?_
    rw [lookup_eq_some_iff_mem h, lookup_eq_some_iff_mem ((hperm.map Prod.fst).nodup_iff.1 h),
      hperm.mem_iff]

/-- The other disk is a tree as well. -/
theorem isTree (h : d.SameTree d') (hd : d.IsTree) : d'.IsTree := by
  constructor
  · intro name place hthere
    exact hd.plain (h.get? _ ▸ hthere)
  · intro name place hthere
    rw [h.get?] at hthere ⊢
    exact hd.outer hthere

/-- Paths lead to the same places on both disks. -/
theorem walk_eq (h : d.SameTree d') (place : DiskLocation) (parts : List (List Char)) :
    d'.walk place parts = d.walk place parts := by
  induction parts generalizing place with
  | nil => rfl
  | cons part parts ih =>
    simp only [walk, directoryAt, h.get?, ih]

theorem locate_eq (h : d.SameTree d') (path : String) : d'.locate path = d.locate path := by
  simp only [locate, startOf, h.here, h.walk_eq]

/-- The same files are listed on both disks. -/
theorem listing_eq (h : d.SameTree d') (hd : d.IsTree) (hplace : d.get? place = some .directory) :
    d'.listing m place = d.listing m place := by
  refine listing_eq_of_mem_iff (fun place ↦ by rw [h.get?]) fun names ↦ ?_
  rw [hd.mem_listing hplace, (h.isTree hd).mem_listing (h.get? place ▸ hplace), IsFileAt,
    IsFileAt, h.get?]

/-- **The order of the entries does not matter.** -/
theorem definitionFiles_eq (h : d.SameTree d') (hd : d.IsTree) (m : Manifest)
    (directory : String) : d'.definitionFiles m directory = d.definitionFiles m directory := by
  have hthere : d'.isDirectory directory = d.isDirectory directory := by
    simp only [isDirectory, entry?, h.locate_eq, h.get?]
  by_cases hdirectory : d.isDirectory directory = true
  · obtain ⟨place, hplace, hkind⟩ := isDirectory_iff.1 hdirectory
    rw [hd.definitionFiles_eq m hplace hkind, ← h.listing_eq hd hkind]
    exact (h.isTree hd).definitionFiles_eq m ((h.locate_eq directory).trans hplace)
      ((h.get? place).trans hkind)
  · rw [definitionFiles_eq_nil m (Bool.eq_false_iff.2 hdirectory),
      definitionFiles_eq_nil m (Bool.eq_false_iff.2 (hthere ▸ hdirectory))]

end SameTree

/-- **The load order of files.** The definition files of a directory are the selected files below
it, each once, and of two of them the one that precedes the other comes first. However the entries
of the disk are listed, the files are the same. -/
theorem IsTree.definitionFiles_in_load_order (hd : d.IsTree) (m : Manifest) (directory : String) :
    (d.isDirectory directory = false → d.definitionFiles m directory = []) ∧
      (∀ place, d.locate directory = .ok place → d.get? place = some .directory →
        ∃ listing : List (List String),
          d.definitionFiles m directory =
            listing.map (fun names ↦ Path.join directory (Path.ofNames names)) ∧
          (∀ names, names ∈ listing ↔ d.IsFileAt (names.reverse ++ place) ∧ m.Selects names) ∧
          ∀ i j (hi : i < listing.length) (hj : j < listing.length),
            i < j ↔ d.Precedes place listing[i] listing[j]) ∧
      (d.definitionFiles m directory).Nodup ∧
      ∀ d', d.SameTree d' → d'.definitionFiles m directory = d.definitionFiles m directory := by
  refine ⟨definitionFiles_eq_nil m, fun place hplace hdirectory ↦ ?_,
    hd.nodup_definitionFiles m directory, fun d' h ↦ h.definitionFiles_eq hd m directory⟩
  have hordered := List.pairwise_iff_getElem.1 (d.pairwise_listing m place)
  refine ⟨d.listing m place, hd.definitionFiles_eq m hplace hdirectory,
    fun names ↦ hd.mem_listing hdirectory, fun i j hi hj ↦ ⟨hordered i j hi hj, fun hprecedes ↦ ?_⟩⟩
  rcases Nat.lt_trichotomy i j with hlt | rfl | hgt
  · exact hlt
  · exact absurd hprecedes Precedes.irrefl
  · exact absurd hprecedes (hordered j i hj hi hgt).asymm

/-- Two definition files and another file, listed in no order. -/
def mixedDisk : Disk where
  entries :=
    [(["a.txt"], .file .empty), (["b.txt", "z"], .file .empty), (["notes.md"], .file .empty),
      (["z"], .directory)]
  here := []

theorem isTree_mixedDisk : mixedDisk.IsTree := .of_entries <| by
  simp only [mixedDisk, List.forall_mem_cons]
  exact ⟨⟨_, _, rfl, by decide, rfl⟩, ⟨_, _, rfl, by decide, rfl⟩, ⟨_, _, rfl, by decide, rfl⟩,
    ⟨_, _, rfl, by decide, rfl⟩, List.forall_mem_nil _⟩

/-- The file in a directory comes before the other one, and the third is no definition file; listed
from the end, the disk gives the same. -/
theorem definitionFiles_in_load_order_of_mixed :
    mixedDisk.IsTree ∧
      (∃ listing : List (List String),
        mixedDisk.definitionFiles .standard "." =
          listing.map (fun names ↦ Path.join "." (Path.ofNames names)) ∧
        ["notes.md"] ∉ listing ∧
        ∃ i j : Nat, i < j ∧ listing[i]? = some ["z", "b.txt"] ∧ listing[j]? = some ["a.txt"]) ∧
      { mixedDisk with entries := mixedDisk.entries.reverse }.definitionFiles .standard "." =
        mixedDisk.definitionFiles .standard "." := by
  obtain ⟨-, hlisted, -, hother⟩ := isTree_mixedDisk.definitionFiles_in_load_order .standard "."
  obtain ⟨listing, hpaths, hmem, horder⟩ := hlisted [] rfl rfl
  refine ⟨isTree_mixedDisk, ⟨listing, hpaths, ?_, ?_⟩,
    hother _ (.of_perm (by decide) (List.reverse_perm _).symm)⟩
  · intro hnotes
    exact absurd ((Manifest.isSelected_iff (by decide) (by decide)).2 ((hmem _).1 hnotes).2)
      (by decide)
  · obtain ⟨i, hi, hb⟩ := List.mem_iff_getElem.1 <| (hmem ["z", "b.txt"]).2
      ⟨⟨_, rfl⟩, (Manifest.isSelected_iff (by decide) (by decide)).1 (by decide)⟩
    obtain ⟨j, hj, ha⟩ := List.mem_iff_getElem.1 <| (hmem ["a.txt"]).2
      ⟨⟨_, rfl⟩, (Manifest.isSelected_iff (by decide) (by decide)).1 (by decide)⟩
    refine ⟨i, j, (horder i j hi hj).2 ?_, hb ▸ List.getElem?_eq_getElem hi,
      ha ▸ List.getElem?_eq_getElem hj⟩
    rw [ha, hb]
    exact .here (.inl ⟨rfl, nofun⟩)

end ModContent.Disk
