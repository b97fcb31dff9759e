import Mathlib.Data.List.Basic
import ModContent.Disk.Path
import ModContent.Proofs.Text.Join

/-!
# The paths of names

Names of directories with one of a file are put together to a path by `Path.ofNames`. If they are
plain, the path has them as its components again (`Path.components_ofNames`), so it comes from
these names only, and the extension of the path is that of the last name
(`Path.extension?_eq_some_iff`).
-/

namespace ModContent

/-- A name that can stand in a path as one part, as that of something other than the directories
that the dots name. -/
structure PlainName (name : String) : Prop where
  slash : '/' ∉ name.toList
  nonempty : name.toList ≠ []
  dot : name.toList ≠ ['.']
  dots : name.toList ≠ ['.', '.']

/-- A name is plain if it is one part of a path and no dot or two dots. -/
theorem plainName_iff {name : String} : PlainName name ↔ '/' ∉ name.toList ∧ name.toList ≠ [] ∧
    name.toList ≠ ['.'] ∧ name.toList ≠ ['.', '.'] :=
  ⟨fun h ↦ ⟨h.slash, h.nonempty, h.dot, h.dots⟩,
    fun ⟨hslash, hnil, hdot, hdots⟩ ↦ ⟨hslash, hnil, hdot, hdots⟩⟩

instance : DecidablePred PlainName := fun _ ↦ decidable_of_iff _ plainName_iff.symm

theorem PlainName.ofList {name : List Char} (hslash : '/' ∉ name) (hnil : name ≠ [])
    (hdot : name ≠ ['.']) (hdots : name ≠ ['.', '.']) : PlainName (String.ofList name) := by
  constructor <;> rwa [String.toList_ofList]

namespace Path

/-- The path of names, the outermost first. -/
def ofNames (names : List String) : String := String.intercalate "/" names

variable {names rest : List String} {name path outer inner : String}

theorem toList_ofNames (names : List String) :
    (ofNames names).toList = List.intercalate ['/'] (names.map String.toList) :=
  String.toList_intercalate

theorem splitOn_ofNames (hne : names ≠ []) (hslash : ∀ name ∈ names, '/' ∉ name.toList) :
    Text.splitOn '/' (ofNames names).toList = names.map String.toList := by
  rw [toList_ofNames]
  refine Text.splitOn_intercalate (mt List.map_eq_nil_iff.1 hne) fun part hpart ↦ ?_
  obtain ⟨name, hname, rfl⟩ := List.mem_map.1 hpart
  exact hslash name hname

theorem map_toList_inj {names' : List String} :
    names.map String.toList = names'.map String.toList ↔ names = names' :=
  List.map_inj_right fun _ _ ↦ String.toList_inj.1

/-- Names without slashes are known from their path. -/
theorem ofNames_inj {names' : List String} (hne : names ≠ []) (hne' : names' ≠ [])
    (hslash : ∀ name ∈ names, '/' ∉ name.toList) (hslash' : ∀ name ∈ names', '/' ∉ name.toList)
    (h : ofNames names = ofNames names') : names = names' := by
  rw [← map_toList_inj, ← splitOn_ofNames hne hslash, ← splitOn_ofNames hne' hslash', h]

theorem isAbsolute_of_plain (hname : PlainName name) : isAbsolute name = false :=
  beq_eq_false_iff_ne.2 fun h ↦ hname.slash (List.mem_of_head? h)

/-- A path of names is seen from somewhere. -/
theorem isAbsolute_ofNames (hplain : ∀ name ∈ names, PlainName name) :
    isAbsolute (ofNames names) = false := by
  cases names with
  | nil => rfl
  | cons name rest =>
    have hname := hplain name List.mem_cons_self
    rw [← isAbsolute_of_plain hname, isAbsolute, isAbsolute, toList_ofNames, List.map_cons]
    cases rest with
    | nil => rw [List.map_nil, List.intercalate_singleton]
    | cons next others =>
      rw [List.map_cons, List.intercalate_cons_cons, List.append_assoc,
        List.head?_append_of_ne_nil _ hname.nonempty]

/-! ### Joining -/

/-- A relative path follows a plain name behind a slash. -/
theorem join_of_plain (hname : PlainName name) (hinner : isAbsolute inner = false) :
    join name inner = name ++ "/" ++ inner := by
  have hnonempty : name.isEmpty = false := by
    rw [Bool.eq_false_iff, Ne, String.isEmpty_iff]
    exact fun h ↦ hname.nonempty (h ▸ rfl)
  have hlast : (name.toList.getLast? == some '/') = false := by
    rw [beq_eq_false_iff_ne]
    exact fun h ↦ hname.slash (List.mem_of_getLast? h)
  rw [join, if_neg (Bool.eq_false_iff.1 hinner), hnonempty, hlast]
  rfl

/-- A name in front of a path of names. -/
theorem join_ofNames (hne : rest ≠ []) (hname : PlainName name)
    (hrest : ∀ name ∈ rest, PlainName name) :
    join name (ofNames rest) = ofNames (name :: rest) := by
  obtain ⟨next, others, rfl⟩ := List.exists_cons_of_ne_nil hne
  rw [join_of_plain hname (isAbsolute_ofNames hrest)]
  refine String.toList_inj.1 ?_
  rw [String.toList_append, String.toList_append, toList_ofNames, toList_ofNames,
    List.map_cons, List.map_cons, List.map_cons, List.intercalate_cons_cons]
  rfl

/-- Below one directory, different relative paths make different paths. -/
theorem join_inj {inner' : String} (hinner : isAbsolute inner = false)
    (hinner' : isAbsolute inner' = false) (h : join outer inner = join outer inner') :
    inner = inner' := by
  rw [join, join, if_neg (Bool.eq_false_iff.1 hinner), if_neg (Bool.eq_false_iff.1 hinner')] at h
  split at h <;> exact String.append_right_inj _ |>.1 h

/-- The last part of a path that was joined is the name. -/
theorem splitOn_join (outer : String) (hname : PlainName name) : ∃ parts,
    Text.splitOn '/' (join outer name).toList = parts ++ [name.toList] ∧
      (Text.splitOn '/' outer.toList = parts ∨ Text.splitOn '/' outer.toList = parts ++ [[]]) := by
  have hone := Text.splitOn_of_not_mem hname.slash
  rw [join, if_neg (Bool.eq_false_iff.1 (isAbsolute_of_plain hname))]
  split
  · next hend =>
    rw [Bool.or_eq_true, String.isEmpty_iff, beq_iff_eq] at hend
    rcases hend with rfl | hend
    · exact ⟨[], by rw [String.empty_append, hone, List.nil_append], .inr rfl⟩
    · obtain ⟨text, htext⟩ := List.getLast?_eq_some_iff.1 hend
      refine ⟨Text.splitOn '/' text, ?_, .inr ?_⟩
      · rw [String.toList_append, htext, List.append_assoc, List.singleton_append,
          Text.splitOn_append_cons, hone]
      · rw [htext, Text.splitOn_append_cons, Text.splitOn]
  · refine ⟨Text.splitOn '/' outer.toList, ?_, .inl rfl⟩
    rw [String.toList_append, String.toList_append, List.append_assoc,
      show "/".toList = ['/'] from rfl, List.singleton_append, Text.splitOn_append_cons, hone]

/-- A path goes from the root if its directory does. -/
theorem isAbsolute_join (outer : String) (hname : PlainName name) :
    isAbsolute (join outer name) = isAbsolute outer := by
  have hseen : isAbsolute name = false := isAbsolute_of_plain hname
  rw [join, if_neg (Bool.eq_false_iff.1 hseen)]
  by_cases hempty : outer = ""
  · subst hempty
    exact hseen
  · have hne : outer.toList ≠ [] := mt String.toList_eq_nil_iff.1 hempty
    split
    · rw [isAbsolute, isAbsolute, String.toList_append, List.head?_append_of_ne_nil _ hne]
    · rw [isAbsolute, isAbsolute, String.toList_append, String.toList_append, List.append_assoc,
        List.head?_append_of_ne_nil _ hne]

/-! ### Components -/

theorem componentOf_plain (h : PlainName name) : componentOf name.toList = some (.name name) := by
  rw [componentOf, if_neg (by simp [h.nonempty, h.dot]), if_neg h.dots, String.ofList_toList]

/-- The components of a path of plain names are the names. -/
theorem components_ofNames (hne : names ≠ []) (hplain : ∀ name ∈ names, PlainName name) :
    components (ofNames names) = names.map .name := by
  have hstart : (names.map String.toList).head? ≠ some ['.'] := by
    obtain ⟨name, rest, rfl⟩ := List.exists_cons_of_ne_nil hne
    rw [List.map_cons, List.head?_cons]
    exact fun h ↦ (hplain name List.mem_cons_self).dot (Option.some.inj h)
  rw [components, isAbsolute_ofNames hplain,
    splitOn_ofNames hne fun name hname ↦ (hplain name hname).slash]
  rw [if_neg Bool.false_ne_true, if_neg hstart, List.nil_append, List.filterMap_map,
    ← List.filterMap_eq_map]
  exact List.filterMap_congr fun name hname ↦ componentOf_plain (hplain name hname)

theorem fileName?_ofNames (hne : names ≠ []) (hplain : ∀ name ∈ names, PlainName name) :
    fileName? (ofNames names) = names.getLast? := by
  rw [fileName?, components_ofNames hne hplain, List.getLast?_map]
  cases names.getLast? <;> rfl

/-- The extension stands behind the last dot of the name, and something else before it. -/
theorem extension?_eq_some_iff {extension : String} : extension? path = some extension ↔
    ∃ name stem, fileName? path = some name ∧ name.toList = stem ++ '.' :: extension.toList ∧
      stem ≠ [] ∧ '.' ∉ extension.toList := by
  simp only [extension?, Option.bind_eq_bind, Option.bind_eq_some_iff]
  refine exists_congr fun name ↦ ?_
  rw [exists_and_left, and_congr_right_iff]
  intro _
  constructor
  · intro h
    split at h
    · cases h
    · cases h
    · next after before hempty hcut =>
      obtain rfl := Option.some.inj h
      obtain ⟨hname, hdot⟩ := Text.cutAt_eq_some_iff.1 hcut
      refine ⟨before.reverse, ?_, ?_, ?_⟩
      · rw [String.toList_ofList, ← List.reverse_reverse name.toList, hname, List.reverse_append,
          List.reverse_cons, List.append_assoc, List.singleton_append]
      · rw [Ne, List.reverse_eq_nil_iff]
        rintro rfl
        exact hempty rfl
      · rwa [String.toList_ofList, List.mem_reverse]
  · rintro ⟨stem, hname, hstem, hdot⟩
    have hcut : Text.cutAt '.' name.toList.reverse =
        some (extension.toList.reverse, stem.reverse) := by
      rw [hname, List.reverse_append, List.reverse_cons, List.append_assoc, List.singleton_append]
      exact Text.cutAt_append (by rwa [List.mem_reverse]) stem.reverse
    obtain ⟨c, more, hmore⟩ := List.exists_cons_of_ne_nil (mt List.reverse_eq_nil_iff.1 hstem)
    rw [hcut, hmore]
    simp only [List.reverse_reverse, String.ofList_toList]

end Path

end ModContent
