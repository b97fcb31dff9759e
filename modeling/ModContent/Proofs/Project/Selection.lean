import Mathlib.Data.List.Infix
import ModContent.Project.Manifest
import ModContent.Proofs.Disk.Path

/-!
# The files that a manifest selects

A file is selected if its name has the extension of definition files, in any case of the ASCII
letters, and no pattern matches the path to it (`Manifest.isSelected_iff`). What the patterns match
is said by `PatternMatches`, one case for each form of a pattern.
-/

namespace ModContent

/-! ### Parts by shape -/

namespace Text

variable {lead tail part text rest : List Char}

/-- A beginning is cut off where the text has it. -/
theorem dropLead?_eq_some_iff : dropLead? lead text = some rest ↔ text = lead ++ rest := by
  induction lead generalizing text with
  | nil => simp [dropLead?]
  | cons c lead ih =>
    cases text with
    | nil => simp [dropLead?]
    | cons d text =>
      rw [dropLead?, List.cons_append, List.cons.injEq]
      split
      · next heq => rw [ih, and_iff_right heq.symm]
      · next hne => exact iff_of_false nofun fun h ↦ hne h.1.symm

theorem dropLead?_eq_none_iff : dropLead? lead text = none ↔ ¬ lead <+: text := by
  rw [Option.eq_none_iff_forall_ne_some, ← not_exists]
  refine not_congr (exists_congr fun rest ↦ ?_)
  rw [dropLead?_eq_some_iff, eq_comm]

/-- An end is cut off where the text has it. -/
theorem dropTail?_eq_some_iff : dropTail? tail text = some rest ↔ text = rest ++ tail := by
  rw [dropTail?, Option.map_eq_some_iff]
  constructor
  · rintro ⟨back, hback, rfl⟩
    rw [← List.reverse_inj, dropLead?_eq_some_iff.1 hback, List.reverse_append,
      List.reverse_reverse]
  · rintro rfl
    exact ⟨rest.reverse, dropLead?_eq_some_iff.2 List.reverse_append, List.reverse_reverse rest⟩

theorem dropTail?_eq_none_iff : dropTail? tail text = none ↔ ¬ tail <:+ text := by
  rw [Option.eq_none_iff_forall_ne_some, ← not_exists]
  refine not_congr (exists_congr fun rest ↦ ?_)
  rw [dropTail?_eq_some_iff, eq_comm]

/-- A part is found if it occurs in one piece. -/
theorem hasPart_iff : hasPart part text = true ↔ part <:+: text := by
  induction text with
  | nil => rw [hasPart, List.isEmpty_iff, List.infix_nil]
  | cons c text ih =>
    rw [hasPart, Bool.or_eq_true, List.isPrefixOf_iff_prefix, ih, List.infix_cons_iff]

/-- The end of a text is the beginning of the reversed one. -/
theorem reverse_isPrefixOf_iff : tail.reverse.isPrefixOf text.reverse = true ↔ tail <:+ text := by
  rw [List.isPrefixOf_iff_prefix, List.reverse_prefix]

end Text

namespace Manifest

/-! ### Patterns -/

/-- A path that leads into a directory of this name or, if there are separators in it, of these
names. -/
def InDirectory (dir path : List Char) : Prop :=
  dir ++ ['/'] <+: path ∨ '/' :: dir ++ ['/'] <:+: path

/-- The paths that patterns match, by the form of the pattern. -/
inductive PatternMatches (path : List Char) : List Char → Prop
  /-- The form `**/dir/*`. -/
  | deepDirectory {dir : List Char} : InDirectory dir path →
    PatternMatches path (['*', '*', '/'] ++ (dir ++ ['/', '*']))
  /-- The form `**/rest`, for the end of a path or the beginning of a part of it. -/
  | deep {rest : List Char} : ¬ ['/', '*'] <:+ rest → rest <:+ path ∨ '/' :: rest <:+: path →
    PatternMatches path (['*', '*', '/'] ++ rest)
  /-- The form `*ending`. -/
  | ending {ending : List Char} : '/' ∉ ending → ending <:+ path →
    PatternMatches path ('*' :: ending)
  /-- The form `dir/*`. -/
  | directory {dir : List Char} : ¬ ['*', '*', '/'] <+: dir ++ ['/', '*'] → InDirectory dir path →
    PatternMatches path (dir ++ ['/', '*'])
  /-- All others match where they occur. -/
  | part {pattern : List Char} : ¬ ['*', '*', '/'] <+: pattern → ¬ ['/', '*'] <:+ pattern →
    (∀ ending, pattern = '*' :: ending → '/' ∈ ending) → pattern <:+: path →
    PatternMatches path pattern

variable {pattern path dir rest : List Char}

/-- A directory is found at the start of a path or behind a slash. -/
theorem inDirectory_iff : ((dir ++ ['/']).isPrefixOf path ||
    Text.hasPart ('/' :: dir ++ ['/']) path) = true ↔ InDirectory dir path := by
  rw [Bool.or_eq_true, List.isPrefixOf_iff_prefix, Text.hasPart_iff, InDirectory]

/-- With `**/` in front, a directory pattern matches what lies in the directory. -/
theorem patternMatches_deepDirectory :
    patternMatches (['*', '*', '/'] ++ (dir ++ ['/', '*'])) path = true ↔
      InDirectory dir path := by
  rw [patternMatches.eq_def, Text.dropLead?_eq_some_iff.2 rfl]
  dsimp only
  rw [Text.dropTail?_eq_some_iff.2 rfl]
  exact inDirectory_iff

/-- Otherwise `**/` asks for an end of the path or for a part behind a slash. -/
theorem patternMatches_deep (htail : ¬ ['/', '*'] <:+ rest) :
    patternMatches (['*', '*', '/'] ++ rest) path = true ↔
      rest <:+ path ∨ '/' :: rest <:+: path := by
  rw [patternMatches.eq_def, Text.dropLead?_eq_some_iff.2 rfl]
  dsimp only
  rw [Text.dropTail?_eq_none_iff.2 htail]
  dsimp only
  rw [Bool.or_eq_true, Text.reverse_isPrefixOf_iff, Text.hasPart_iff]

/-- A star and no slash asks for an end of the path. -/
theorem patternMatches_star {ending : List Char} (hslash : '/' ∉ ending) :
    patternMatches ('*' :: ending) path = true ↔ ending <:+ path := by
  have hlead : ¬ ['*', '*', '/'] <+: '*' :: ending := by
    rintro ⟨rest, hrest⟩
    rw [← (List.cons.inj hrest).2] at hslash
    exact hslash (List.mem_append_left _ (List.mem_cons_of_mem _ List.mem_cons_self))
  rw [patternMatches.eq_def, Text.dropLead?_eq_none_iff.2 hlead, ← Text.reverse_isPrefixOf_iff]
  exact iff_of_eq (congrArg (· = true) (if_neg hslash))

/-- A directory pattern without stars in front matches the same as with them. -/
theorem patternMatches_directory (hlead : ¬ ['*', '*', '/'] <+: dir ++ ['/', '*']) :
    patternMatches (dir ++ ['/', '*']) path = true ↔ InDirectory dir path := by
  have hstar : ∀ ending, dir ++ ['/', '*'] = '*' :: ending → '/' ∈ ending := by
    intro ending heq
    cases dir with
    | nil => cases heq
    | cons c dir =>
      rw [← (List.cons.inj heq).2]
      exact List.mem_append_right _ List.mem_cons_self
  rw [patternMatches.eq_def, Text.dropLead?_eq_none_iff.2 hlead,
    Text.dropTail?_eq_some_iff.2 rfl, ← inDirectory_iff]
  dsimp only
  split
  · next ending heq => rw [if_pos (hstar ending heq)]
  · exact Iff.rfl

/-- All other patterns match wherever they occur. -/
theorem patternMatches_part (hlead : ¬ ['*', '*', '/'] <+: pattern)
    (htail : ¬ ['/', '*'] <:+ pattern) (hstar : ∀ ending, pattern = '*' :: ending → '/' ∈ ending) :
    patternMatches pattern path = true ↔ pattern <:+: path := by
  rw [patternMatches.eq_def, Text.dropLead?_eq_none_iff.2 hlead,
    Text.dropTail?_eq_none_iff.2 htail, ← Text.hasPart_iff]
  dsimp only
  split
  · next ending => rw [if_pos (hstar ending rfl)]
  · exact Iff.rfl

theorem PatternMatches.of_patternMatches (h : patternMatches pattern path = true) :
    PatternMatches path pattern := by
  by_cases hlead : ['*', '*', '/'] <+: pattern
  · obtain ⟨rest, rfl⟩ := hlead
    by_cases htail : ['/', '*'] <:+ rest
    · obtain ⟨dir, rfl⟩ := htail
      exact .deepDirectory (patternMatches_deepDirectory.1 h)
    · exact .deep htail ((patternMatches_deep htail).1 h)
  by_cases htail : ['/', '*'] <:+ pattern
  · obtain ⟨dir, rfl⟩ := htail
    exact .directory hlead ((patternMatches_directory hlead).1 h)
  by_cases hstar : ∀ ending, pattern = '*' :: ending → '/' ∈ ending
  · exact .part hlead htail hstar ((patternMatches_part hlead htail hstar).1 h)
  · push Not at hstar
    obtain ⟨ending, rfl, hslash⟩ := hstar
    exact .ending hslash ((patternMatches_star hslash).1 h)

/-- The five forms say what a pattern matches. -/
theorem patternMatches_iff :
    patternMatches pattern path = true ↔ PatternMatches path pattern := by
  refine ⟨.of_patternMatches, fun h ↦ ?_⟩
  cases h with
  | deepDirectory hin => exact patternMatches_deepDirectory.2 hin
  | deep htail hrest => exact (patternMatches_deep htail).2 hrest
  | ending hslash hending => exact (patternMatches_star hslash).2 hending
  | directory hlead hin => exact (patternMatches_directory hlead).2 hin
  | part hlead htail hstar hpart => exact (patternMatches_part hlead htail hstar).2 hpart

/-! ### Selected files -/

/-- The characters of a path, with separators in place of back slashes. -/
def slashed (path : String) : List Char := path.toList.map fun c ↦ if c = '\\' then '/' else c

/-- A path is left out if one of the patterns matches it, with slashes for backslashes. -/
theorem isExcluded_iff {m : Manifest} {path : String} : m.isExcluded path = true ↔
    ∃ pattern ∈ m.excludes, PatternMatches (slashed path) pattern.toList := by
  rw [isExcluded, List.any_eq_true]
  exact exists_congr fun pattern ↦ and_congr_right fun _ ↦ patternMatches_iff

/-- What a manifest asks of a file below a data directory, which is given by its name and the
directories around it. -/
structure Selects (m : Manifest) (names : List String) : Prop where
  /-- Some name stands before the dot, and the extension is that of the manifest but for case. -/
  extension : ∃ name ∈ names.getLast?, ∃ stem extension, name.toList = stem ++ '.' :: extension ∧
    stem ≠ [] ∧ '.' ∉ extension ∧
    extension.map Char.toLower = m.extension.toList.map Char.toLower
  kept : ∀ pattern ∈ m.excludes, ¬ PatternMatches (slashed (Path.ofNames names)) pattern.toList

theorem Selects.ne_nil {m : Manifest} {names : List String} (h : m.Selects names) : names ≠ [] := by
  rintro rfl
  obtain ⟨name, hname, -⟩ := h.extension
  cases hname

/-- A file holds definitions if its name ends with the extension, in any case, behind something. -/
theorem isDefinitionFile_iff {m : Manifest} {path : String} : m.isDefinitionFile path = true ↔
    ∃ name ∈ Path.fileName? path, ∃ stem extension, name.toList = stem ++ '.' :: extension ∧
      stem ≠ [] ∧ '.' ∉ extension ∧
      extension.map Char.toLower = m.extension.toList.map Char.toLower := by
  rw [isDefinitionFile, Option.any_eq_true]
  constructor
  · rintro ⟨extension, hextension, hsame⟩
    obtain ⟨name, stem, hname, hsplit, hstem, hdot⟩ := Path.extension?_eq_some_iff.1 hextension
    exact ⟨name, hname, stem, extension.toList, hsplit, hstem, hdot, beq_iff_eq.1 hsame⟩
  · rintro ⟨name, hname, stem, extension, hsplit, hstem, hdot, hsame⟩
    refine ⟨String.ofList extension, Path.extension?_eq_some_iff.2 ?_, ?_⟩
    · rw [String.toList_ofList]
      exact ⟨name, stem, hname, hsplit, hstem, hdot⟩
    · rw [String.toList_ofList]
      exact beq_iff_eq.2 hsame

/-- The name of a selected file is that of a definition file. -/
theorem Selects.isDefinitionFile {m : Manifest} {names : List String} {name : String}
    (h : m.Selects names) (hlast : names.getLast? = some name) (hname : PlainName name) :
    m.isDefinitionFile name = true := by
  obtain ⟨last, hmem, hextension⟩ := h.extension
  obtain rfl := Option.some.inj (hlast.symm.trans hmem)
  have hfile : Path.fileName? name = some name := by
    have hone := Path.fileName?_ofNames (List.cons_ne_nil name [])
      (List.forall_mem_singleton.2 hname)
    rwa [Path.ofNames, String.intercalate_singleton] at hone
  exact isDefinitionFile_iff.2 ⟨name, hfile, hextension⟩

/-- **The files that are loaded** are those that the manifest selects. -/
theorem isSelected_iff {m : Manifest} {names : List String} (hne : names ≠ [])
    (hplain : ∀ name ∈ names, PlainName name) :
    (m.isDefinitionFile (Path.ofNames names) && !m.isExcluded (Path.ofNames names)) = true ↔
      m.Selects names := by
  rw [Bool.and_eq_true, Bool.not_eq_true', ← Bool.not_eq_true, isExcluded_iff,
    isDefinitionFile_iff, Path.fileName?_ofNames hne hplain]
  push Not
  exact ⟨fun ⟨hextension, hkept⟩ ↦ ⟨hextension, hkept⟩,
    fun h ↦ ⟨h.extension, h.kept⟩⟩

end Manifest

end ModContent
