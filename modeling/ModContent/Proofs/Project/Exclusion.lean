import ModContent.Proofs.Project.Selection

/-!
# Patterns that exclude names

A pattern is compared with the text of a path, but what it is meant for are the names on the path.
A separator in the text stands between two names (`Path.exists_of_toList_ofNames_eq_append_cons`),
so a text that begins and ends at separators is made of whole names. Hence the forms `dir/*` and
`**/dir/*` match if the names of the directory stand before the last name
(`Manifest.directory_patterns_match_components`).

The form `**/rest` has no separator in front at the end of a path, and none behind elsewhere. So the
first or the last of its names may be a part of a component only, and names at the very beginning of
a longer path are not seen (`Manifest.deep_names_match_ends_and_beginnings`).
-/

namespace ModContent

/-! ### Texts in the text of a path -/

namespace Path

variable {path names before after : List String} {text more : List Char}

/-- Beside the separators, a path has the characters of its names only. -/
theorem not_mem_ofNames {c : Char} (hc : c ≠ '/') (hnames : ∀ name ∈ names, c ∉ name.toList) :
    c ∉ (ofNames names).toList := by
  rw [toList_ofNames]
  refine Text.not_mem_intercalate hc fun part hpart ↦ ?_
  obtain ⟨name, hname, rfl⟩ := List.mem_map.1 hpart
  exact hnames name hname

/-- Two paths put together have a slash between them. -/
theorem toList_ofNames_append (hbefore : before ≠ []) (hafter : after ≠ []) :
    (ofNames (before ++ after)).toList =
      (ofNames before).toList ++ '/' :: (ofNames after).toList := by
  rw [toList_ofNames, toList_ofNames, toList_ofNames, List.map_append,
    Text.intercalate_append '/' (mt List.map_eq_nil_iff.1 hbefore)
      (mt List.map_eq_nil_iff.1 hafter)]

/-- A separator in a path stands between two of its names. -/
theorem exists_of_toList_ofNames_eq_append_cons (hpath : ∀ name ∈ path, '/' ∉ name.toList)
    (h : (ofNames path).toList = text ++ '/' :: more) : ∃ before after, before ≠ [] ∧ after ≠ [] ∧
      path = before ++ after ∧ (ofNames before).toList = text ∧ (ofNames after).toList = more := by
  have hne : path ≠ [] := by
    rintro rfl
    simp [toList_ofNames] at h
  have hparts := splitOn_ofNames hne hpath
  rw [h, Text.splitOn_append_cons] at hparts
  obtain ⟨before, after, rfl, hbefore, hafter⟩ := List.map_eq_append_iff.1 hparts.symm
  refine ⟨before, after, ?_, ?_, rfl, ?_, ?_⟩
  · rintro rfl
    exact Text.splitOn_ne_nil _ _ hbefore.symm
  · rintro rfl
    exact Text.splitOn_ne_nil _ _ hafter.symm
  · rw [toList_ofNames, hbefore, Text.intercalate_splitOn]
  · rw [toList_ofNames, hafter, Text.intercalate_splitOn]

/-- What stands behind a separator is the beginning of the names that follow there. -/
theorem cons_infix_ofNames_iff (hpath : ∀ name ∈ path, '/' ∉ name.toList) :
    '/' :: text <:+: (ofNames path).toList ↔ ∃ before after, before ≠ [] ∧ after ≠ [] ∧
      path = before ++ after ∧ text <+: (ofNames after).toList := by
  constructor
  · rintro ⟨start, rest, h⟩
    rw [List.append_assoc, List.cons_append] at h
    obtain ⟨before, after, hbefore, hafter, rfl, -, hrest⟩ :=
      exists_of_toList_ofNames_eq_append_cons hpath h.symm
    exact ⟨before, after, hbefore, hafter, rfl, rest, hrest.symm⟩
  · rintro ⟨before, after, hbefore, hafter, rfl, rest, hrest⟩
    refine ⟨(ofNames before).toList, rest, ?_⟩
    rw [toList_ofNames_append hbefore hafter, ← hrest, List.append_assoc, List.cons_append]

/-- A path begins with names and a separator if more names follow. -/
theorem append_prefix_ofNames_iff (hpath : ∀ name ∈ path, '/' ∉ name.toList) (hne : names ≠ [])
    (hnames : ∀ name ∈ names, '/' ∉ name.toList) :
    (ofNames names).toList ++ ['/'] <+: (ofNames path).toList ↔
      ∃ after, after ≠ [] ∧ path = names ++ after := by
  constructor
  · rintro ⟨rest, h⟩
    rw [List.append_assoc, List.singleton_append] at h
    obtain ⟨before, after, hbefore, hafter, rfl, hsame, -⟩ :=
      exists_of_toList_ofNames_eq_append_cons hpath h.symm
    obtain rfl := ofNames_inj hbefore hne (List.forall_mem_append.1 hpath).1 hnames
      (String.toList_inj.1 hsame)
    exact ⟨after, hafter, rfl⟩
  · rintro ⟨after, hafter, rfl⟩
    refine ⟨(ofNames after).toList, ?_⟩
    rw [toList_ofNames_append hne hafter, List.append_assoc, List.singleton_append]

/-- Without the separator, the last of the names may be the beginning of a name of the path. -/
theorem ofNames_prefix_iff (hpath : ∀ name ∈ path, '/' ∉ name.toList) (hpath' : path ≠ [])
    (hne : names ≠ []) (hnames : ∀ name ∈ names, '/' ∉ name.toList) :
    (ofNames names).toList <+: (ofNames path).toList ↔ ∃ inner last name rest,
      names = inner ++ [last] ∧ path = inner ++ name :: rest ∧ last.toList <+: name.toList := by
  constructor
  · rintro ⟨rest, h⟩
    obtain ⟨before, last, first, after, htext, -, happend⟩ :=
      Text.exists_splitOn_append '/' (ofNames names).toList rest
    rw [splitOn_ofNames hne hnames] at htext
    rw [h, splitOn_ofNames hpath' hpath] at happend
    obtain ⟨inner, _, rfl, rfl, hlast⟩ := List.map_eq_append_iff.1 htext
    obtain ⟨last, rfl, rfl⟩ := List.map_eq_singleton_iff.1 hlast
    obtain ⟨inner', _, rfl, hinner, hothers⟩ := List.map_eq_append_iff.1 happend
    obtain ⟨name, rest, rfl, hname, -⟩ := List.map_eq_cons_iff.1 hothers
    obtain rfl := map_toList_inj.1 hinner
    exact ⟨inner', last, name, rest, rfl, rfl, first, hname.symm⟩
  · rintro ⟨inner, last, name, rest, rfl, rfl, first, hname⟩
    refine ⟨List.intercalate ['/'] (first :: rest.map String.toList), ?_⟩
    rw [toList_ofNames, toList_ofNames, List.map_append, List.map_append, List.map_singleton,
      List.map_cons, ← hname, Text.intercalate_append_parts]

/-- A path ends with names of which the first may be the end of a name of the path. -/
theorem ofNames_suffix_iff (hpath : ∀ name ∈ path, '/' ∉ name.toList) (hpath' : path ≠ [])
    (hne : names ≠ []) (hnames : ∀ name ∈ names, '/' ∉ name.toList) :
    (ofNames names).toList <:+ (ofNames path).toList ↔ ∃ around name first rest,
      names = first :: rest ∧ path = around ++ name :: rest ∧ first.toList <:+ name.toList := by
  constructor
  · rintro ⟨start, h⟩
    obtain ⟨before, last, first, after, -, htext, happend⟩ :=
      Text.exists_splitOn_append '/' start (ofNames names).toList
    rw [splitOn_ofNames hne hnames] at htext
    rw [h, splitOn_ofNames hpath' hpath] at happend
    obtain ⟨first, rest, rfl, rfl, rfl⟩ := List.map_eq_cons_iff.1 htext
    obtain ⟨around, _, rfl, -, hothers⟩ := List.map_eq_append_iff.1 happend
    obtain ⟨name, rest', rfl, hname, hrest⟩ := List.map_eq_cons_iff.1 hothers
    obtain rfl := map_toList_inj.1 hrest
    exact ⟨around, name, first, rest', rfl, rfl, last, hname.symm⟩
  · rintro ⟨around, name, first, rest, rfl, rfl, last, hname⟩
    refine ⟨List.intercalate ['/'] (around.map String.toList ++ [last]), ?_⟩
    rw [toList_ofNames, toList_ofNames, List.map_append, List.map_cons, List.map_cons, ← hname,
      Text.intercalate_append_parts]

end Path

/-- A name that can stand in a path as one component. A back slash counts as a separator, too. -/
structure IsComponent (name : String) : Prop where
  nonempty : name.toList ≠ []
  slash : '/' ∉ name.toList
  backslash : '\\' ∉ name.toList

instance : DecidablePred IsComponent := fun name ↦
  decidable_of_iff (name.toList ≠ [] ∧ '/' ∉ name.toList ∧ '\\' ∉ name.toList)
    ⟨fun ⟨nonempty, slash, backslash⟩ ↦ ⟨nonempty, slash, backslash⟩,
      fun h ↦ ⟨h.nonempty, h.slash, h.backslash⟩⟩

namespace Manifest

variable {path dir names : List String} {m : Manifest}

/-- Components have no backslash, so nothing is turned into a slash. -/
theorem slashed_ofNames (hpath : ∀ name ∈ path, IsComponent name) :
    slashed (Path.ofNames path) = (Path.ofNames path).toList := by
  have hbackslash := Path.not_mem_ofNames (by decide) fun name hname ↦ (hpath name hname).backslash
  rw [slashed]
  refine (List.map_congr_left fun c hc ↦ if_neg ?_).trans (List.map_id _)
  rintro rfl
  exact hbackslash hc

/-- With one pattern, a path is left out if the pattern matches it. -/
theorem isExcluded_singleton (m : Manifest) (pattern path : String) :
    { m with excludes := [pattern] }.isExcluded path =
      patternMatches pattern.toList (slashed path) := by
  rw [isExcluded, List.any_cons, List.any_nil, Bool.or_false, slashed]

/-! ### Patterns of directories -/

/-- A path leads into a directory if the names of the directory stand before its last name. -/
theorem inDirectory_ofNames_iff (hpath : ∀ name ∈ path, '/' ∉ name.toList) (hne : dir ≠ [])
    (hdir : ∀ name ∈ dir, '/' ∉ name.toList) :
    InDirectory (Path.ofNames dir).toList (Path.ofNames path).toList ↔ dir <:+: path.dropLast := by
  rw [InDirectory, List.cons_append, Path.cons_infix_ofNames_iff hpath,
    Path.append_prefix_ofNames_iff hpath hne hdir]
  constructor
  · rintro (⟨after, hafter, rfl⟩ | ⟨before, inner, -, hinner, rfl, hprefix⟩)
    · rw [List.dropLast_append_of_ne_nil hafter]
      exact (List.prefix_append _ _).isInfix
    · obtain ⟨after, hafter, rfl⟩ := (Path.append_prefix_ofNames_iff
        (List.forall_mem_append.1 hpath).2 hne hdir).1 hprefix
      rw [List.dropLast_append_of_ne_nil hinner, List.dropLast_append_of_ne_nil hafter]
      exact List.infix_append' _ _ _
  · rintro ⟨before, after, h⟩
    obtain ⟨around, last, rfl⟩ := (List.eq_nil_or_concat' path).resolve_left <| by
      rintro rfl
      simp [hne] at h
    rw [List.dropLast_concat] at h
    subst h
    rw [List.append_assoc, List.append_assoc] at hpath ⊢
    have hinside : after ++ [last] ≠ [] :=
      List.append_ne_nil_of_right_ne_nil _ (List.cons_ne_nil _ _)
    by_cases hbefore : before = []
    · exact .inl ⟨_, hinside, by rw [hbefore, List.nil_append]⟩
    · refine .inr ⟨before, _, hbefore, List.append_ne_nil_of_left_ne_nil hne _, rfl, ?_⟩
      exact (Path.append_prefix_ofNames_iff (List.forall_mem_append.1 hpath).2 hne hdir).2
        ⟨_, hinside, rfl⟩

/-- A pattern whose first name is something else than two stars is not one of the deep forms. -/
theorem not_stars_lead (hne : dir ≠ []) (hdir : ∀ name ∈ dir, '/' ∉ name.toList)
    (hstars : dir.head? ≠ some "**") :
    ¬ ['*', '*', '/'] <+: (Path.ofNames dir).toList ++ ['/', '*'] := by
  rintro ⟨rest, hrest⟩
  have hparts := congrArg (Text.splitOn '/') hrest
  rw [Text.splitOn_append_cons, Path.splitOn_ofNames hne hdir] at hparts
  obtain ⟨first, more, rfl⟩ := List.exists_cons_of_ne_nil hne
  have hfirst : ['*', '*'] = first.toList := (List.cons.inj hparts).1
  exact hstars (congrArg some (String.toList_inj.1 hfirst.symm))

/-- **Patterns of directories match whole components.** A path is excluded if the names of the
directory stand somewhere before its last name, and the forms `dir/*` and `**/dir/*` do not
differ. -/
theorem directory_patterns_match_components (m : Manifest) (path dir : List String)
    (hpath : ∀ name ∈ path, IsComponent name) (hne : dir ≠ [])
    (hdir : ∀ name ∈ dir, '/' ∉ name.toList) (hstars : dir.head? ≠ some "**") :
    ({ m with excludes := [Path.ofNames dir ++ "/*"] }.isExcluded (Path.ofNames path) = true ↔
        dir <:+: path.dropLast) ∧
      ({ m with excludes := ["**/" ++ Path.ofNames dir ++ "/*"] }.isExcluded
          (Path.ofNames path) = true ↔ dir <:+: path.dropLast) ∧
      ∀ text, { m with excludes := [Path.ofNames dir ++ "/*"] }.isExcluded text =
        { m with excludes := ["**/" ++ Path.ofNames dir ++ "/*"] }.isExcluded text := by
  have hslash : ∀ name ∈ path, '/' ∉ name.toList := fun name hname ↦ (hpath name hname).slash
  have hnear (text : String) :
      { m with excludes := [Path.ofNames dir ++ "/*"] }.isExcluded text = true ↔
        InDirectory (Path.ofNames dir).toList (slashed text) := by
    rw [isExcluded_singleton, String.toList_append]
    exact patternMatches_directory (not_stars_lead hne hdir hstars)
  have hdeep (text : String) :
      { m with excludes := ["**/" ++ Path.ofNames dir ++ "/*"] }.isExcluded text = true ↔
        InDirectory (Path.ofNames dir).toList (slashed text) := by
    rw [isExcluded_singleton, String.toList_append, String.toList_append, List.append_assoc]
    exact patternMatches_deepDirectory
  refine ⟨?_, ?_, fun text ↦ ?_⟩
  · rw [hnear, slashed_ofNames hpath, inDirectory_ofNames_iff hslash hne hdir]
  · rw [hdeep, slashed_ofNames hpath, inDirectory_ofNames_iff hslash hne hdir]
  · rw [Bool.eq_iff_iff, hnear, hdeep]

/-- A directory inside another one is matched, and no directory whose name goes on. -/
theorem directory_patterns_match_components_of_drafts :
    { standard with excludes := ["**/old/drafts/*"] }.isExcluded "core/old/drafts/wip.txt" = true ∧
      { standard with excludes := ["old/drafts/*"] }.isExcluded "core/old/drafts2/wip.txt" =
        false := by
  have hmatch := directory_patterns_match_components standard
    ["core", "old", "drafts", "wip.txt"] ["old", "drafts"] (by decide) (by decide) (by decide)
    (by decide)
  have hother := directory_patterns_match_components standard
    ["core", "old", "drafts2", "wip.txt"] ["old", "drafts"] (by decide) (by decide) (by decide)
    (by decide)
  exact ⟨hmatch.2.1.2 (by decide), Bool.eq_false_iff.2 (mt hother.1.1 (by decide))⟩

/-! ### Names behind two stars -/

/-- The names end a path, the first of them perhaps as the end of a component. -/
def EndsIn (names path : List String) : Prop :=
  ∃ around component first rest, names = first :: rest ∧ path = around ++ component :: rest ∧
    first.toList <:+ component.toList

/-- The names stand behind the first component of a path, the last of them perhaps as the beginning
of a component. -/
def BeginsIn (names path : List String) : Prop :=
  ∃ before inner last component rest, before ≠ [] ∧ names = inner ++ [last] ∧
    path = before ++ (inner ++ component :: rest) ∧ last.toList <+: component.toList

/-- A component that ends with the first of the names is this name, and one that begins with the
last of them is that. -/
def WholeIn (names path : List String) : Prop :=
  ∀ component ∈ path,
    (∀ first ∈ names.head?, first.toList <:+ component.toList → component = first) ∧
      ∀ last ∈ names.getLast?, last.toList <+: component.toList → component = last

theorem EndsIn.refl (hne : path ≠ []) : EndsIn path path := by
  obtain ⟨first, rest, rfl⟩ := List.exists_cons_of_ne_nil hne
  exact ⟨[], first, first, rest, rfl, rfl, List.suffix_rfl⟩

/-- Names that stand behind the first one begin somewhere. -/
theorem BeginsIn.of_infix_tail (hne : names ≠ []) (h : names <:+: path.tail) :
    BeginsIn names path := by
  cases path with
  | nil => exact absurd (List.infix_nil.1 h) hne
  | cons first path =>
    obtain ⟨before, after, rfl⟩ := h
    obtain ⟨inner, last, rfl⟩ := (List.eq_nil_or_concat' names).resolve_left hne
    refine ⟨first :: before, inner, last, last, after, List.cons_ne_nil _ _, rfl, ?_,
      List.prefix_rfl⟩
    simp

/-- Where only whole components fit, names that end the path are components of it in a row. -/
theorem EndsIn.infix_of_wholeIn (h : EndsIn names path) (hwhole : WholeIn names path) :
    names <:+: path := by
  obtain ⟨around, component, first, rest, rfl, rfl, hends⟩ := h
  obtain rfl := (hwhole component (by simp)).1 first rfl hends
  exact (List.suffix_append _ _).isInfix

theorem BeginsIn.infix_of_wholeIn (h : BeginsIn names path) (hwhole : WholeIn names path) :
    names <:+: path := by
  obtain ⟨before, inner, last, component, rest, -, rfl, rfl, hbegins⟩ := h
  obtain rfl := (hwhole component (by simp)).2 last List.getLast?_concat hbegins
  refine ⟨before, rest, ?_⟩
  simp

/-- A text ends a path if it does so in its names, the first of them in part. -/
theorem ofNames_suffix_iff (hpath : ∀ name ∈ path, '/' ∉ name.toList) (hne : names ≠ [])
    (hnames : ∀ name ∈ names, IsComponent name) :
    (Path.ofNames names).toList <:+ (Path.ofNames path).toList ↔ EndsIn names path := by
  by_cases hpath' : path = []
  · -- the empty path ends with nothing
    subst hpath'
    refine iff_of_false (fun hends ↦ ?_) ?_
    · obtain ⟨first, rest, rfl⟩ := List.exists_cons_of_ne_nil hne
      obtain ⟨c, hc⟩ := List.exists_mem_of_ne_nil _ (hnames first List.mem_cons_self).nonempty
      have hmem : c ∈ (Path.ofNames (first :: rest)).toList := by
        rw [Path.toList_ofNames]
        exact Text.mem_intercalate (List.mem_map_of_mem List.mem_cons_self) hc
      exact List.not_mem_nil (hends.subset hmem)
    · rintro ⟨around, component, first, rest, -, h, -⟩
      simp at h
  · exact Path.ofNames_suffix_iff hpath hpath' hne fun name hname ↦ (hnames name hname).slash

/-- A text stands behind a slash if names begin with it, the last of them in part. -/
theorem cons_ofNames_infix_iff (hpath : ∀ name ∈ path, '/' ∉ name.toList) (hne : names ≠ [])
    (hnames : ∀ name ∈ names, '/' ∉ name.toList) :
    '/' :: (Path.ofNames names).toList <:+: (Path.ofNames path).toList ↔ BeginsIn names path := by
  rw [Path.cons_infix_ofNames_iff hpath]
  constructor
  · rintro ⟨before, after, hbefore, hafter, rfl, hprefix⟩
    obtain ⟨inner, last, component, rest, rfl, rfl, hbegins⟩ :=
      (Path.ofNames_prefix_iff (List.forall_mem_append.1 hpath).2 hafter hne hnames).1 hprefix
    exact ⟨before, inner, last, component, rest, hbefore, rfl, rfl, hbegins⟩
  · rintro ⟨before, inner, last, component, rest, hbefore, rfl, rfl, hbegins⟩
    have hafter : inner ++ component :: rest ≠ [] :=
      List.append_ne_nil_of_right_ne_nil _ (List.cons_ne_nil _ _)
    exact ⟨before, _, hbefore, hafter, rfl,
      (Path.ofNames_prefix_iff (List.forall_mem_append.1 hpath).2 hafter hne hnames).2
        ⟨inner, last, component, rest, rfl, rfl, hbegins⟩⟩

/-- **Names behind two stars** match at the end of a path, where the first of them may be a part of
a component, and behind its first component, where the last of them may be. So a path is excluded if
the names are all of it or stand behind its first component; and if no component goes on before or
behind them, the names of an excluded path stand in it. -/
theorem deep_names_match_ends_and_beginnings (m : Manifest) (path names : List String)
    (hpath : ∀ name ∈ path, IsComponent name) (hne : names ≠ [])
    (hnames : ∀ name ∈ names, IsComponent name ∧ '*' ∉ name.toList) :
    let excluded :=
      { m with excludes := ["**/" ++ Path.ofNames names] }.isExcluded (Path.ofNames path)
    (excluded = true ↔ EndsIn names path ∨ BeginsIn names path) ∧
      (names = path ∨ names <:+: path.tail → excluded = true) ∧
      (excluded = true → WholeIn names path → names <:+: path) := by
  intro excluded
  have hslash : ∀ name ∈ path, '/' ∉ name.toList := fun name hname ↦ (hpath name hname).slash
  have htail : ¬ ['/', '*'] <:+ (Path.ofNames names).toList := fun h ↦
    Path.not_mem_ofNames (by decide) (fun name hname ↦ (hnames name hname).2) (h.subset (by decide))
  have hexcluded : excluded = true ↔ EndsIn names path ∨ BeginsIn names path := by
    rw [show excluded = _ from isExcluded_singleton m _ _, slashed_ofNames hpath,
      String.toList_append]
    exact (patternMatches_deep htail).trans <| or_congr
      (ofNames_suffix_iff hslash hne fun name hname ↦ (hnames name hname).1)
      (cons_ofNames_infix_iff hslash hne fun name hname ↦ (hnames name hname).1.slash)
  refine ⟨hexcluded, ?_, fun h hwhole ↦ ?_⟩
  · rintro (rfl | htail)
    · exact hexcluded.2 (.inl (.refl hne))
    · exact hexcluded.2 (.inr (.of_infix_tail hne htail))
  · rcases hexcluded.1 h with hends | hbegins
    · exact hends.infix_of_wholeIn hwhole
    · exact hbegins.infix_of_wholeIn hwhole

/-- Names that stand inside a path exclude it, and they stand in a path that they exclude. -/
theorem deep_names_match_ends_and_beginnings_of_drafts :
    { standard with excludes := ["**/old/drafts"] }.isExcluded "core/old/drafts/wip.txt" = true ∧
      ({ standard with excludes := ["**/units.txt"] }.isExcluded "core/units.txt" = true →
        ["units.txt"] <:+: ["core", "units.txt"]) := by
  obtain ⟨-, hstands, -⟩ := deep_names_match_ends_and_beginnings standard
    ["core", "old", "drafts", "wip.txt"] ["old", "drafts"] (by decide) (by decide) (by decide)
  obtain ⟨-, -, hexcluded⟩ := deep_names_match_ends_and_beginnings standard
    ["core", "units.txt"] ["units.txt"] (by decide) (by decide) (by decide)
  exact ⟨hstands (.inr (by decide)), fun h ↦ hexcluded h (by unfold WholeIn; decide)⟩

/-- A file is excluded whose name only ends with the name of the pattern, and one is not that lies
in the directory of the pattern. -/
theorem deep_name_taken_for_part :
    ({ standard with excludes := ["**/units.txt"] }.isExcluded "myunits.txt" = true ∧
        ¬ ["units.txt"] <:+: ["myunits.txt"]) ∧
      { standard with excludes := ["**/drafts"] }.isExcluded "drafts/wip.txt" = false ∧
        ["drafts"] <:+: ["drafts", "wip.txt"] := by
  decide

end Manifest

end ModContent
