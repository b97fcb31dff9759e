import ModContent.Grammar.Header
import ModContent.Proofs.Grammar.Statement

/-!
# The language of headers

A header is a label, alone or with a parameter list behind it, that is statements between
parentheses with commas between them. The parentheses of the list are found before anything else is
looked at (`Header.divide_eq_ok_iff`), and the commas before the statements are read
(`Header.readParameters_eq_ok_iff`). So no parameter holds a parenthesis or a comma, and the label
in front holds no mark at all (`Header.read_eq_ok_iff`). Main statement: `header_language`.
-/

namespace ModContent

variable {text : List Char}

/-- Values without a comma in their text are at most one. -/
theorem length_le_one_of_comma_not_mem {values : List String} (h : ',' ∉ valueChars values) :
    values.length ≤ 1 := by
  match values with
  | [] => exact Nat.zero_le 1
  | [_] => exact Nat.le_refl 1
  | value :: next :: rest =>
    rw [valueChars, List.map_cons, List.map_cons, List.intercalate_cons_cons] at h
    simp at h

namespace Header

variable {header : Header}

/-! ### The parameter list -/

/-- A parameter list with its parentheses; nothing if there is no list. -/
def listChars : Option (List Char) → List Char
  | none => []
  | some inner => '(' :: (inner ++ [')'])

/-- A text is divided into what stands before a list at its end and what stands inside the list. -/
theorem divide_eq_ok_iff {head : List Char} {inner : Option (List Char)} :
    divide text = .ok (head, inner) ↔
      '(' ∉ head ∧ (∀ list, inner = some list → '(' ∉ list ∧ ')' ∉ list) ∧
        text = head ++ listChars inner := by
  rw [divide]
  constructor
  · intro h
    cases hopen : Text.cutAt '(' text with
    | none =>
      simp only [hopen, Except.ok.injEq, Prod.mk.injEq] at h
      obtain ⟨rfl, rfl⟩ := h
      exact ⟨Text.cutAt_eq_none_iff.1 hopen, nofun, (List.append_nil _).symm⟩
    | some parts =>
      obtain ⟨before, rest⟩ := parts
      obtain ⟨rfl, hbefore⟩ := Text.cutAt_eq_some_iff.1 hopen
      simp only [hopen] at h
      cases hclose : Text.cutAt ')' rest with
      | none => rw [hclose] at h; cases h
      | some parts =>
        obtain ⟨list, after⟩ := parts
        obtain ⟨rfl, hlist⟩ := Text.cutAt_eq_some_iff.1 hclose
        simp only [hclose] at h
        split_ifs at h with hnested hafter
        obtain rfl := not_not.1 hafter
        obtain ⟨rfl, rfl⟩ := Prod.mk.inj (Except.ok.inj h)
        refine ⟨hbefore, ?_, rfl⟩
        rintro _ ⟨⟩
        exact ⟨hnested, hlist⟩
  · rintro ⟨hhead, hlist, rfl⟩
    cases inner with
    | none =>
      rw [listChars, List.append_nil, Text.cutAt_eq_none_iff.2 hhead]
    | some list =>
      obtain ⟨hopen, hclose⟩ := hlist list rfl
      rw [listChars, Text.cutAt_append hhead]
      simp only [Text.cutAt_append hclose, if_neg hopen, ne_eq, not_true_eq_false, if_false]

/-- Only an empty list has no text, as a part without a text cannot be read. -/
theorem parts_eq_nil {parts : List (List Char)} {parameters : List Statement}
    (hparts : ∀ part ∈ parts, ',' ∉ part)
    (hread : List.Forall₂ (fun part p ↦ Statement.read part parameterCategory = .ok p) parts
      parameters) (hnil : List.intercalate [','] parts = []) : parts = [] := by
  by_contra hne
  have hsplit := Text.splitOn_intercalate hne hparts
  rw [hnil, Text.splitOn_nil] at hsplit
  rw [← hsplit] at hread
  cases hread with
  | cons h _ => cases h

/-- The text of no parameters is empty, and any other is cut at its commas. -/
theorem readParameters_eq_ok_iff {inner : List Char} {parameters : List Statement} :
    readParameters inner = .ok parameters ↔ ∃ parts, (∀ part ∈ parts, ',' ∉ part) ∧
      inner = List.intercalate [','] parts ∧
      List.Forall₂ (fun part p ↦ Statement.read part parameterCategory = .ok p) parts
        parameters := by
  rw [readParameters]
  constructor
  · intro h
    split_ifs at h with hnil
    · obtain rfl := Except.ok.inj h
      exact ⟨[], List.forall_mem_nil _, hnil, .nil⟩
    · exact ⟨Text.splitOn ',' inner, fun part ↦ Text.not_mem_of_mem_splitOn,
        (Text.intercalate_splitOn ',' inner).symm, mapM_eq_ok_iff.1 h⟩
  · rintro ⟨parts, hparts, rfl, hread⟩
    split_ifs with hnil
    · obtain rfl := parts_eq_nil hparts hread hnil
      cases hread
      rfl
    · have hne : parts ≠ [] := by
        rintro rfl
        exact hnil rfl
      rw [Text.splitOn_intercalate hne hparts]
      exact mapM_eq_ok_iff.2 hread

/-! ### Headers -/

/-- A header is read if each of its steps ends well, and it consists of what they give. -/
theorem read_eq_ok_iff_steps : read text = .ok header ↔ ∃ head inner,
    divide text = .ok (head, inner) ∧ '=' ∉ head ∧ ')' ∉ head ∧ readLabel head = .ok header.key ∧
      readParameters (inner.getD []) = .ok header.parameters := by
  rw [read]
  constructor
  · intro h
    obtain ⟨⟨head, inner⟩, hdivide, h⟩ := bind_eq_ok_iff.1 h
    refine ⟨head, inner, hdivide, ?_⟩
    by_cases hequals : '=' ∈ head
    · simp only [if_pos hequals] at h
      cases h
    by_cases hclose : ')' ∈ head
    · simp only [if_neg hequals, if_pos hclose] at h
      cases h
    simp only [if_neg hequals, if_neg hclose] at h
    obtain ⟨key, hlabel, h⟩ := bind_eq_ok_iff.1 h
    obtain ⟨parameters, hparameters, h⟩ := bind_eq_ok_iff.1 h
    obtain rfl := Except.ok.inj h
    exact ⟨hequals, hclose, hlabel, hparameters⟩
  · rintro ⟨head, inner, hdivide, hequals, hclose, hlabel, hparameters⟩
    rw [hdivide]
    simp only [bind, Except.bind, if_neg hequals, if_neg hclose, hlabel, hparameters]
    rfl

/-- **A header is read** exactly if it is a label, alone or with a list of statements that hold
neither parentheses nor commas, and these were read. -/
theorem read_eq_ok_iff : read text = .ok header ↔ header.key.Labelled ∧ ∃ parts,
    (parts = [] ∧ text = header.key.chars ∨
      text = header.key.chars ++ '(' :: (List.intercalate [','] parts ++ [')'])) ∧
    (∀ part ∈ parts, '(' ∉ part ∧ ')' ∉ part ∧ ',' ∉ part) ∧
    List.Forall₂ (fun part p ↦ Statement.read part parameterCategory = .ok p) parts
      header.parameters := by
  rw [read_eq_ok_iff_steps]
  constructor
  · rintro ⟨head, inner, hdivide, hequals, -, hlabel, hparameters⟩
    obtain ⟨-, hlist, rfl⟩ := divide_eq_ok_iff.1 hdivide
    obtain ⟨hkey, rfl⟩ := (readLabel_eq_ok_iff hequals).1 hlabel
    obtain ⟨parts, hcomma, hinner, hread⟩ := readParameters_eq_ok_iff.1 hparameters
    refine ⟨hkey, parts, ?_⟩
    cases inner with
    | none =>
      obtain rfl := parts_eq_nil hcomma hread hinner.symm
      exact ⟨.inl ⟨rfl, List.append_nil _⟩, List.forall_mem_nil _, hread⟩
    | some list =>
      obtain rfl : list = List.intercalate [','] parts := hinner
      obtain ⟨hopen, hclose⟩ := hlist _ rfl
      refine ⟨.inr rfl, fun part hpart ↦ ⟨?_, ?_, hcomma part hpart⟩, hread⟩
      · exact fun hmem ↦ hopen (Text.mem_intercalate hpart hmem)
      · exact fun hmem ↦ hclose (Text.mem_intercalate hpart hmem)
  · rintro ⟨hkey, parts, htext, hparts, hread⟩
    have hcomma : ∀ part ∈ parts, ',' ∉ part := fun part hpart ↦ (hparts part hpart).2.2
    have hlabel := hkey.readLabel_chars
    have hmark : ∀ c ∈ marks, c ≠ ':' → c ∉ header.key.chars := fun _ ↦ hkey.not_mem_chars
    have hopen := hmark '(' (by decide) (by decide)
    have hclose := hmark ')' (by decide) (by decide)
    have hequals := hmark '=' (by decide) (by decide)
    rcases htext with ⟨rfl, rfl⟩ | rfl
    · exact ⟨_, none, divide_eq_ok_iff.2 ⟨hopen, nofun, (List.append_nil _).symm⟩, hequals, hclose,
        hlabel, readParameters_eq_ok_iff.2 ⟨[], hcomma, rfl, hread⟩⟩
    · refine ⟨_, some _, divide_eq_ok_iff.2 ⟨hopen, ?_, rfl⟩, hequals, hclose, hlabel,
        readParameters_eq_ok_iff.2 ⟨parts, hcomma, rfl, hread⟩⟩
      rintro _ ⟨⟩
      exact ⟨Text.not_mem_intercalate (by decide) fun part hpart ↦ (hparts part hpart).1,
        Text.not_mem_intercalate (by decide) fun part hpart ↦ (hparts part hpart).2.1⟩

end Header

/-- **The language of headers.** A text is read as a header exactly if it is a label, alone or with
a list of statements between parentheses and commas, none of which holds a parenthesis or a comma.
What is read has the key of that label and the statements as parameters, in their order, under the
category of parameters unless they have one of their own. No parameter has more than one value. -/
theorem header_language (text : List Char) (header : Header) :
    (Header.read text = .ok header ↔ header.key.Labelled ∧ ∃ parts,
      (parts = [] ∧ text = header.key.chars ∨
        text = header.key.chars ++ '(' :: (List.intercalate [','] parts ++ [')'])) ∧
      (∀ part ∈ parts, '(' ∉ part ∧ ')' ∉ part ∧ ',' ∉ part) ∧
      List.Forall₂ (fun part p ↦
        ∃ s, Statement.read part none = .ok s ∧ p = s.withDefault "parameter") parts
        header.parameters) ∧
    (Header.read text = .ok header →
      ∀ p ∈ header.parameters, ∀ values, p.value = .values values → values.length ≤ 1) := by
  have hparameter : ∀ part p, Statement.read part Header.parameterCategory = .ok p ↔
      ∃ s, Statement.read part none = .ok s ∧ p = s.withDefault "parameter" :=
    fun _ _ ↦ Statement.read_default_eq_ok_iff
  simp only [← hparameter]
  refine ⟨Header.read_eq_ok_iff, fun h p hp values hvalues ↦ ?_⟩
  obtain ⟨-, parts, -, hparts, hread⟩ := Header.read_eq_ok_iff.1 h
  obtain ⟨part, hpart, hp⟩ := exists_of_mem_mapM (mapM_eq_ok_iff.2 hread) hp
  obtain ⟨s, hs, rfl⟩ := (hparameter part p).1 hp
  obtain ⟨-, -, htext⟩ := Statement.read_eq_ok_iff.1 hs
  have hvalue : s.value = .values values := hvalues
  rw [hvalue] at htext
  rcases htext with rfl | ⟨hnone, -⟩
  · refine length_le_one_of_comma_not_mem fun hmem ↦ (hparts _ hpart).2.2 ?_
    exact List.mem_append_right _ (List.mem_cons_of_mem _ hmem)
  · obtain rfl := Assigned.values.inj hnone
    exact Nat.zero_le 1

/-- The header of a soldier, with a parameter of another category and one without a value. -/
def soldier : Header where
  key := ⟨"soldier", some "unit"⟩
  parameters := [⟨⟨"hp", some "parameter"⟩, .values ["10"]⟩, ⟨⟨"speed", some "stat"⟩, .values ["4"]⟩,
    ⟨⟨"elite", some "parameter"⟩, .values []⟩]

/-- A soldier with two parameters that have values and one that has none. -/
theorem header_language_of_soldier :
    Header.read "unit:soldier(hp=10,stat:speed=4,elite)".toList = .ok soldier ∧
      soldier.key.Labelled ∧
      ∀ p ∈ soldier.parameters, ∀ values, p.value = .values values → values.length ≤ 1 := by
  have hread : Header.read "unit:soldier(hp=10,stat:speed=4,elite)".toList = .ok soldier := by
    decide +kernel
  obtain ⟨hiff, hvalues⟩ := header_language "unit:soldier(hp=10,stat:speed=4,elite)".toList soldier
  exact ⟨hread, (hiff.1 hread).1, hvalues hread⟩

end ModContent
