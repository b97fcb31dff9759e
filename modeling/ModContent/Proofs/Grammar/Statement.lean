import Mathlib.Data.List.TakeWhile
import ModContent.Property
import ModContent.Proofs.Grammar.Path
import ModContent.Proofs.Outcome

/-!
# The language of statements

A statement is a label, or a label with an equals sign and a right-hand side behind it: values with
commas between them, or an at sign and a path. Not every list of values and not every path can stand
there (`Assigned.Expressible`), but what can is read from its text and from no other
(`readAssigned_eq_ok_iff`). So a text is read as a statement exactly if it is the text of that
statement; only when there are no values may the equals sign be there or not
(`Statement.read_eq_ok_iff`).

A default category changes nothing about what is read (`Statement.read_eq_map`). Main statement:
`statement_language`.
-/

namespace ModContent

variable {text : List Char} {s : Statement}

/-! ### Values -/

/-- Values between commas, as they stand after an equals sign. -/
def valueChars (values : List String) : List Char :=
  List.intercalate [','] (values.map String.toList)

/-- Values that commas keep apart, and that look neither like no values nor like a reference. -/
structure Separable (values : List String) : Prop where
  ne : values ≠ [""]
  head : ∀ value rest, values = value :: rest → value.toList.head? ≠ some '@'
  apart : ∀ value ∈ values, ',' ∉ value.toList

instance : DecidablePred Separable := fun values ↦
  decidable_of_iff (values ≠ [""] ∧ (∀ value ∈ values.head?, value.toList.head? ≠ some '@') ∧
      ∀ value ∈ values, ',' ∉ value.toList)
    ⟨fun ⟨ne, head, apart⟩ ↦ ⟨ne, fun _ _ hvalues ↦ head _ (hvalues ▸ rfl), apart⟩,
      fun h ↦ ⟨h.ne, fun _ hvalue ↦ h.head _ _ (List.eq_cons_of_mem_head? hvalue), h.apart⟩⟩

theorem separable_nil : Separable [] := ⟨nofun, nofun, nofun⟩

/-- Values start like a reference if the first one does. -/
theorem head?_valueChars_eq_at_iff (value : String) (rest : List String) :
    (valueChars (value :: rest)).head? = some '@' ↔ value.toList.head? = some '@' := by
  cases rest with
  | nil => rw [valueChars, List.map_singleton, List.intercalate_singleton]
  | cons next more =>
    rw [valueChars, List.map_cons, List.map_cons, List.intercalate_cons_cons]
    cases value.toList with
    | nil => simp
    | cons c chars => simp

/-- A text that is neither empty nor starts like a reference is read as values. -/
theorem readAssigned_eq (hne : text ≠ []) (hhead : text.head? ≠ some '@') :
    readAssigned text = .ok (.values ((Text.splitOn ',' text).map String.ofList)) := by
  cases text with
  | nil => exact absurd rfl hne
  | cons c rest =>
    rw [readAssigned]
    · exact nofun
    · rintro path ⟨⟩
      exact hhead rfl

/-- Separable values are read from their text. -/
theorem Separable.readAssigned_valueChars {values : List String} (h : Separable values) :
    readAssigned (valueChars values) = .ok (.values values) := by
  cases values with
  | nil => rfl
  | cons value rest =>
    have hcomma : ∀ part ∈ (value :: rest).map String.toList, ',' ∉ part := by
      intro part hpart
      obtain ⟨v, hv, rfl⟩ := List.mem_map.1 hpart
      exact h.apart v hv
    have hsplit : Text.splitOn ',' (valueChars (value :: rest)) =
        (value :: rest).map String.toList :=
      Text.splitOn_intercalate (List.cons_ne_nil _ _) hcomma
    have hne : valueChars (value :: rest) ≠ [] := by
      intro hnil
      rw [hnil, Text.splitOn_nil, List.map_cons, List.cons.injEq] at hsplit
      have hvalue : value = "" := String.toList_eq_nil_iff.1 hsplit.1.symm
      have hrest : rest = [] := List.map_eq_nil_iff.1 hsplit.2.symm
      exact h.ne (by rw [hvalue, hrest])
    have hhead : (valueChars (value :: rest)).head? ≠ some '@' := by
      rw [Ne, head?_valueChars_eq_at_iff]
      exact h.head value rest rfl
    rw [readAssigned_eq hne hhead, hsplit, List.map_map]
    simp

/-- The parts of a text between commas are separable values, and the text is theirs. -/
theorem separable_splitOn (hne : text ≠ []) (hhead : text.head? ≠ some '@') :
    Separable ((Text.splitOn ',' text).map String.ofList) ∧
      valueChars ((Text.splitOn ',' text).map String.ofList) = text := by
  have htoList : ((Text.splitOn ',' text).map String.ofList).map String.toList =
      Text.splitOn ',' text := by
    simp [Function.comp_def]
  have hchars : valueChars ((Text.splitOn ',' text).map String.ofList) = text := by
    rw [valueChars, htoList, Text.intercalate_splitOn]
  refine ⟨⟨fun hempty ↦ ?_, fun value rest hvalues hat ↦ ?_, fun value hvalue ↦ ?_⟩, hchars⟩
  · rw [hempty] at hchars
    exact hne hchars.symm
  · rw [hvalues] at hchars
    rw [← hchars, Ne, head?_valueChars_eq_at_iff] at hhead
    exact hhead hat
  · obtain ⟨part, hpart, rfl⟩ := List.mem_map.1 hvalue
    rw [String.toList_ofList]
    exact Text.not_mem_of_mem_splitOn hpart

/-! ### References -/

/-- A path that a reference can name. -/
structure ReferencePath (path : List Char) : Prop where
  text : PathText path
  single : ',' ∉ path

/-- A reference is read if its path is one without commas. -/
theorem readReference_eq_ok_iff {path : List Char} {value : Assigned} :
    readReference path = .ok value ↔
      ReferencePath path ∧ value = .reference (String.ofList path) := by
  have hvalid : DottedPath.isValid (String.ofList path) = true ↔ PathText path := by
    rw [DottedPath.isValid_iff, String.toList_ofList]
  rw [readReference]
  constructor
  · intro h
    split_ifs at h with _ hcomma hpath
    exact ⟨⟨hvalid.1 hpath, hcomma⟩, (Except.ok.inj h).symm⟩
  · rintro ⟨h, rfl⟩
    have hne : path ≠ [] := by
      rintro rfl
      exact pathText_iff.1 h.text [] List.mem_cons_self rfl
    rw [if_neg hne, if_neg h.single, if_pos (hvalid.2 h.text)]

/-! ### Right-hand sides -/

namespace Assigned

/-- The text of a right-hand side. -/
def chars : Assigned → List Char
  | .values vs => valueChars vs
  | .reference path => '@' :: path.toList

/-- A right-hand side that can be told from its text. -/
def Expressible : Assigned → Prop
  | .values vs => Separable vs
  | .reference path => ReferencePath path.toList

end Assigned

/-- **A right-hand side is read** exactly if it can be told from its text, and that was read. -/
theorem readAssigned_eq_ok_iff {value : Assigned} :
    readAssigned text = .ok value ↔ value.Expressible ∧ value.chars = text := by
  constructor
  · intro h
    by_cases hnil : text = []
    · subst hnil
      obtain rfl := Except.ok.inj h
      exact ⟨separable_nil, rfl⟩
    by_cases hat : text.head? = some '@'
    · obtain ⟨path, rfl⟩ := List.head?_eq_some_iff.1 hat
      obtain ⟨hpath, rfl⟩ := readReference_eq_ok_iff.1 h
      have htext : (String.ofList path).toList = path := String.toList_ofList ..
      refine ⟨?_, congrArg ('@' :: ·) htext⟩
      show ReferencePath (String.ofList path).toList
      rwa [htext]
    · rw [readAssigned_eq hnil hat] at h
      obtain rfl := Except.ok.inj h
      exact separable_splitOn hnil hat
  · rintro ⟨h, rfl⟩
    cases value with
    | values values => exact Separable.readAssigned_valueChars h
    | reference path =>
      refine readReference_eq_ok_iff.2 ⟨h, ?_⟩
      rw [String.ofList_toList]

/-- Only a bad reference cannot be read. -/
theorem exists_readAssigned_iff : (∃ value, readAssigned text = .ok value) ↔
    ∀ path, text = '@' :: path → ReferencePath path := by
  constructor
  · rintro ⟨value, h⟩ path rfl
    exact (readReference_eq_ok_iff.1 h).1
  · intro h
    by_cases hnil : text = []
    · exact ⟨.values [], hnil ▸ rfl⟩
    by_cases hat : text.head? = some '@'
    · obtain ⟨path, rfl⟩ := List.head?_eq_some_iff.1 hat
      exact ⟨_, readReference_eq_ok_iff.2 ⟨h path rfl, rfl⟩⟩
    · exact ⟨_, readAssigned_eq hnil hat⟩

/-! ### Statements -/

namespace Statement

/-- What stands before the first equals sign of a text and what stands behind it. -/
def cut (text : List Char) : List Char × List Char :=
  (Text.cutAt '=' text).getD (text, [])

/-- A statement without an equals sign is all head. -/
theorem cut_of_not_mem (h : '=' ∉ text) : cut text = (text, []) := by
  rw [cut, Text.cutAt_eq_none_iff.2 h]
  rfl

theorem cut_append {head : List Char} (h : '=' ∉ head) (assigned : List Char) :
    cut (head ++ '=' :: assigned) = (head, assigned) := by
  rw [cut, Text.cutAt_append h]
  rfl

/-- A text is a label alone, or a label, an equals sign and a right-hand side. -/
theorem cut_cases (text : List Char) : '=' ∉ (cut text).1 ∧
    (text = (cut text).1 ++ '=' :: (cut text).2 ∨ (cut text).2 = [] ∧ text = (cut text).1) := by
  cases hcut : Text.cutAt '=' text with
  | none =>
    have hnot := Text.cutAt_eq_none_iff.1 hcut
    rw [cut_of_not_mem hnot]
    exact ⟨hnot, .inr ⟨rfl, rfl⟩⟩
  | some parts =>
    obtain ⟨head, assigned⟩ := parts
    obtain ⟨rfl, hnot⟩ := Text.cutAt_eq_some_iff.1 hcut
    rw [cut_append hnot]
    exact ⟨hnot, .inl rfl⟩

/-- A statement under a default category, which counts unless it has one of its own. -/
def withDefault (category : Option String) (s : Statement) : Statement :=
  ⟨⟨s.key.name, s.key.category <|> category⟩, s.value⟩

theorem withDefault_none (s : Statement) : s.withDefault none = s := by
  obtain ⟨⟨name, own⟩, value⟩ := s
  cases own <;> rfl

/-- A default category that could be part of a label makes a label of one. -/
theorem labelled_withDefault {category : Option String} (h : s.key.Labelled)
    (hcategory : ∀ name, category = some name → LabelPart name.toList) :
    (s.withDefault category).key.Labelled := by
  obtain ⟨⟨name, own⟩, value⟩ := s
  cases own with
  | none => exact ⟨h.name, hcategory⟩
  | some own => exact h

/-- A statement is read from its head and from what is assigned, in this order. -/
theorem read_eq (text : List Char) (category : Option String) : read text category = do
    let key ← readLabel (cut text).1
    let value ← readAssigned (cut text).2
    return withDefault category ⟨key, value⟩ := by
  rw [read, cut]
  cases Text.cutAt '=' text <;> rfl

/-- A default category does not decide whether a statement is read. -/
theorem read_eq_map (text : List Char) (category : Option String) :
    read text category = (read text none).map (withDefault category) := by
  simp only [read_eq, withDefault_none]
  cases readLabel (cut text).1 with
  | error fault => rfl
  | ok key => cases readAssigned (cut text).2 <;> rfl

/-- The default category is filled in after the statement is read. -/
theorem read_default_eq_ok_iff {category : Option String} : read text category = .ok s ↔
    ∃ own, read text none = .ok own ∧ s = own.withDefault category := by
  rw [read_eq_map]
  cases read text none with
  | error fault => exact iff_of_false nofun nofun
  | ok own =>
    constructor
    · intro h
      exact ⟨own, rfl, (Except.ok.inj h).symm⟩
    · rintro ⟨_, ⟨⟩, rfl⟩
      rfl

/-- Without a default, the two parts are read apart from each other. -/
theorem read_none_eq_ok_iff : read text none = .ok s ↔
    readLabel (cut text).1 = .ok s.key ∧ readAssigned (cut text).2 = .ok s.value := by
  rw [read_eq]
  simp only [withDefault_none]
  constructor
  · intro h
    obtain ⟨key, hlabel, h⟩ := bind_eq_ok_iff.1 h
    obtain ⟨value, hvalue, h⟩ := bind_eq_ok_iff.1 h
    obtain rfl := Except.ok.inj h
    exact ⟨hlabel, hvalue⟩
  · rintro ⟨hlabel, hvalue⟩
    rw [hlabel, hvalue]
    rfl

/-- **A statement is read** exactly if it can be told from its text, and that was read. Without
values there may be an equals sign or not. -/
theorem read_eq_ok_iff : read text none = .ok s ↔ s.key.Labelled ∧ s.value.Expressible ∧
    (text = s.key.chars ++ '=' :: s.value.chars ∨ s.value = .values [] ∧ text = s.key.chars) := by
  obtain ⟨hnot, htext⟩ := cut_cases text
  rw [read_none_eq_ok_iff, readLabel_eq_ok_iff hnot, readAssigned_eq_ok_iff]
  constructor
  · rintro ⟨⟨hkey, hhead⟩, hvalue, hassigned⟩
    rw [hhead, hassigned]
    refine ⟨hkey, hvalue, htext.imp_right fun ⟨hnil, heq⟩ ↦ ⟨?_, heq⟩⟩
    -- nothing but no values has an empty text
    rw [hnil] at hassigned
    have hread := readAssigned_eq_ok_iff.2 ⟨hvalue, hassigned⟩
    exact (Except.ok.inj hread).symm
  · rintro ⟨hkey, hvalue, rfl | ⟨hnone, rfl⟩⟩
    · rw [cut_append (hkey.not_mem_chars (by decide) (by decide))]
      exact ⟨⟨hkey, rfl⟩, hvalue, rfl⟩
    · rw [cut_of_not_mem (hkey.not_mem_chars (by decide) (by decide)), hnone]
      exact ⟨⟨hkey, rfl⟩, separable_nil, rfl⟩

/-- A statement is refused for its label or for what is assigned. -/
theorem exists_read_iff : (∃ s, read text none = .ok s) ↔
    (∃ key, readLabel (cut text).1 = .ok key) ∧ ∃ value, readAssigned (cut text).2 = .ok value := by
  simp only [read_none_eq_ok_iff]
  constructor
  · rintro ⟨s, hlabel, hvalue⟩
    exact ⟨⟨_, hlabel⟩, _, hvalue⟩
  · rintro ⟨⟨key, hlabel⟩, value, hvalue⟩
    exact ⟨⟨key, value⟩, hlabel, hvalue⟩

theorem ne_equals_of_mem_cut (text : List Char) : ∀ c ∈ (cut text).1, decide (c ≠ '=') = true :=
  fun _ hc ↦ decide_eq_true fun heq ↦ (cut_cases text).1 (heq ▸ hc)

/-- The head is all that stands before the first equals sign. -/
theorem takeWhile_eq_cut (text : List Char) : text.takeWhile (· ≠ '=') = (cut text).1 := by
  have hhead := ne_equals_of_mem_cut text
  obtain ⟨-, htext⟩ := cut_cases text
  generalize cut text = parts at *
  rcases htext with rfl | ⟨-, rfl⟩
  · rw [List.takeWhile_append_of_pos hhead]
    simp
  · exact List.takeWhile_eq_self_iff.2 hhead

/-- What is assigned stands behind the first equals sign. -/
theorem dropWhile_eq_iff {assigned : List Char} (hne : assigned ≠ []) :
    text.dropWhile (· ≠ '=') = '=' :: assigned ↔ (cut text).2 = assigned := by
  have hhead := ne_equals_of_mem_cut text
  obtain ⟨-, htext⟩ := cut_cases text
  generalize cut text = parts at *
  rcases htext with rfl | ⟨hnil, rfl⟩
  · rw [List.dropWhile_append_of_pos hhead]
    simp
  · rw [List.dropWhile_eq_nil_iff.2 hhead, hnil]
    exact iff_of_false nofun hne.symm

/-- The text of a statement leaves out the equals sign when there are no values. -/
theorem chars_eq (s : Statement) : s.chars =
    if s.value = .values [] then s.key.chars else s.key.chars ++ '=' :: s.value.chars := by
  obtain ⟨key, value⟩ := s
  cases value with
  | values values => cases values <;> rfl
  | reference path => rfl

end Statement

/-- The text of a property is that of a statement with its values. -/
theorem Property.toList_text (p : Property) :
    p.text.toList = p.key.chars ++ '=' :: valueChars p.values := by
  rw [text, String.toList_append, String.toList_append, String.toList_intercalate, Key.text,
    String.toList_ofList, List.append_assoc]
  rfl

/-- **The language of statements.** A text is read as a statement exactly if it starts with a
label, up to its first equals sign, and what stands behind that does not start like a reference
or names a path. Writing what was read gives the text again, but for an equals sign with nothing
behind it. And the text of a property under such a key is read as its key and its values, if
these are separable. -/
theorem statement_language (text : List Char) :
    ((∃ s, Statement.read text none = .ok s) ↔
      (∃ key : Key, key.Labelled ∧ key.chars = text.takeWhile (· ≠ '=')) ∧
      ∀ path, text.dropWhile (· ≠ '=') = '=' :: '@' :: path → ReferencePath path) ∧
    (∀ s, Statement.read text none = .ok s → s.key.Labelled ∧ s.value.Expressible ∧
      (text = s.chars ∨ s.value = .values [] ∧ text = s.chars ++ ['='])) ∧
    ∀ p : Property, p.key.Labelled → Separable p.values →
      Statement.read p.text.toList none = .ok ⟨p.key, .values p.values⟩ := by
  refine ⟨?_, fun s hread ↦ ?_, fun p hkey hvalues ↦ ?_⟩
  · rw [Statement.exists_read_iff, Statement.takeWhile_eq_cut, exists_readAssigned_iff]
    simp only [readLabel_eq_ok_iff (Statement.cut_cases text).1,
      Statement.dropWhile_eq_iff (List.cons_ne_nil _ _)]
  · obtain ⟨hkey, hvalue, htext⟩ := Statement.read_eq_ok_iff.1 hread
    refine ⟨hkey, hvalue, ?_⟩
    rw [Statement.chars_eq]
    split
    · next hnone =>
      rw [hnone] at htext
      exact htext.symm.imp And.right fun heq ↦ ⟨hnone, heq⟩
    · next hsome => exact .inl (htext.resolve_right fun h ↦ hsome h.1)
  · exact Statement.read_eq_ok_iff.2 ⟨hkey, hvalues, .inl p.toList_text⟩

/-- A property with an empty value and with marks in another one. -/
def markedBow : Property := Property.of ⟨"bow", some "item"⟩ ["long", "", "a=b:c"]

/-- A bow without values, and one with a category and values that are empty or have marks in
them. -/
theorem statement_language_of_bow :
    (Statement.read "bow=".toList none = .ok ⟨Key.named "bow", .values []⟩ ∧
      "bow=".toList = Statement.chars ⟨Key.named "bow", .values []⟩ ++ ['=']) ∧
    markedBow.key.Labelled ∧ Separable markedBow.values ∧
      Statement.read markedBow.text.toList none = .ok ⟨markedBow.key, .values markedBow.values⟩ := by
  have hread : Statement.read "bow=".toList none = .ok ⟨Key.named "bow", .values []⟩ := by
    decide +kernel
  have hkey : markedBow.key.Labelled := by decide +kernel
  have hvalues : Separable markedBow.values := by decide +kernel
  obtain ⟨-, -, hwritten⟩ := (statement_language "bow=".toList).2.1 _ hread
  exact ⟨⟨hread, (hwritten.resolve_left (by decide +kernel)).2⟩, hkey, hvalues,
    (statement_language []).2.2 markedBow hkey hvalues⟩

end ModContent
