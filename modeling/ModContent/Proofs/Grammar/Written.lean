import ModContent.Proofs.Grammar.Header
import ModContent.Text.Blank

/-!
# What can be written

A file is read without blanks and comments, and delimiters end the texts in it. So labels and
statements are read from plain texts (`IsPlain`), and not every key and every list of values can
stand in such a text. A key is **grammatical** when it can be labelled and its text is plain
(`Key.grammatical_iff`), and a list of values is **writable** when it is separable and its text is
plain (`writable_iff`).

These are exactly what reading gives (`Statement.written_of_read`, `Header.written_of_read`), and
what is so can be written and read again (`Statement.read_written`, `Header.read_chars`).
-/

namespace ModContent

/-! ### Characters -/

/-- The characters of statements and headers. -/
def IsPlain (c : Char) : Prop :=
  Text.isBlank c = false ∧ c ≠ '#' ∧ c ≠ '{' ∧ c ≠ '}' ∧ c ≠ ';'

/-- The characters of names and categories. -/
def IsLabelChar (c : Char) : Prop :=
  IsPlain c ∧ c ≠ '=' ∧ c ≠ ':' ∧ isForbidden c = false

/-- The characters of values. -/
def IsValueChar (c : Char) : Prop := IsPlain c ∧ c ≠ ','

instance : DecidablePred IsPlain := fun _ ↦ inferInstanceAs (Decidable (_ ∧ _))

/-! ### Keys -/

/-- A key that can be written as a label. -/
structure Key.Grammatical (key : Key) : Prop where
  name_ne : key.name.toList ≠ []
  name : ∀ c ∈ key.name.toList, IsLabelChar c
  category_ne : ∀ category, key.category = some category → category.toList ≠ []
  category : ∀ category, key.category = some category → ∀ c ∈ category.toList, IsLabelChar c

/-- A label may have the characters that normalizing keeps and that are no marks. -/
theorem isLabelChar_iff {c : Char} : IsLabelChar c ↔ IsPlain c ∧ c ∉ marks := by
  rw [IsLabelChar, mem_marks_iff, not_or, not_or, Bool.not_eq_true]

/-- A key is grammatical if it can be labelled, and its text is plain. -/
theorem Key.grammatical_iff {key : Key} :
    key.Grammatical ↔ key.Labelled ∧ ∀ c ∈ key.chars, IsPlain c := by
  have hcolon : IsPlain ':' := by decide
  obtain ⟨name, category⟩ := key
  constructor
  · intro h
    refine ⟨⟨⟨h.name_ne, fun c hc ↦ (isLabelChar_iff.1 (h.name c hc)).2⟩, fun own hown ↦
      ⟨h.category_ne own hown, fun c hc ↦ (isLabelChar_iff.1 (h.category own hown c hc)).2⟩⟩,
      fun c hc ↦ ?_⟩
    cases category with
    | none => exact (h.name c hc).1
    | some own =>
      rcases List.mem_append.1 hc with hc | hc
      · exact (h.category own rfl c hc).1
      · rcases List.mem_cons.1 hc with rfl | hc
        · exact hcolon
        · exact (h.name c hc).1
  · rintro ⟨h, hplain⟩
    refine ⟨h.name.ne, fun c hc ↦ isLabelChar_iff.2 ⟨hplain c ?_, h.name.free c hc⟩,
      fun own hown ↦ (h.category own hown).ne,
      fun own hown c hc ↦ isLabelChar_iff.2 ⟨hplain c ?_, (h.category own hown).free c hc⟩⟩
    · cases category with
      | none => exact hc
      | some own => exact List.mem_append_right _ (List.mem_cons_of_mem _ hc)
    · obtain rfl : category = some own := hown
      exact List.mem_append_left _ hc

namespace Key.Grammatical

variable {key : Key}

theorem labelled (h : key.Grammatical) : key.Labelled := (grammatical_iff.1 h).1

theorem isPlain (h : key.Grammatical) : ∀ c ∈ key.chars, IsPlain c := (grammatical_iff.1 h).2

end Key.Grammatical

/-! ### Values -/

/-- A list of values that is read as itself after an equals sign. -/
structure Writable (values : List String) : Prop where
  ne : values ≠ [""]
  head : ∀ value rest, values = value :: rest → value.toList.head? ≠ some '@'
  chars : ∀ value ∈ values, ∀ c ∈ value.toList, IsValueChar c

theorem writable_nil : Writable [] := ⟨nofun, nofun, nofun⟩

/-- Values are writable if they are separable, and their text is plain. -/
theorem writable_iff {values : List String} :
    Writable values ↔ Separable values ∧ ∀ c ∈ valueChars values, IsPlain c := by
  constructor
  · intro h
    refine ⟨⟨h.ne, h.head, fun value hvalue hmem ↦ (h.chars value hvalue ',' hmem).2 rfl⟩,
      fun c hc ↦ ?_⟩
    rcases Text.eq_or_mem_of_mem_intercalate hc with rfl | ⟨part, hpart, hc⟩
    · decide
    · obtain ⟨value, hvalue, rfl⟩ := List.mem_map.1 hpart
      exact (h.chars value hvalue c hc).1
  · rintro ⟨h, hplain⟩
    refine ⟨h.ne, h.head, fun value hvalue c hc ↦ ⟨hplain c ?_, ?_⟩⟩
    · exact Text.mem_intercalate (List.mem_map_of_mem hvalue) hc
    · rintro rfl
      exact h.apart value hvalue hc

/-- The text of values that can be written is not touched by normalizing. -/
theorem Writable.isPlain {values : List String} (h : Writable values) :
    ∀ c ∈ valueChars values, IsPlain c := (writable_iff.1 h).2

/-! ### Statements -/

/-- A statement as it can be read: its key is grammatical and its values are writable. -/
structure Statement.Written (s : Statement) : Prop where
  key : s.key.Grammatical
  values : ∀ values, s.value = .values values → Writable values

/-- A statement of values is read from its text. -/
theorem Statement.read_written {key : Key} {values : List String} (hkey : key.Grammatical)
    (hvalues : Writable values) :
    Statement.read (key.chars ++ '=' :: valueChars values) none = .ok ⟨key, .values values⟩ :=
  Statement.read_eq_ok_iff.2 ⟨hkey.labelled, (writable_iff.1 hvalues).1, .inl rfl⟩

/-- What is read is written, if the default category can be. -/
theorem Statement.written_of_read {text : List Char} {category : Option String} {s : Statement}
    (h : Statement.read text category = .ok s) (htext : ∀ c ∈ text, IsPlain c)
    (hcategory : ∀ name, category = some name →
      name.toList ≠ [] ∧ ∀ c ∈ name.toList, IsLabelChar c) : s.Written := by
  obtain ⟨⟨key, value⟩, hread, rfl⟩ := Statement.read_default_eq_ok_iff.1 h
  obtain ⟨hlabelled, hvalue, hcases⟩ := Statement.read_eq_ok_iff.1 hread
  have hkey : key.Grammatical := by
    refine Key.grammatical_iff.2 ⟨hlabelled, fun c hc ↦ htext c ?_⟩
    rcases hcases with rfl | ⟨-, rfl⟩
    · exact List.mem_append_left _ hc
    · exact hc
  refine ⟨?_, ?_⟩
  · obtain ⟨name, own⟩ := key
    cases own with
    | none =>
      exact ⟨hkey.name_ne, hkey.name, fun name hname ↦ (hcategory name hname).1,
        fun name hname ↦ (hcategory name hname).2⟩
    | some own => exact hkey
  · rintro values rfl
    rcases hcases with rfl | ⟨hnone, -⟩
    · refine writable_iff.2 ⟨hvalue, fun c hc ↦ htext c ?_⟩
      exact List.mem_append_right _ (List.mem_cons_of_mem _ hc)
    · obtain rfl := Assigned.values.inj hnone
      exact writable_nil

/-! ### Headers -/

/-- A grammatical key is a header without parameters. -/
theorem Header.read_chars {key : Key} (h : key.Grammatical) :
    Header.read key.chars = .ok ⟨key, []⟩ :=
  Header.read_eq_ok_iff.2
    ⟨h.labelled, [], .inl ⟨rfl, rfl⟩, List.forall_mem_nil _, List.Forall₂.nil⟩

/-- The category of a parameter that gives none can be written. -/
theorem Header.isLabelChar_of_mem_parameterCategory :
    ∀ c ∈ Header.parameterCategory.toList, IsLabelChar c := by
  simp [Header.parameterCategory, IsLabelChar, IsPlain, Text.isBlank, isForbidden]

/-- What is read as a header has a grammatical key and written parameters. -/
theorem Header.written_of_read {text : List Char} {header : Header}
    (h : Header.read text = .ok header) (htext : ∀ c ∈ text, IsPlain c) :
    header.key.Grammatical ∧ ∀ p ∈ header.parameters, p.Written := by
  obtain ⟨hlabelled, parts, hcases, -, hread⟩ := Header.read_eq_ok_iff.1 h
  -- the label and the parts of the list stand in the text
  have hkey : ∀ c ∈ header.key.chars, c ∈ text := by
    intro c hc
    rcases hcases with ⟨-, rfl⟩ | rfl
    · exact hc
    · exact List.mem_append_left _ hc
  have hpart : ∀ part ∈ parts, ∀ c ∈ part, c ∈ text := by
    intro part hpart c hc
    rcases hcases with ⟨rfl, -⟩ | rfl
    · exact absurd hpart List.not_mem_nil
    · exact List.mem_append_right _ (List.mem_cons_of_mem _
        (List.mem_append_left _ (Text.mem_intercalate hpart hc)))
  refine ⟨Key.grammatical_iff.2 ⟨hlabelled, fun c hc ↦ htext c (hkey c hc)⟩, fun p hp ↦ ?_⟩
  obtain ⟨part, hmem, hp⟩ := exists_of_mem_mapM (mapM_eq_ok_iff.2 hread) hp
  refine Statement.written_of_read hp (fun c hc ↦ htext c (hpart part hmem c hc)) ?_
  rintro name ⟨⟩
  exact ⟨by decide, isLabelChar_of_mem_parameterCategory⟩

end ModContent
