import Mathlib.Data.List.Basic
import ModContent.Grammar.Statement
import ModContent.Proofs.Text.Join

/-!
# Labels

A label is `name` or `category:name`. Neither part is empty, and neither holds a mark, that is a
character with a meaning of its own (`LabelPart`). A text without an equals sign is read as a label
exactly if it is one, and what is read is the key that it is the text of (`readLabel_eq_ok_iff`).
-/

namespace ModContent

/-! ### Texts of keys -/

/-- A key without a colon in its name and in its category. -/
structure Key.ColonFree (key : Key) : Prop where
  name : ':' ∉ key.name.toList
  category : ∀ category, key.category = some category → ':' ∉ category.toList

namespace Key.ColonFree

variable {key other : Key}

/-- The first colon divides the text of a key. -/
theorem cutAt_chars (h : key.ColonFree) : Text.cutAt ':' key.chars =
    key.category.map fun category ↦ (category.toList, key.name.toList) := by
  rw [Key.chars]
  cases hcategory : key.category with
  | none => exact Text.cutAt_eq_none_iff.2 h.name
  | some category => exact Text.cutAt_append (h.category category hcategory) _

/-- A key is unpacked from its text. -/
theorem ofChars_chars (h : key.ColonFree) : Key.ofChars key.chars = key := by
  rw [Key.ofChars, h.cutAt_chars]
  obtain ⟨name, category⟩ := key
  cases category with
  | none => simp [Key.chars, Key.named]
  | some category => simp

/-- A key whose parts have no colon is read back from its text. -/
theorem parse_text (h : key.ColonFree) : Key.parse key.text = key := by
  rw [Key.parse, Key.text, String.toList_ofList, h.ofChars_chars]

theorem text_inj (h : key.ColonFree) (hother : other.ColonFree) :
    key.text = other.text ↔ key = other := by
  refine ⟨fun htext ↦ ?_, congrArg Key.text⟩
  rw [← h.parse_text, htext, hother.parse_text]

end Key.ColonFree

/-! ### Parts of labels -/

/-- The characters that stand in no name and in no category. -/
def marks : List Char := ['=', ':', '(', ')', ',', '@', '.']

/-- A text that can stand as a name or as a category. -/
structure LabelPart (text : List Char) : Prop where
  ne : text ≠ []
  free : ∀ c ∈ text, c ∉ marks

instance : DecidablePred LabelPart := fun text ↦
  decidable_of_iff (text ≠ [] ∧ (text.all fun c ↦ c ∉ marks) = true) <| by
    simp only [List.all_eq_true, decide_eq_true_iff]
    exact ⟨fun ⟨ne, free⟩ ↦ ⟨ne, free⟩, fun h ↦ ⟨h.ne, h.free⟩⟩

/-- The marks are the characters that no part of a label has. -/
theorem mem_marks_iff {c : Char} : c ∈ marks ↔ c = '=' ∨ c = ':' ∨ isForbidden c = true := by
  simp only [marks, isForbidden, List.mem_cons, List.not_mem_nil, or_false, Bool.or_eq_true,
    beq_iff_eq]
  tauto

/-- A key with parts of which a label can be made. -/
structure Key.Labelled (key : Key) : Prop where
  name : LabelPart key.name.toList
  category : ∀ category, key.category = some category → LabelPart category.toList

instance : DecidablePred Key.Labelled := fun key ↦
  decidable_of_iff (LabelPart key.name.toList ∧
      ∀ category ∈ key.category, LabelPart category.toList)
    ⟨fun ⟨name, category⟩ ↦ ⟨name, category⟩, fun h ↦ ⟨h.name, h.category⟩⟩

namespace Key.Labelled

variable {key : Key}

/-- The text of a key holds no marks but a colon. -/
theorem eq_colon_of_mem (h : key.Labelled) {c : Char} (hc : c ∈ key.chars) (hmark : c ∈ marks) :
    c = ':' := by
  rw [Key.chars] at hc
  cases hcategory : key.category with
  | none =>
    rw [hcategory] at hc
    exact absurd hmark (h.name.free c hc)
  | some category =>
    rw [hcategory, List.mem_append, List.mem_cons] at hc
    rcases hc with hc | rfl | hc
    · exact absurd hmark ((h.category category hcategory).free c hc)
    · rfl
    · exact absurd hmark (h.name.free c hc)

/-- The text of a label has no mark but its colon. -/
theorem not_mem_chars (h : key.Labelled) {c : Char} (hmark : c ∈ marks) (hne : c ≠ ':') :
    c ∉ key.chars :=
  fun hc ↦ hne (h.eq_colon_of_mem hc hmark)

theorem chars_ne_nil (h : key.Labelled) : key.chars ≠ [] := by
  rw [Key.chars]
  split
  · exact List.append_ne_nil_of_right_ne_nil _ (List.cons_ne_nil _ _)
  · exact h.name.ne

/-- No character of a label is forbidden in names. -/
theorem isForbidden_eq_false (h : key.Labelled) {c : Char} (hc : c ∈ key.chars) :
    isForbidden c = false := by
  by_contra hforbidden
  rw [Bool.not_eq_false] at hforbidden
  obtain rfl := h.eq_colon_of_mem hc (mem_marks_iff.2 (.inr (.inr hforbidden)))
  exact absurd hforbidden (by decide)

/-- A colon in the text of a key divides it. -/
theorem colonFree (h : key.Labelled) : key.ColonFree where
  name hmem := h.name.free ':' hmem (by decide)
  category category hcategory hmem := (h.category category hcategory).free ':' hmem (by decide)

/-! ### Reading the text of a key -/

/-- A key is read from its text. -/
theorem readLabel_chars (h : key.Labelled) : readLabel key.chars = .ok key := by
  have hfind : key.chars.find? isForbidden = none :=
    List.find?_eq_none.2 fun c hc ↦ by simp [h.isForbidden_eq_false hc]
  rw [readLabel, h.colonFree.cutAt_chars, hfind]
  have hname := h.name.ne
  have hcolon := h.colonFree.name
  obtain ⟨name, category⟩ := key
  cases category with
  | none => simp_all [Key.chars]
  | some category =>
    have hempty := (h.category category rfl).ne
    simp_all

end Key.Labelled

/-! ### What can be read -/

/-- A part of a text is a part of a label, if there is no colon in it and no other mark in the
text. -/
theorem labelPart_of_find?_eq_none {text part : List Char} (hequals : '=' ∉ text)
    (hfind : text.find? isForbidden = none) (hne : part ≠ []) (hcolon : ':' ∉ part)
    (hsub : ∀ c ∈ part, c ∈ text) : LabelPart part := by
  refine ⟨hne, fun c hc hmark ↦ ?_⟩
  rcases mem_marks_iff.1 hmark with rfl | rfl | hforbidden
  · exact hequals (hsub _ hc)
  · exact hcolon hc
  · exact List.find?_eq_none.1 hfind c (hsub c hc) hforbidden

/-- What is read as a label is the key whose text was read. -/
theorem labelled_of_readLabel {text : List Char} {key : Key} (h : readLabel text = .ok key)
    (hequals : '=' ∉ text) : key.Labelled ∧ key.chars = text := by
  rw [readLabel] at h
  cases hcut : Text.cutAt ':' text with
  | none =>
    have hcolon := Text.cutAt_eq_none_iff.1 hcut
    simp only [hcut, if_neg hcolon] at h
    split_ifs at h with hnil
    split at h
    · cases h
    · next hfind =>
      obtain rfl := Except.ok.inj h
      have hname := labelPart_of_find?_eq_none hequals hfind hnil hcolon fun _ hc ↦ hc
      exact ⟨⟨by rwa [String.toList_ofList], nofun⟩, String.toList_ofList ..⟩
  | some parts =>
    obtain ⟨category, name⟩ := parts
    obtain ⟨rfl, hcategory⟩ := Text.cutAt_eq_some_iff.1 hcut
    simp only [hcut] at h
    split_ifs at h with hcolon hnil hempty
    split at h
    · cases h
    · next hfind =>
      obtain rfl := Except.ok.inj h
      have hfirst := labelPart_of_find?_eq_none hequals hfind (fun heq ↦ hempty (heq ▸ rfl))
        hcategory fun _ hc ↦ List.mem_append_left _ hc
      have hlast := labelPart_of_find?_eq_none hequals hfind hnil hcolon
        fun _ hc ↦ List.mem_append_right _ (List.mem_cons_of_mem _ hc)
      refine ⟨⟨by rwa [String.toList_ofList], ?_⟩, by simp [Key.chars]⟩
      rintro _ ⟨⟩
      rwa [String.toList_ofList]

/-- **A label is read** exactly if it is the text of a key with the parts of one. -/
theorem readLabel_eq_ok_iff {text : List Char} {key : Key} (hequals : '=' ∉ text) :
    readLabel text = .ok key ↔ key.Labelled ∧ key.chars = text := by
  refine ⟨fun h ↦ labelled_of_readLabel h hequals, ?_⟩
  rintro ⟨hkey, rfl⟩
  exact hkey.readLabel_chars

end ModContent
