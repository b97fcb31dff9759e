import Mathlib.Data.Char
import Mathlib.Data.List.Lex
import ModContent.Text.Cut

/-!
# The bytes of a text

The bytes of a text in UTF-8 are those of its characters, one after the other
(`bytes_eq_flatMap`). Texts are ordered by their characters, and their bytes are in the same order
(`bytes_lt_bytes_iff`), since the bytes of a smaller character come before those of a larger one,
whatever follows (`utf8EncodeChar_append_lt`).
-/

namespace ModContent.Text

/-- The bytes of a text in UTF-8. -/
def bytes (text : List Char) : List UInt8 := (String.ofList text).toUTF8.data.toList

/-- The bytes of a text are those of its characters, one after the other. -/
theorem bytes_eq_flatMap (text : List Char) :
    bytes text = text.flatMap String.utf8EncodeChar := by
  show (text.flatMap String.utf8EncodeChar).toByteArray.data.toList = _
  rw [List.data_toByteArray]

@[simp] theorem bytes_append (s t : List Char) :
    bytes (s ++ t) = bytes s ++ bytes t := by
  simp only [bytes_eq_flatMap, List.flatMap_append]

@[simp] theorem length_bytes (text : List Char) :
    (bytes text).length = byteLength text := by
  induction text with
  | nil => rfl
  | cons c text ih =>
    rw [bytes_eq_flatMap] at ih
    rw [bytes_eq_flatMap, List.flatMap_cons, List.length_append, String.length_utf8EncodeChar, ih,
      byteLength_cons]

/-! ### Order -/

/-- The bytes of a smaller character come before those of a larger one, whatever follows. -/
theorem utf8EncodeChar_append_lt {c d : Char} (h : c < d) (s t : List UInt8) :
    String.utf8EncodeChar c ++ s < String.utf8EncodeChar d ++ t := by
  have hlt : c.val.toNat < d.val.toNat := h
  have hmax : d.val.toNat < 0x110000 := by
    have hvalid : d.val.toNat < 0xd800 ∨ 0xdfff < d.val.toNat ∧ d.val.toNat < 0x110000 := d.valid
    omega
  simp only [String.utf8EncodeChar]
  generalize c.val.toNat = v at hlt ⊢
  generalize d.val.toNat = w at hlt hmax ⊢
  -- of two long encodings the first byte decides, or the six bits of the others do
  have hlead : v / 262144 < w / 262144 ∨ v / 262144 = w / 262144 := by omega
  split_ifs <;> simp only [List.cons_append, List.nil_append, List.cons_lt_cons_iff,
    UInt8.lt_iff_toNat_lt, ← UInt8.toNat_inj, UInt8.toNat_ofNat'] <;>
    rcases hlead with hlead | hlead <;> omega

theorem flatMap_utf8EncodeChar_lt {s t : List Char} (h : s < t) :
    s.flatMap String.utf8EncodeChar < t.flatMap String.utf8EncodeChar := by
  induction s generalizing t with
  | nil =>
    cases t with
    | nil => exact absurd h (List.not_lt_nil _)
    | cons d t =>
      obtain ⟨byte, more, hbytes⟩ := List.exists_cons_of_ne_nil (@String.utf8EncodeChar_ne_nil d)
      rw [List.flatMap_cons, hbytes]
      exact List.nil_lt_cons byte _
  | cons c s ih =>
    cases t with
    | nil => exact absurd h (List.not_lt_nil _)
    | cons d t =>
      rw [List.flatMap_cons, List.flatMap_cons]
      rcases List.cons_lt_cons_iff.1 h with hlt | ⟨rfl, hlt⟩
      · exact utf8EncodeChar_append_lt hlt _ _
      · exact List.append_left_lt (ih hlt)

/-- **The order of texts is that of their bytes.** -/
theorem bytes_lt_bytes_iff {s t : List Char} : bytes s < bytes t ↔ s < t := by
  have hmono : ∀ {s t : List Char}, s < t → bytes s < bytes t := fun h ↦ by
    rw [bytes_eq_flatMap, bytes_eq_flatMap]
    exact flatMap_utf8EncodeChar_lt h
  refine ⟨fun h ↦ ?_, hmono⟩
  rcases lt_trichotomy s t with hlt | rfl | hgt
  · exact hlt
  · exact absurd h (List.lt_irrefl _)
  · exact absurd h (List.lt_asymm (hmono hgt))

end ModContent.Text
