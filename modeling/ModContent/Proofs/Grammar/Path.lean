import ModContent.Proofs.Grammar.Label

/-!
# Texts of paths

The text of a path is made of segments with dots between them, none of which is empty (`PathText`).
These are the texts that are valid paths and the texts that are read as paths
(`DottedPath.isValid_iff`, `DottedPath.parse_eq_none_iff`). The text of keys that can stand in a
label is read as these keys (`DottedPath.parse_text`).
-/

namespace ModContent

/-- Segments with dots between them, none of them empty. -/
def PathText (text : List Char) : Prop :=
  ∃ segments, segments ≠ [] ∧ (∀ segment ∈ segments, segment ≠ [] ∧ '.' ∉ segment) ∧
    text = List.intercalate ['.'] segments

/-- A path is well formed if no segment between its dots is empty. -/
theorem pathText_iff {text : List Char} :
    PathText text ↔ ∀ segment ∈ Text.splitOn '.' text, segment ≠ [] := by
  constructor
  · rintro ⟨segments, hne, hsegments, rfl⟩ segment hsegment
    rw [Text.splitOn_intercalate hne fun s hs ↦ (hsegments s hs).2] at hsegment
    exact (hsegments segment hsegment).1
  · intro h
    exact ⟨_, Text.splitOn_ne_nil '.' text,
      fun segment hsegment ↦ ⟨h segment hsegment, Text.not_mem_of_mem_splitOn hsegment⟩,
      (Text.intercalate_splitOn '.' text).symm⟩

instance : DecidablePred PathText := fun _ ↦ decidable_of_iff _ pathText_iff.symm

namespace DottedPath

variable {path : String} {p : DottedPath}

/-- The text of a path. -/
def text (p : DottedPath) : String := String.intercalate "." (p.keys.map Key.text)

/-- The check of a path looks for nothing else. -/
theorem isValid_iff : isValid path = true ↔ PathText path.toList := by
  rw [isValid, pathText_iff, Bool.and_eq_true, List.all_eq_true]
  simp only [Bool.not_eq_true', List.isEmpty_eq_false_iff]
  refine and_iff_right_of_imp fun h ↦ ?_
  -- an empty text has an empty segment
  rw [String.isEmpty_eq_false_iff]
  rintro rfl
  exact h [] List.mem_cons_self rfl

/-- A well-formed path is read as the keys of its segments, in order. -/
theorem parse_eq_some_iff : parse path = some p ↔
    PathText path.toList ∧ p.keys = (Text.splitOn '.' path.toList).map Key.ofChars := by
  rw [parse, pathText_iff]
  split
  · next hempty =>
    obtain ⟨segment, hsegment, hnil⟩ := List.any_eq_true.1 hempty
    refine ⟨nofun, fun h ↦ absurd (List.isEmpty_iff.1 hnil) (h.1 segment hsegment)⟩
  · next hempty =>
    have hvalid : ∀ segment ∈ Text.splitOn '.' path.toList, segment ≠ [] :=
      fun segment hsegment hnil ↦
        hempty (List.any_eq_true.2 ⟨segment, hsegment, List.isEmpty_iff.2 hnil⟩)
    rw [and_iff_right hvalid, Option.map_eq_some_iff]
    constructor
    · rintro ⟨last, hlast, rfl⟩
      exact List.dropLast_append_getLast? last hlast
    · intro hkeys
      rw [← hkeys, keys]
      exact ⟨p.last, List.getLast?_concat, by rw [List.dropLast_concat]⟩

/-- A path is refused only for an empty segment. -/
theorem parse_eq_none_iff : parse path = none ↔ ¬ PathText path.toList := by
  rw [Option.eq_none_iff_forall_ne_some]
  constructor
  · intro hnone hpath
    have hne : (Text.splitOn '.' path.toList).map Key.ofChars ≠ [] :=
      fun hnil ↦ Text.splitOn_ne_nil _ _ (List.map_eq_nil_iff.1 hnil)
    obtain ⟨nodes, last, hkeys⟩ := (List.eq_nil_or_concat' _).resolve_left hne
    exact hnone ⟨nodes, last⟩ (parse_eq_some_iff.2 ⟨hpath, hkeys.symm⟩)
  · intro hpath p hparse
    exact hpath (parse_eq_some_iff.1 hparse).1

/-- The check and the reader agree on paths. -/
theorem exists_parse_iff : (∃ p, parse path = some p) ↔ PathText path.toList := by
  rw [← not_iff_not, ← parse_eq_none_iff, Option.eq_none_iff_forall_ne_some, not_exists]

/-- A path is read from its text. -/
theorem parse_text (h : ∀ key ∈ p.keys, key.Labelled) : parse p.text = some p := by
  have hne : p.keys.map Key.chars ≠ [] := by simp [keys]
  have hsegments : ∀ segment ∈ p.keys.map Key.chars, segment ≠ [] ∧ '.' ∉ segment := by
    intro segment hsegment
    obtain ⟨key, hkey, rfl⟩ := List.mem_map.1 hsegment
    exact ⟨(h key hkey).chars_ne_nil, (h key hkey).not_mem_chars (by decide) (by decide)⟩
  have htext : p.text.toList = List.intercalate ['.'] (p.keys.map Key.chars) := by
    rw [text, String.toList_intercalate, List.map_map]
    congr 1
    exact List.map_congr_left fun key _ ↦ String.toList_ofList ..
  refine parse_eq_some_iff.2 ⟨⟨_, hne, hsegments, htext⟩, ?_⟩
  rw [htext, Text.splitOn_intercalate hne fun segment hsegment ↦ (hsegments segment hsegment).2,
    List.map_map]
  have hself := List.map_congr_left fun key hkey ↦ (h key hkey).colonFree.ofChars_chars
  exact (hself.trans (List.map_id _)).symm

end DottedPath

end ModContent
