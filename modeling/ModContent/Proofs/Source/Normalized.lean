import Mathlib.Data.List.TakeWhile
import ModContent.Proofs.Grammar.Written
import ModContent.Source.Normalized

/-!
# Normalized texts

A normalized text holds neither blanks nor number signs, whatever the lines were
(`mem_normalize_text`). So what stands between two of its delimiters is plain. The other way round,
a line that ends in a delimiter and holds no comment adds exactly its characters that are no blanks
(`normalize_line`).
-/

namespace ModContent

open NormalizedSource

variable {c : Char} {line : List Char}

/-- The characters of a text that are no blanks. -/
def unblank (text : List Char) : List Char := text.filter fun c ↦ !Text.isBlank c

@[simp] theorem unblank_append (xs ys : List Char) :
    unblank (xs ++ ys) = unblank xs ++ unblank ys :=
  List.filter_append ..

theorem unblank_eq_self {text : List Char} (h : ∀ c ∈ text, Text.isBlank c = false) :
    unblank text = text :=
  List.filter_eq_self.2 fun c hc ↦ by rw [h c hc]; rfl

/-! ### What a line adds -/

/-- What is kept of a line has no blanks and no comment. -/
theorem mem_kept (h : c ∈ kept line) : Text.isBlank c = false ∧ c ≠ '#' := by
  obtain ⟨hmem, hblank⟩ := List.mem_filter.1 h
  have hsign := List.mem_takeWhile_imp hmem
  exact ⟨by simpa using hblank, by simpa using hsign⟩

theorem mem_contribution (h : c ∈ contribution line) : Text.isBlank c = false ∧ c ≠ '#' := by
  rw [contribution] at h
  split at h
  · exact absurd h List.not_mem_nil
  · split at h
    · exact mem_kept h
    · rcases List.mem_append.1 h with h | h
      · exact mem_kept h
      · obtain rfl := List.mem_singleton.1 h
        decide

/-- A normalized text holds no blanks and no number signs. -/
theorem mem_normalize_text {lines : List (List Char)} (h : c ∈ (normalize lines).text) :
    Text.isBlank c = false ∧ c ≠ '#' := by
  obtain ⟨line, -, hc⟩ := List.mem_flatMap.1 h
  exact mem_contribution hc

/-- A line ends the statement that it adds to, unless it ends in an equals sign. -/
theorem endsStatement_of_mem_getLast? (h : c ∈ (contribution line).getLast?) :
    endsStatement c = true := by
  rw [contribution] at h
  split at h
  · exact absurd h (Option.not_mem_none c)
  · next last hlast =>
    split at h
    · next hends =>
      rw [hlast] at h
      obtain rfl := Option.mem_some_iff.1 h
      exact hends
    · rw [List.getLast?_concat] at h
      obtain rfl := Option.mem_some_iff.1 h
      rfl

/-- So does the last of several lines that adds anything. -/
theorem endsStatement_of_mem_getLast?_normalize {lines : List (List Char)}
    (h : c ∈ (normalize lines).text.getLast?) : endsStatement c = true := by
  induction lines with
  | nil => exact absurd h (Option.not_mem_none c)
  | cons line rest ih =>
    rw [normalize_text_cons, List.getLast?_append] at h
    cases hrest : (normalize rest).text.getLast? with
    | none =>
      rw [hrest] at h
      exact endsStatement_of_mem_getLast? h
    | some last =>
      rw [hrest] at h ih
      exact ih h

/-! ### Lines with their delimiter -/

/-- A line without a comment that ends in a delimiter adds what is no blank. -/
theorem contribution_eq (hsign : '#' ∉ line) {last : Char}
    (hlast : (unblank line).getLast? = some last) (hends : endsStatement last = true) :
    contribution line = unblank line := by
  have hkeeps : ∀ c ∈ line, (c != '#') = true := by
    intro c hc
    rw [bne_iff_ne]
    rintro rfl
    exact hsign hc
  have hkept : kept line = unblank line := by
    rw [kept, List.takeWhile_eq_self_iff.2 hkeeps]
    rfl
  rw [contribution, hkept, hlast]
  simp only [hends, if_true]

/-- The first line of a text, if it is without a comment and ends in a delimiter. -/
theorem normalize_line {rest : List Char} (hline : ∀ c ∈ line, c ≠ '#' ∧ c ≠ '\n' ∧ c ≠ '\r')
    {last : Char} (hlast : (unblank line).getLast? = some last)
    (hends : endsStatement last = true) :
    (normalize (Text.lines (line ++ '\n' :: rest))).text =
      unblank line ++ (normalize (Text.lines rest)).text := by
  have hlines : Text.lines (line ++ '\n' :: rest) = line :: Text.lines rest :=
    Text.lines_append (fun h ↦ (hline _ h).2.1 rfl) (fun h ↦ (hline _ h).2.2 rfl) rest
  rw [hlines, normalize_text_cons, contribution_eq (fun h ↦ (hline _ h).1 rfl) hlast hends]

end ModContent
