import Mathlib.Data.List.DropRight
import ModContent.Proofs.Source.Normalized

/-!
# Normal texts

A text is normal when it holds neither blanks nor number signs and, unless it is empty, ends in a
delimiter. A normalized text is normal (`normalText_normalize`), and a text is left as it is, taken
as a single line, exactly if it is normal (`normalize_eq_self_iff`). So normalizing takes lists of
lines, one after the other, onto the texts that it leaves alone (`normalize_onto_fixpoints`).

What a line adds is described by two passes over what stands before its comment
(`normalize_singleton`): one drops the blanks, the other looks at the last character that is no
blank. Both agree on which lines add nothing.
-/

namespace ModContent

open NormalizedSource

variable {c : Char} {text : List Char}

/-! ### What one line gives -/

/-- What stands on a line before its comment. -/
def beforeComment (line : List Char) : List Char := line.takeWhile (· != '#')

/-- What is added to a text that becomes a line of its own: a semicolon, unless the text without
the blanks at its end is empty or ends in a delimiter. -/
def terminator (text : List Char) : List Char :=
  match (text.rdropWhile Text.isBlank).getLast? with
  | none => []
  | some last => if endsStatement last then [] else [';']

/-- The last character that is no blank, found from either pass. -/
theorem getLast?_unblank (text : List Char) :
    (unblank text).getLast? = (text.rdropWhile Text.isBlank).getLast? := by
  induction text using List.reverseRecOn with
  | nil => rfl
  | append_singleton text c ih =>
    rw [unblank_append]
    cases hblank : Text.isBlank c with
    | true =>
      have hnone : unblank [c] = [] := by simp [unblank, hblank]
      rw [hnone, List.append_nil, ih, List.rdropWhile_concat_pos _ _ _ hblank]
    | false =>
      have hself : unblank [c] = [c] := unblank_eq_self (by simpa using hblank)
      have hnot : ¬ Text.isBlank c := by simp [hblank]
      rw [hself, List.rdropWhile_concat_neg _ _ _ hnot, List.getLast?_concat, List.getLast?_concat]

/-- A line gives what is no blank before its comment, and a semicolon if it needs one. -/
theorem normalize_singleton (line : List Char) :
    (normalize [line]).text = unblank (beforeComment line) ++ terminator (beforeComment line) := by
  have hlast : (kept line).getLast? = ((beforeComment line).rdropWhile Text.isBlank).getLast? :=
    getLast?_unblank (beforeComment line)
  show _ = kept line ++ _
  rw [normalize_text_singleton, contribution, terminator, ← hlast]
  cases hkept : (kept line).getLast? with
  | none =>
    rw [List.getLast?_eq_none_iff.1 hkept]
    rfl
  | some last => cases hends : endsStatement last <;> simp [hends]

/-! ### Fixpoints -/

/-- A text without blanks and number signs that is empty or ends in a delimiter. -/
structure NormalText (text : List Char) : Prop where
  plain : ∀ c ∈ text, Text.isBlank c = false ∧ c ≠ '#'
  ends : ∀ c ∈ text.getLast?, c = ';' ∨ c = '{' ∨ c = '}' ∨ c = '='

/-- The characters behind which no semicolon is added. -/
theorem endsStatement_iff : endsStatement c = true ↔ c = ';' ∨ c = '{' ∨ c = '}' ∨ c = '=' := by
  simp only [endsStatement, Bool.or_eq_true, beq_iff_eq, or_assoc]

/-- Whatever the lines are, their text is normal. -/
theorem normalText_normalize (lines : List (List Char)) : NormalText (normalize lines).text where
  plain _ hc := mem_normalize_text hc
  ends _ hc := endsStatement_iff.1 (endsStatement_of_mem_getLast?_normalize hc)

/-- A normal text needs no semicolon after it. -/
theorem NormalText.terminator_eq_nil (h : NormalText text) : terminator text = [] := by
  have hlast := getLast?_unblank text
  rw [unblank_eq_self fun c hc ↦ (h.plain c hc).1] at hlast
  rw [terminator, ← hlast]
  split
  · rfl
  · next last hsome => rw [if_pos (endsStatement_iff.2 (h.ends last hsome))]

/-- A single line is left as it is exactly if it is normal. -/
theorem normalize_eq_self_iff : (normalize [text]).text = text ↔ NormalText text := by
  refine ⟨fun heq ↦ heq ▸ normalText_normalize [text], fun h ↦ ?_⟩
  have hbefore : beforeComment text = text := by
    refine List.takeWhile_eq_self_iff.2 fun c hc ↦ ?_
    exact bne_iff_ne.2 (h.plain c hc).2
  rw [normalize_singleton, hbefore, unblank_eq_self fun c hc ↦ (h.plain c hc).1,
    h.terminator_eq_nil, List.append_nil]

/-- **Normalizing takes lists of lines onto its fixpoints.** The text of two lists of lines is one
text after the other, and the text of one line is as the two passes over it say. Every text made is
normal, so it is left as it is when it is normalized again as a single line; and all normal texts
are made in this way. -/
theorem normalize_onto_fixpoints (xs ys : List (List Char)) :
    (normalize (xs ++ ys)).text = (normalize xs).text ++ (normalize ys).text ∧
    (∀ line, (normalize [line]).text =
      unblank (beforeComment line) ++ terminator (beforeComment line)) ∧
    NormalText (normalize xs).text ∧
    (normalize [(normalize xs).text]).text = (normalize xs).text ∧
    ∀ text, (normalize [text]).text = text ↔ NormalText text :=
  ⟨normalize_text_append xs ys, normalize_singleton, normalText_normalize xs,
    normalize_eq_self_iff.2 (normalText_normalize xs), fun _ ↦ normalize_eq_self_iff⟩

/-- A line of blanks and a comment gives nothing, and a blank of any kind or a comment behind the
equals sign of a line does not hide it. -/
example : (normalize [" \t# a".toList, "b =\u3000# c".toList, "d e".toList]).text =
    "b=de;".toList := by
  decide

end ModContent
