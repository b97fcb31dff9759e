import ModContent.Grammar.Header
import ModContent.Proofs.Source.Steps

/-!
# Segments

The delimiters cut a text into segments. A segment that ends at an opening brace is a header; any
other segment is a statement, unless it is empty. So a text has header texts and statement texts
without being scanned, and for a text that ends in a delimiter they do not change when more text
follows (`headerTexts_append`, `statementTexts_append`).
-/

namespace ModContent

open Scan (IsDelimiter)

/-- A text without delimiters, and the delimiter behind it; the last segment of a text has none. -/
structure Segment where
  text : List Char
  ending : Option Char
  deriving DecidableEq, Repr

/-- The segments of a text, one more than it has delimiters. -/
def segments : List Char → List Segment
  | [] => [⟨[], none⟩]
  | c :: rest =>
    if IsDelimiter c then ⟨[], some c⟩ :: segments rest
    else
      match segments rest with
      | [] => [⟨[c], none⟩]
      | segment :: more => { segment with text := c :: segment.text } :: more

/-- The texts that end at an opening brace. -/
def headerTexts (text : List Char) : List (List Char) :=
  ((segments text).filter fun s ↦ s.ending = some '{').map Segment.text

/-- The texts that are not empty and end at a semicolon, a closing brace or the end. -/
def statementTexts (text : List Char) : List (List Char) :=
  ((segments text).filter fun s ↦ s.ending ≠ some '{' ∧ s.text ≠ []).map Segment.text

/-- A text without delimiters. -/
def Free (text : List Char) : Prop := ∀ c ∈ text, ¬ IsDelimiter c

instance : DecidablePred Free := fun text ↦ List.decidableBAll (¬ IsDelimiter ·) text

/-- A text after which a segment begins. -/
def Closed (text : List Char) : Prop := ∀ c ∈ text.getLast?, IsDelimiter c

variable {text rest done : List Char} {d : Char}

/-! ### Cutting -/

theorem segments_of_free (h : Free text) : segments text = [⟨text, none⟩] := by
  induction text with
  | nil => rfl
  | cons c text ih =>
    obtain ⟨hc, htext⟩ := List.forall_mem_cons.1 h
    rw [segments, if_neg hc, ih htext]

/-- The first segment ends at the first delimiter. -/
theorem segments_append_cons (h : Free text) (hd : IsDelimiter d) (rest : List Char) :
    segments (text ++ d :: rest) = ⟨text, some d⟩ :: segments rest := by
  induction text with
  | nil => rw [List.nil_append, segments, if_pos hd]
  | cons c text ih =>
    obtain ⟨hc, htext⟩ := List.forall_mem_cons.1 h
    rw [List.cons_append, segments, if_neg hc, ih htext]

/-- Induction on a text, segment by segment. -/
theorem segment_induction {motive : List Char → Prop} (last : ∀ text, Free text → motive text)
    (cons : ∀ text d rest, Free text → IsDelimiter d → motive rest → motive (text ++ d :: rest))
    (text : List Char) : motive text := by
  -- for any free text before, which is the begun part of the first segment
  suffices h : ∀ before, Free before → motive (before ++ text) from
    h [] fun c hc ↦ absurd hc List.not_mem_nil
  induction text with
  | nil =>
    intro before hbefore
    rw [List.append_nil]
    exact last before hbefore
  | cons c text ih =>
    intro before hbefore
    by_cases hc : IsDelimiter c
    · exact cons before c text hbefore hc (ih [] fun c hc ↦ absurd hc List.not_mem_nil)
    · have hfree : Free (before ++ [c]) := by
        intro c' hc'
        rcases List.mem_append.1 hc' with hmem | hmem
        · exact hbefore c' hmem
        · exact List.mem_singleton.1 hmem ▸ hc
      have happend := ih (before ++ [c]) hfree
      rwa [List.append_assoc] at happend

/-! ### Where a segment begins -/

@[simp] theorem closed_nil : Closed [] := fun _ hc ↦ absurd hc (Option.not_mem_none _)

theorem closed_concat (hd : IsDelimiter d) (text : List Char) : Closed (text ++ [d]) := by
  intro c hc
  rw [List.getLast?_concat] at hc
  exact Option.mem_some_iff.1 hc ▸ hd

/-- A free text is closed only if it is empty. -/
theorem eq_nil_of_closed (hfree : Free text) (hclosed : Closed text) : text = [] := by
  cases hlast : text.getLast? with
  | none => exact List.getLast?_eq_none_iff.1 hlast
  | some c => exact absurd (hclosed c hlast) (hfree c (List.mem_of_getLast? hlast))

/-- What stands behind a delimiter is closed if the whole is. -/
theorem closed_of_closed_append_cons (h : Closed (text ++ d :: rest)) : Closed rest := by
  cases rest with
  | nil => exact closed_nil
  | cons c rest =>
    intro last hlast
    refine h last ?_
    rw [List.getLast?_append, List.getLast?_cons_cons, hlast]
    rfl

/-- Behind a closed text the segments are cut as they are alone. -/
theorem exists_segments_append (h : Closed done) (rest : List Char) :
    ∃ parts, segments done = parts ++ [⟨[], none⟩] ∧
      segments (done ++ rest) = parts ++ segments rest := by
  induction done using segment_induction with
  | last text hfree =>
    obtain rfl := eq_nil_of_closed hfree h
    exact ⟨[], rfl, rfl⟩
  | cons text d more hfree hd ih =>
    obtain ⟨parts, hdone, happend⟩ := ih (closed_of_closed_append_cons h)
    refine ⟨⟨text, some d⟩ :: parts, ?_, ?_⟩
    · rw [segments_append_cons hfree hd, hdone]
      rfl
    · rw [List.append_assoc, List.cons_append, segments_append_cons hfree hd, happend]
      rfl

/-! ### Headers and statements -/

/-- The headers of a closed text stay when more text follows. -/
theorem headerTexts_append (h : Closed done) (rest : List Char) :
    headerTexts (done ++ rest) = headerTexts done ++ headerTexts rest := by
  obtain ⟨parts, hdone, happend⟩ := exists_segments_append h rest
  simp [headerTexts, hdone, happend]

theorem statementTexts_append (h : Closed done) (rest : List Char) :
    statementTexts (done ++ rest) = statementTexts done ++ statementTexts rest := by
  obtain ⟨parts, hdone, happend⟩ := exists_segments_append h rest
  simp [statementTexts, hdone, happend]

/-- The text at the first opening brace is a header. -/
theorem headerTexts_open (h : Free text) (rest : List Char) :
    headerTexts (text ++ '{' :: rest) = text :: headerTexts rest := by
  rw [headerTexts, segments_append_cons h (.inl rfl)]
  rfl

theorem statementTexts_open (h : Free text) (rest : List Char) :
    statementTexts (text ++ '{' :: rest) = statementTexts rest := by
  rw [statementTexts, segments_append_cons h (.inl rfl)]
  rfl

/-- The statement that a text is, if it is one. -/
def statementText? (text : List Char) : List (List Char) := if text = [] then [] else [text]

theorem mem_statementText? (h : text ≠ []) : text ∈ statementText? text := by
  rw [statementText?, if_neg h]
  exact List.mem_cons_self

/-- The text at any other delimiter is no header. -/
theorem headerTexts_end (h : Free text) (hd : IsDelimiter d) (hne : d ≠ '{') (rest : List Char) :
    headerTexts (text ++ d :: rest) = headerTexts rest := by
  rw [headerTexts, segments_append_cons h hd, List.filter_cons_of_neg (by simpa using hne)]
  rfl

/-- It is a statement, unless it is empty. -/
theorem statementTexts_end (h : Free text) (hd : IsDelimiter d) (hne : d ≠ '{')
    (rest : List Char) :
    statementTexts (text ++ d :: rest) = statementText? text ++ statementTexts rest := by
  rw [statementTexts, segments_append_cons h hd, statementText?]
  by_cases htext : text = []
  · rw [List.filter_cons_of_neg (by simp [htext]), if_pos htext]
    rfl
  · rw [List.filter_cons_of_pos (by simp [htext, hne]), if_neg htext]
    rfl

theorem headerTexts_of_free (h : Free text) : headerTexts text = [] := by
  rw [headerTexts, segments_of_free h]
  rfl

/-- A text without delimiters is a statement, unless it is empty. -/
theorem statementTexts_of_free (h : Free text) : statementTexts text = statementText? text := by
  rw [statementTexts, segments_of_free h, statementText?]
  by_cases htext : text = []
  · rw [if_pos htext, htext]
    rfl
  · rw [List.filter_cons_of_pos (by simp [htext]), if_neg htext]
    rfl

/-- A delimiter at the end of a text ends its last segment and begins an empty one. -/
theorem exists_segments_concat (hd : IsDelimiter d) (text : List Char) :
    ∃ parts last, segments text = parts ++ [⟨last, none⟩] ∧
      segments (text ++ [d]) = parts ++ [⟨last, some d⟩, ⟨[], none⟩] := by
  induction text using segment_induction with
  | last text hfree => exact ⟨[], text, segments_of_free hfree, segments_append_cons hfree hd []⟩
  | cons text e rest hfree he ih =>
    obtain ⟨parts, last, hrest, hconcat⟩ := ih
    refine ⟨⟨text, some e⟩ :: parts, last, ?_, ?_⟩
    · rw [segments_append_cons hfree he, hrest]
      rfl
    · rw [List.append_assoc, List.cons_append, segments_append_cons hfree he, hconcat]
      rfl

/-- A semicolon or a closing brace behind a text makes no header. -/
theorem headerTexts_concat (hd : IsDelimiter d) (hne : d ≠ '{') (text : List Char) :
    headerTexts (text ++ [d]) = headerTexts text := by
  obtain ⟨parts, last, htext, hconcat⟩ := exists_segments_concat hd text
  simp [headerTexts, htext, hconcat, hne]

/-- A semicolon or a closing brace behind a text only ends the statement that the text leaves
open. -/
theorem statementTexts_concat (hd : IsDelimiter d) (hne : d ≠ '{') (text : List Char) :
    statementTexts (text ++ [d]) = statementTexts text := by
  obtain ⟨parts, last, htext, hconcat⟩ := exists_segments_concat hd text
  by_cases hlast : last = []
  · simp [statementTexts, htext, hconcat, hlast]
  · simp [statementTexts, htext, hconcat, hlast, hne]

end ModContent
