import Mathlib.Data.List.Infix
import Mathlib.Order.Bounds.Basic
import ModContent.Proofs.Source.Segment

/-!
# Nesting of braces

A text is **nested** when no closing brace comes before its opening one, and **balanced** when none
is left open either. In a nested text the blocks that are still open can be told from the text:
what stands behind the brace of an open block is balanced, up to the next open block
(`Encloses`). The depth of a text is the largest number of blocks open at one place
(`IsDepth`).
-/

namespace ModContent

open Scan (IsDelimiter)

/-- No closing brace comes before its opening one. -/
def Nested (text : List Char) : Prop :=
  ∀ before, before <+: text → before.count '}' ≤ before.count '{'

/-- Nested, and no brace is left open. -/
structure Balanced (text : List Char) : Prop where
  nested : Nested text
  equal : text.count '{' = text.count '}'

/-- A text that holds no braces. -/
def Flat (text : List Char) : Prop := '{' ∉ text ∧ '}' ∉ text

variable {text before rest : List Char}

/-- A beginning of a joined text ends in the first part or goes on into the second. -/
theorem prefix_append_cases (h : before <+: text ++ rest) :
    before <+: text ∨ ∃ more, more <+: rest ∧ before = text ++ more := by
  obtain ⟨tail, heq⟩ := h
  rcases List.append_eq_append_iff.1 heq with ⟨middle, rfl, -⟩ | ⟨more, rfl, rfl⟩
  · exact .inl (List.prefix_append _ _)
  · exact .inr ⟨more, List.prefix_append _ _, rfl⟩

/-! ### Flat texts -/

theorem Free.flat (h : Free text) : Flat text :=
  ⟨fun hmem ↦ h _ hmem (.inl rfl), fun hmem ↦ h _ hmem (.inr (.inl rfl))⟩

theorem Flat.of_prefix (h : Flat text) (hbefore : before <+: text) : Flat before :=
  ⟨fun hmem ↦ h.1 (hbefore.subset hmem), fun hmem ↦ h.2 (hbefore.subset hmem)⟩

theorem Flat.count_open (h : Flat text) : text.count '{' = 0 := List.count_eq_zero.2 h.1

theorem Flat.count_close (h : Flat text) : text.count '}' = 0 := List.count_eq_zero.2 h.2

theorem flat_semicolon : Flat [';'] := ⟨by decide, by decide⟩

/-! ### Nested and balanced texts -/

theorem nested_nil : Nested [] := by
  intro before hbefore
  rw [List.prefix_nil.1 hbefore]
  exact Nat.le_refl _

/-- Nested texts are nested together: the blocks left open in the first do no harm. -/
theorem Nested.append (htext : Nested text) (hrest : Nested rest) : Nested (text ++ rest) := by
  intro before hbefore
  rcases prefix_append_cases hbefore with hbefore | ⟨more, hmore, rfl⟩
  · exact htext before hbefore
  · rw [List.count_append, List.count_append]
    exact Nat.add_le_add (htext text (List.prefix_refl _)) (hrest more hmore)

theorem Flat.nested (h : Flat text) : Nested text := by
  intro before hbefore
  rw [(h.of_prefix hbefore).count_close]
  exact Nat.zero_le _

theorem Flat.balanced (h : Flat text) : Balanced text :=
  ⟨h.nested, by rw [h.count_open, h.count_close]⟩

theorem Balanced.append (htext : Balanced text) (hrest : Balanced rest) :
    Balanced (text ++ rest) := by
  refine ⟨htext.nested.append hrest.nested, ?_⟩
  rw [List.count_append, List.count_append, htext.equal, hrest.equal]

theorem nested_open : Nested ['{'] := by
  intro before hbefore
  have hnot : '}' ∉ before := fun hmem ↦ absurd (hbefore.subset hmem) (by decide)
  rw [List.count_eq_zero.2 hnot]
  exact Nat.zero_le _

/-- Text around a balanced text, and a pair of braces around both. -/
theorem Balanced.braces {header : List Char} (hheader : Flat header) (htext : Balanced text) :
    Balanced (header ++ '{' :: text ++ ['}']) := by
  have hopen : Nested (header ++ ['{'] ++ text) :=
    (hheader.nested.append nested_open).append htext.nested
  have hsplit : header ++ '{' :: text = header ++ ['{'] ++ text := by simp
  have hcount : (header ++ '{' :: text ++ ['}']).count '{' =
      (header ++ '{' :: text ++ ['}']).count '}' := by
    simp [hheader.count_open, hheader.count_close, htext.equal]
  refine ⟨fun before hbefore ↦ ?_, hcount⟩
  rcases List.prefix_concat_iff.1 hbefore with rfl | hbefore
  · exact Nat.le_of_eq hcount.symm
  · exact hopen before (hsplit ▸ hbefore)

/-! ### Blocks left open -/

/-- What stands before the headers of the blocks that a text leaves open, the innermost block
first. -/
inductive Encloses : List Char → List (List Char) → Prop
  | none {text : List Char} (balanced : Balanced text) : Encloses text []
  | some {before header inside : List Char} {outer : List (List Char)}
      (outside : Encloses before outer) (closed : Closed before) (free : Free header)
      (nonempty : header ≠ []) (balanced : Balanced inside) :
      Encloses (before ++ header ++ '{' :: inside) (before :: outer)

namespace Encloses

variable {opens : List (List Char)}

/-- Balanced text opens and closes no block. -/
theorem append (h : Encloses text opens) (hrest : Balanced rest) :
    Encloses (text ++ rest) opens := by
  cases h with
  | none balanced => exact .none (balanced.append hrest)
  | @some before header inside outer outside closed free nonempty balanced =>
    have happend : before ++ header ++ '{' :: inside ++ rest =
        before ++ header ++ '{' :: (inside ++ rest) := by simp
    rw [happend]
    exact .some outside closed free nonempty (balanced.append hrest)

/-- A closing brace closes the innermost block. -/
theorem close {innermost : List Char} (h : Encloses text (innermost :: opens)) :
    Encloses (text ++ ['}']) opens := by
  cases h with
  | @some before header inside outer outside closed free nonempty balanced =>
    have happend : innermost ++ header ++ '{' :: inside ++ ['}'] =
        innermost ++ (header ++ '{' :: inside ++ ['}']) := by simp
    rw [happend]
    exact outside.append (balanced.braces free.flat)

/-- A text that leaves blocks open is nested. -/
theorem nested (h : Encloses text opens) : Nested text := by
  induction h with
  | none balanced => exact balanced.nested
  | @some before header inside outer outside closed free nonempty balanced ih =>
    have hsplit : before ++ header ++ '{' :: inside = before ++ header ++ ['{'] ++ inside := by
      simp
    rw [hsplit]
    exact ((ih.append free.flat.nested).append nested_open).append balanced.nested

/-- Each open block has one opening brace more than there are closing ones. -/
theorem count (h : Encloses text opens) :
    text.count '{' = text.count '}' + opens.length := by
  induction h with
  | none balanced => exact balanced.equal
  | @some before header inside outer outside closed free nonempty balanced ih =>
    simp [ih, free.flat.count_open, free.flat.count_close, balanced.equal]
    omega

end Encloses

/-! ### Depth -/

/-- The largest number of blocks open at one place. -/
def IsDepth (text : List Char) (depth : Nat) : Prop :=
  IsGreatest {d | ∃ before, before <+: text ∧ d + before.count '}' = before.count '{'} depth

namespace IsDepth

variable {depth : Nat}

theorem nil : IsDepth [] 0 := by
  refine ⟨⟨[], List.prefix_refl _, rfl⟩, ?_⟩
  rintro d ⟨before, hbefore, hd⟩
  rw [List.prefix_nil.1 hbefore] at hd
  exact Nat.le_of_eq hd

/-- A flat text behind does not change the depth. -/
theorem append_flat (h : IsDepth text depth) (hrest : Flat rest) :
    IsDepth (text ++ rest) depth := by
  obtain ⟨⟨deepest, hdeepest, heq⟩, hbound⟩ := h
  refine ⟨⟨deepest, hdeepest.trans (List.prefix_append _ _), heq⟩, ?_⟩
  rintro d ⟨before, hbefore, hd⟩
  rcases prefix_append_cases hbefore with hbefore | ⟨more, hmore, rfl⟩
  · exact hbound ⟨before, hbefore, hd⟩
  · -- the flat part adds no braces
    have hflat := hrest.of_prefix hmore
    rw [List.count_append, List.count_append, hflat.count_open, hflat.count_close] at hd
    exact hbound ⟨text, List.prefix_refl _, hd⟩

/-- A closing brace does not change the depth. -/
theorem append_close (h : IsDepth text depth) : IsDepth (text ++ ['}']) depth := by
  obtain ⟨⟨deepest, hdeepest, heq⟩, hbound⟩ := h
  refine ⟨⟨deepest, hdeepest.trans (List.prefix_append _ _), heq⟩, ?_⟩
  rintro d ⟨before, hbefore, hd⟩
  rcases List.prefix_concat_iff.1 hbefore with rfl | hbefore
  · have hcount : d + 1 + text.count '}' = text.count '{' := by
      simp at hd
      omega
    have hle := hbound ⟨text, List.prefix_refl _, hcount⟩
    omega
  · exact hbound ⟨before, hbefore, hd⟩

/-- An opening brace makes the depth one more than the blocks around it, if that is more. -/
theorem append_open (h : IsDepth text depth) {outer : Nat}
    (houter : text.count '{' = text.count '}' + outer) :
    IsDepth (text ++ ['{']) (max depth (outer + 1)) := by
  obtain ⟨⟨deepest, hdeepest, heq⟩, hbound⟩ := h
  have hwhole : outer + 1 + (text ++ ['{']).count '}' = (text ++ ['{']).count '{' := by
    simp
    omega
  refine ⟨?_, ?_⟩
  · rcases Nat.le_total depth (outer + 1) with hle | hle
    · rw [Nat.max_eq_right hle]
      exact ⟨_, List.prefix_refl _, hwhole⟩
    · rw [Nat.max_eq_left hle]
      exact ⟨deepest, hdeepest.trans (List.prefix_append _ _), heq⟩
  · rintro d ⟨before, hbefore, hd⟩
    rcases List.prefix_concat_iff.1 hbefore with rfl | hbefore
    · omega
    · exact Nat.le_trans (hbound ⟨before, hbefore, hd⟩) (Nat.le_max_left _ _)

end IsDepth

end ModContent
