/-!
# Cutting text

A text is cut at the first occurrence of a character (`cutAt`), at every occurrence (`splitOn`) or
at line ends (`lines`). Joining the parts of `splitOn` with the separator gives the text again
(`intercalate_splitOn`), and a part never holds the separator (`not_mem_of_mem_splitOn`).
-/

namespace ModContent.Text

/-! ### The first occurrence -/

/-- What stands before and after the first `c`; nothing if there is no `c`. -/
def cutAt (c : Char) : List Char → Option (List Char × List Char)
  | [] => none
  | d :: rest =>
    if d = c then some ([], rest)
    else (cutAt c rest).map fun parts ↦ (d :: parts.1, parts.2)

@[simp] theorem cutAt_nil (c : Char) : cutAt c [] = none := rfl

@[simp] theorem cutAt_cons_self (c : Char) (rest : List Char) :
    cutAt c (c :: rest) = some ([], rest) := by
  simp [cutAt]

/-- A text is cut unless it lacks the character. -/
theorem cutAt_eq_none_iff {c : Char} {text : List Char} : cutAt c text = none ↔ c ∉ text := by
  induction text with
  | nil => simp
  | cons d rest ih =>
    by_cases h : d = c
    · simp [cutAt, h]
    · simp [cutAt, h, ih, Ne.symm h]

/-- The cut parts are the text around its first `c`. -/
theorem cutAt_eq_some_iff {c : Char} {text before after : List Char} :
    cutAt c text = some (before, after) ↔ text = before ++ c :: after ∧ c ∉ before := by
  induction text generalizing before with
  | nil => simp
  | cons d rest ih =>
    by_cases h : d = c
    · subst h
      cases before with
      | nil => simp [cutAt, eq_comm]
      | cons b bs => simp [cutAt]; grind
    · cases before with
      | nil => simp [cutAt, h]
      | cons b bs =>
        simp only [cutAt, h, if_false, Option.map_eq_some_iff, Prod.exists, Prod.mk.injEq,
          List.cons_append, List.cons.injEq, List.mem_cons, not_or]
        constructor
        · rintro ⟨a, b', hcut, ⟨rfl, rfl⟩, rfl⟩
          obtain ⟨rfl, hmem⟩ := ih.1 hcut
          exact ⟨⟨rfl, rfl⟩, Ne.symm h, hmem⟩
        · rintro ⟨⟨rfl, rfl⟩, _, hmem⟩
          exact ⟨bs, after, ih.2 ⟨rfl, hmem⟩, ⟨rfl, rfl⟩, rfl⟩

/-! ### Every occurrence -/

/-- The parts between the occurrences of `c`, empty parts included: one more than there are
occurrences. -/
def splitOn (c : Char) : List Char → List (List Char)
  | [] => [[]]
  | d :: rest =>
    if d = c then [] :: splitOn c rest
    else
      match splitOn c rest with
      | [] => [[d]]
      | part :: parts => (d :: part) :: parts

@[simp] theorem splitOn_nil (c : Char) : splitOn c [] = [[]] := rfl

/-- There is always a part, be it the empty one. -/
theorem splitOn_ne_nil (c : Char) (text : List Char) : splitOn c text ≠ [] := by
  cases text with
  | nil => simp
  | cons d rest =>
    simp only [splitOn]
    split
    · simp
    · split <;> simp

/-- Joining the parts gives the text again. -/
theorem intercalate_splitOn (c : Char) (text : List Char) :
    List.intercalate [c] (splitOn c text) = text := by
  induction text with
  | nil => rfl
  | cons d rest ih =>
    obtain ⟨part, parts, hparts⟩ := List.exists_cons_of_ne_nil (splitOn_ne_nil c rest)
    rw [hparts] at ih
    by_cases h : d = c
    · subst h
      simp only [splitOn, if_true, hparts]
      cases parts <;> simp_all [List.intercalate, List.intersperse]
    · simp only [splitOn, h, if_false, hparts]
      cases parts <;> simp_all [List.intercalate, List.intersperse]

/-- No part holds the separator. -/
theorem not_mem_of_mem_splitOn {c : Char} {text part : List Char} (h : part ∈ splitOn c text) :
    c ∉ part := by
  induction text generalizing part with
  | nil => simp_all
  | cons d rest ih =>
    obtain ⟨p, ps, hparts⟩ := List.exists_cons_of_ne_nil (splitOn_ne_nil c rest)
    by_cases hd : d = c
    · simp only [splitOn, hd, if_true, List.mem_cons] at h
      rcases h with rfl | h
      · simp
      · exact ih h
    · simp only [splitOn, hd, if_false, hparts, List.mem_cons] at h
      rcases h with rfl | h
      · simp only [List.mem_cons, not_or]
        exact ⟨Ne.symm hd, ih (by simp [hparts])⟩
      · exact ih (by simp [hparts, h])

/-! ### Lines -/

/-- The lines of a text. A line ends at a line feed or at the end of the text; a carriage return
right before the line feed belongs to the line end, and no empty line follows the last line feed. -/
def lines : List Char → List (List Char)
  | [] => []
  | '\n' :: rest => [] :: lines rest
  | '\r' :: '\n' :: rest => [] :: lines rest
  | c :: rest =>
    match lines rest with
    | [] => [[c]]
    | line :: more => (c :: line) :: more

/-! ### Parts by shape -/

/-- What follows `lead` in a text that starts with it. -/
def dropLead? : List Char → List Char → Option (List Char)
  | [], text => some text
  | _ :: _, [] => none
  | c :: lead, d :: text => if c = d then dropLead? lead text else none

/-- What stands before `tail` in a text that ends with it. -/
def dropTail? (tail text : List Char) : Option (List Char) :=
  (dropLead? tail.reverse text.reverse).map List.reverse

/-- Whether `part` occurs somewhere in the text, in one piece. -/
def hasPart (part : List Char) : List Char → Bool
  | [] => part.isEmpty
  | c :: text => part.isPrefixOf (c :: text) || hasPart part text

/-- The length of a text in UTF-8. -/
def byteLength (text : List Char) : Nat :=
  text.foldr (fun c length ↦ c.utf8Size + length) 0

@[simp] theorem byteLength_nil : byteLength [] = 0 := rfl

@[simp] theorem byteLength_cons (c : Char) (text : List Char) :
    byteLength (c :: text) = c.utf8Size + byteLength text := rfl

/-- Every character takes a byte at least. -/
theorem byteLength_pos {text : List Char} (h : text ≠ []) : 0 < byteLength text := by
  obtain ⟨c, rest, rfl⟩ := List.exists_cons_of_ne_nil h
  exact Nat.lt_of_lt_of_le c.utf8Size_pos (Nat.le_add_right _ _)

@[simp] theorem byteLength_append (s t : List Char) :
    byteLength (s ++ t) = byteLength s + byteLength t := by
  induction s with
  | nil => simp
  | cons c s ih => simp [ih, Nat.add_assoc]

end ModContent.Text
