import ModContent.Text.Cut

/-!
# Cutting undoes joining

A text that was joined from parts is cut into the same parts again, provided no part holds the
separator: `splitOn` undoes `intercalate` (`splitOn_intercalate`), `cutAt` undoes one separator
(`cutAt_append`), and the first line of a text is the text before its first line end
(`lines_append`). Where two texts meet, a part of the one goes on as a part of the other, both for
cutting (`exists_splitOn_append`) and for joining (`intercalate_append_parts`).
-/

namespace ModContent.Text

variable {c : Char}

theorem cutAt_append {before : List Char} (h : c ∉ before) (after : List Char) :
    cutAt c (before ++ c :: after) = some (before, after) :=
  cutAt_eq_some_iff.2 ⟨rfl, h⟩

/-! ### Every occurrence -/

theorem splitOn_of_not_mem {part : List Char} (h : c ∉ part) : splitOn c part = [part] := by
  induction part with
  | nil => rfl
  | cons d rest ih =>
    rw [List.mem_cons, not_or] at h
    rw [splitOn, if_neg (Ne.symm h.1), ih h.2]

/-- Where two texts meet, the last part of the first goes on as the first part of the second. -/
theorem exists_splitOn_append (c : Char) (text more : List Char) : ∃ before last first after,
    splitOn c text = before ++ [last] ∧ splitOn c more = first :: after ∧
      splitOn c (text ++ more) = before ++ (last ++ first) :: after := by
  induction text with
  | nil =>
    obtain ⟨first, after, hmore⟩ := List.exists_cons_of_ne_nil (splitOn_ne_nil c more)
    exact ⟨[], [], first, after, rfl, hmore, hmore⟩
  | cons d text ih =>
    obtain ⟨before, last, first, after, htext, hmore, happend⟩ := ih
    rw [List.cons_append, splitOn, splitOn, htext, happend]
    by_cases hd : d = c
    · exact ⟨[] :: before, last, first, after, if_pos hd, hmore, if_pos hd⟩
    · rw [if_neg hd, if_neg hd]
      cases before with
      | nil => exact ⟨[], d :: last, first, after, rfl, hmore, rfl⟩
      | cons part before => exact ⟨(d :: part) :: before, last, first, after, rfl, hmore, rfl⟩

/-- Cutting is done on both sides of any separator. -/
theorem splitOn_append_cons (c : Char) (text more : List Char) :
    splitOn c (text ++ c :: more) = splitOn c text ++ splitOn c more := by
  obtain ⟨before, last, first, after, htext, hmore, happend⟩ :=
    exists_splitOn_append c text (c :: more)
  rw [splitOn, if_pos rfl] at hmore
  obtain ⟨rfl, rfl⟩ := List.cons.inj hmore
  rw [happend, htext, List.append_nil, List.append_assoc, List.singleton_append]

/-- The first part ends at the first separator. -/
theorem splitOn_append {part : List Char} (h : c ∉ part) (rest : List Char) :
    splitOn c (part ++ c :: rest) = part :: splitOn c rest := by
  rw [splitOn_append_cons, splitOn_of_not_mem h, List.singleton_append]

/-- Parts without the separator are found again once they are joined. -/
theorem splitOn_intercalate {parts : List (List Char)} (hne : parts ≠ [])
    (h : ∀ part ∈ parts, c ∉ part) : splitOn c (List.intercalate [c] parts) = parts := by
  induction parts with
  | nil => exact absurd rfl hne
  | cons part rest ih =>
    obtain ⟨hpart, hrest⟩ := List.forall_mem_cons.1 h
    cases rest with
    | nil =>
      rw [List.intercalate_singleton]
      exact splitOn_of_not_mem hpart
    | cons next more =>
      rw [List.intercalate_cons_cons, List.append_assoc, List.singleton_append,
        splitOn_append hpart, ih (List.cons_ne_nil next more) hrest]

/-- Two joined texts without a separator between them run one part into the next. -/
theorem intercalate_append_parts (c : Char) (before after : List (List Char))
    (last first : List Char) : List.intercalate [c] (before ++ (last ++ first) :: after) =
      List.intercalate [c] (before ++ [last]) ++ List.intercalate [c] (first :: after) := by
  induction before with
  | nil =>
    cases after with
    | nil => simp only [List.nil_append, List.intercalate_singleton]
    | cons next after =>
      simp only [List.nil_append, List.intercalate_singleton, List.intercalate_cons_cons,
        List.append_assoc]
  | cons part before ih =>
    rw [List.cons_append, List.cons_append, List.intercalate_cons_of_ne_nil (by simp),
      List.intercalate_cons_of_ne_nil (by simp), ih, List.append_assoc, List.append_assoc,
      List.append_assoc]

/-- Two lists of parts are joined by one more separator. -/
theorem intercalate_append (c : Char) {before after : List (List Char)} (hbefore : before ≠ [])
    (hafter : after ≠ []) : List.intercalate [c] (before ++ after) =
      List.intercalate [c] before ++ c :: List.intercalate [c] after := by
  obtain ⟨before, last, rfl⟩ := (List.eq_nil_or_concat before).resolve_left hbefore
  have h := intercalate_append_parts c before after last []
  rw [List.append_nil, List.intercalate_cons_of_ne_nil hafter, List.nil_append] at h
  rw [List.concat_eq_append, List.append_assoc, List.singleton_append, h, List.singleton_append]

theorem mem_intercalate {parts : List (List Char)} {part : List Char} (h : part ∈ parts)
    {d : Char} (hd : d ∈ part) : d ∈ List.intercalate [c] parts := by
  induction parts with
  | nil => exact absurd h List.not_mem_nil
  | cons first rest ih =>
    cases rest with
    | nil =>
      obtain rfl := List.mem_singleton.1 h
      rwa [List.intercalate_singleton]
    | cons next more =>
      rw [List.intercalate_cons_cons, List.mem_append]
      rcases List.mem_cons.1 h with rfl | h
      · exact .inl (List.mem_append_left _ hd)
      · exact .inr (ih h)

/-- A joined text holds the separator and characters of the parts. -/
theorem eq_or_mem_of_mem_intercalate {parts : List (List Char)} {d : Char}
    (h : d ∈ List.intercalate [c] parts) : d = c ∨ ∃ part ∈ parts, d ∈ part := by
  induction parts with
  | nil => exact absurd h List.not_mem_nil
  | cons first rest ih =>
    cases rest with
    | nil =>
      rw [List.intercalate_singleton] at h
      exact .inr ⟨first, List.mem_cons_self, h⟩
    | cons next more =>
      rw [List.intercalate_cons_cons, List.mem_append, List.mem_append, List.mem_singleton] at h
      rcases h with (h | h) | h
      · exact .inr ⟨first, List.mem_cons_self, h⟩
      · exact .inl h
      · exact (ih h).imp_right fun ⟨part, hpart, hd⟩ ↦
          ⟨part, List.mem_cons_of_mem _ hpart, hd⟩

/-- Only the parts and the separator bring characters in. -/
theorem not_mem_intercalate {parts : List (List Char)} {d : Char} (hne : d ≠ c)
    (h : ∀ part ∈ parts, d ∉ part) : d ∉ List.intercalate [c] parts := by
  intro hmem
  rcases eq_or_mem_of_mem_intercalate hmem with heq | ⟨part, hpart, hmem⟩
  · exact hne heq
  · exact h part hpart hmem

/-! ### Lines -/

/-- A line that holds no line end is the first line of the text that goes on after a line feed. -/
theorem lines_append {line : List Char} (hfeed : '\n' ∉ line) (hreturn : '\r' ∉ line)
    (rest : List Char) : lines (line ++ '\n' :: rest) = line :: lines rest := by
  induction line with
  | nil => rfl
  | cons c line ih =>
    rw [List.mem_cons, not_or] at hfeed hreturn
    rw [List.cons_append, lines, ih hfeed.2 hreturn.2]
    · exact fun h ↦ hfeed.1 h.symm
    · exact fun _ h ↦ absurd h.symm hreturn.1

end ModContent.Text
