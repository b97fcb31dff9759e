import ModContent.Proofs.Source.Progress

/-!
# Lines of offsets and of faults

Each line of a file contributes a part of the normalized text, and each offset in the text lies in
the part of one line (`contributingLine`). It is taken back to just that line
(`lineOf_eq_contributingLine`), however many lines contribute nothing. So a scan that fails names
the line of the fault, if it locates the fault by what stands before it (`scanFile_error_line`).
-/

namespace ModContent

open NormalizedSource

/-- What stands behind a beginning of the normalized text begins in this line, counted from one. -/
def BeginsIn (lines : List (List Char)) (before : List Char) (n : Nat) : Prop :=
  ∃ above line below inner after, lines = above ++ line :: below ∧ n = above.length + 1 ∧
    contribution line = inner ++ after ∧ after ≠ [] ∧ before = (normalize above).text ++ inner

variable {lines : List (List Char)} {before rest : List Char} {c : Char}

/-! ### Starts of lines -/

/-- No line starts before the offset that is counted from. -/
theorem le_offset_of_mem_startsFrom {offset number : Nat} {start : LineStart}
    (h : start ∈ startsFrom offset number lines) : offset ≤ start.offset := by
  induction lines generalizing offset number with
  | nil => exact absurd h List.not_mem_nil
  | cons line lines ih =>
    rw [startsFrom] at h
    split at h
    · exact ih h
    · rcases List.mem_cons.1 h with rfl | h
      · exact Nat.le_refl _
      · exact Nat.le_trans (Nat.le_add_right _ _) (ih h)

/-- The last start at or before an offset, among the starts of lines. -/
def startAt? (starts : List LineStart) (offset : Nat) : Option LineStart :=
  (starts.takeWhile fun s ↦ decide (s.offset ≤ offset)).getLast?

/-- The starts that follow count only if one of them is at or before the offset. -/
theorem startAt?_cons {start : LineStart} {starts : List LineStart} {offset : Nat}
    (h : start.offset ≤ offset) :
    startAt? (start :: starts) offset = (startAt? starts offset <|> some start) := by
  rw [startAt?, List.takeWhile_cons_of_pos (by simpa using h), startAt?]
  cases starts.takeWhile fun s ↦ decide (s.offset ≤ offset) with
  | nil => rfl
  | cons first more => simp [List.getLast?_cons]

theorem startAt?_eq_none {starts : List LineStart} {offset : Nat}
    (h : ∀ start ∈ starts, offset < start.offset) : startAt? starts offset = none := by
  rw [startAt?, List.getLast?_eq_none_iff]
  rcases starts with - | ⟨first, more⟩
  · rfl
  · have hfirst := h first List.mem_cons_self
    exact List.takeWhile_cons_of_neg (by simpa using hfirst)

/-! ### Lines by what they contribute -/

/-- The line, counted from one, that contributes what stands at an offset of the normalized text. -/
def contributingLine : List (List Char) → Nat → Nat
  | [], _ => 0
  | line :: rest, offset =>
    if offset < Text.byteLength (contribution line) then 1
    else contributingLine rest (offset - Text.byteLength (contribution line)) + 1

/-- Inside the text, the start that is found is that of the line which contributes the byte. -/
theorem startAt?_startsFrom {inside : Nat} (offset number : Nat)
    (h : inside < Text.byteLength (normalize lines).text) :
    (startAt? (startsFrom offset (number + 1) lines) (offset + inside)).map LineStart.line =
      some (number + contributingLine lines inside) := by
  induction lines generalizing offset number inside with
  | nil => exact absurd h (Nat.not_lt_zero _)
  | cons line rest ih =>
    rw [normalize_text_cons, Text.byteLength_append] at h
    rw [startsFrom, contributingLine]
    by_cases hin : inside < Text.byteLength (contribution line)
    · have hne : ¬ (contribution line).isEmpty := by
        intro hempty
        rw [List.isEmpty_iff.1 hempty] at hin
        exact Nat.not_lt_zero _ hin
      -- the other lines start behind this one
      have hrest : startAt? (startsFrom (offset + Text.byteLength (contribution line))
          (number + 1 + 1) rest) (offset + inside) = none := by
        refine startAt?_eq_none fun start hstart ↦ ?_
        have hle := le_offset_of_mem_startsFrom hstart
        omega
      rw [if_neg hne, startAt?_cons (Nat.le_add_right _ _), hrest, if_pos hin]
      rfl
    · have hless : inside - Text.byteLength (contribution line) <
          Text.byteLength (normalize rest).text := by omega
      have hmore := ih (offset + Text.byteLength (contribution line)) (number + 1) hless
      have hoffset : offset + Text.byteLength (contribution line) +
          (inside - Text.byteLength (contribution line)) = offset + inside := by omega
      rw [hoffset, Nat.add_assoc number 1 (contributingLine _ _), Nat.add_comm 1] at hmore
      rw [if_neg hin]
      split
      · next hempty =>
        rw [List.isEmpty_iff.1 hempty] at hmore ⊢
        exact hmore
      · obtain ⟨start, hstart, hline⟩ := Option.map_eq_some_iff.1 hmore
        rw [startAt?_cons (Nat.le_add_right _ _), hstart, ← hline]
        rfl

/-- **An offset in the text is taken back to the line that contributes it.** -/
theorem lineOf_eq_contributingLine {offset : Nat}
    (h : offset < Text.byteLength (normalize lines).text) :
    (normalize lines).lineOf offset = contributingLine lines offset := by
  have hstart := startAt?_startsFrom 0 0 h
  rw [Nat.zero_add, Nat.zero_add, Nat.zero_add] at hstart
  obtain ⟨start, hstart, hline⟩ := Option.map_eq_some_iff.1 hstart
  have hstarts : (normalize lines).starts = startsFrom 0 1 lines := rfl
  rw [startAt?] at hstart
  rw [lineOf, hstarts, hstart]
  exact hline

/-! ### Lines of characters -/

/-- Behind the text of the lines above, the lines below contribute. -/
theorem contributingLine_append (above below : List (List Char)) (inside : Nat) :
    contributingLine (above ++ below) (Text.byteLength (normalize above).text + inside) =
      above.length + contributingLine below inside := by
  induction above with
  | nil =>
    show contributingLine below (0 + inside) = 0 + _
    rw [Nat.zero_add, Nat.zero_add]
  | cons first above ih =>
    rw [List.cons_append, contributingLine, normalize_text_cons, Text.byteLength_append,
      Nat.add_assoc, if_neg (Nat.not_lt.2 (Nat.le_add_right _ _)), Nat.add_sub_cancel_left, ih,
      List.length_cons]
    omega

/-- What stands behind a beginning of the text is contributed by the line in which it begins. -/
theorem BeginsIn.contributingLine_eq {n : Nat} (h : BeginsIn lines before n) :
    Text.byteLength before < Text.byteLength (normalize lines).text ∧
      contributingLine lines (Text.byteLength before) = n := by
  obtain ⟨above, line, below, inner, after, rfl, rfl, hline, hafter, rfl⟩ := h
  have hinside : Text.byteLength inner < Text.byteLength (contribution line) := by
    have hpos := Text.byteLength_pos hafter
    rw [hline, Text.byteLength_append]
    omega
  have htext : (normalize (above ++ line :: below)).text =
      (normalize above).text ++ (contribution line ++ (normalize below).text) := by
    simp [normalize]
  refine ⟨?_, ?_⟩
  · rw [htext, Text.byteLength_append, Text.byteLength_append, Text.byteLength_append]
    omega
  · rw [Text.byteLength_append, contributingLine_append, contributingLine, if_pos hinside]

/-- **An offset is taken back to its line**, the one that contributes what stands behind it. -/
theorem BeginsIn.lineOf_eq {n : Nat} (h : BeginsIn lines before n) :
    (normalize lines).lineOf (Text.byteLength before) = n := by
  obtain ⟨hless, hline⟩ := h.contributingLine_eq
  rw [lineOf_eq_contributingLine hless, hline]

/-- A character of a joined text is in the first part or behind it. -/
theorem append_eq_append_cons {first second : List Char}
    (h : first ++ second = before ++ c :: rest) :
    (∃ after, first = before ++ c :: after) ∨
      ∃ more, before = first ++ more ∧ second = more ++ c :: rest := by
  rcases List.append_eq_append_iff.1 h with ⟨more, hbefore, hsecond⟩ | ⟨after, hfirst, hrest⟩
  · exact .inr ⟨more, hbefore, hsecond⟩
  · rcases after with - | ⟨c', after⟩
    · rw [List.append_nil] at hfirst
      exact .inr ⟨[], by rw [hfirst, List.append_nil], hrest.symm⟩
    · obtain ⟨rfl, -⟩ := List.cons.inj hrest
      exact .inl ⟨after, hfirst⟩

/-- Each character of the text is contributed by a line. -/
theorem exists_beginsIn (h : (normalize lines).text = before ++ c :: rest) :
    ∃ n, BeginsIn lines before n := by
  induction lines generalizing before with
  | nil =>
    have hnil : [] = before ++ c :: rest := h
    simp at hnil
  | cons line lines ih =>
    have hjoined := (normalize_text_cons line lines).symm.trans h
    rcases append_eq_append_cons hjoined with ⟨after, hline⟩ | ⟨more, rfl, hmore⟩
    · exact ⟨1, [], line, lines, before, c :: after, rfl, rfl, hline, List.cons_ne_nil _ _, rfl⟩
    · obtain ⟨n, above, found, below, inner, after, rfl, rfl, hfound, hafter, rfl⟩ := ih hmore
      refine ⟨_, line :: above, found, below, inner, after, rfl, rfl, hfound, hafter, ?_⟩
      rw [← List.append_assoc]
      rfl

/-! ### Lines of faults -/

variable {text place : List Char} {fault : ScanFault}

/-- Something stands behind the place of a fault. -/
theorem FaultAt.exists_cons (h : FaultAt text fault place) :
    ∃ c rest, text = place ++ c :: rest := by
  cases h with
  | @header place header rest fault legible nested closed free refused =>
    rcases header with - | ⟨c, header⟩
    · exact ⟨'{', rest, by rw [List.append_nil]⟩
    · exact ⟨c, header ++ '{' :: rest, by simp⟩
  | @statement place statement rest fault legible nested closed free nonempty ends refused =>
    obtain ⟨c, statement, rfl⟩ := List.exists_cons_of_ne_nil nonempty
    exact ⟨c, statement ++ rest, by simp⟩
  | @unmatchedClose place rest legible nested equal => exact ⟨'}', rest, rfl⟩
  | @neverClosed text place block outer legible encloses =>
    cases encloses with
    | @some place header inside outer outside closed free nonempty balanced =>
      obtain ⟨c, header, rfl⟩ := List.exists_cons_of_ne_nil nonempty
      exact ⟨c, header ++ '{' :: inside, by simp⟩

/-- Something stands behind what locates a fault. -/
theorem LocatedBy.exists_cons (h : LocatedBy text place before)
    (hfault : FaultAt text fault place) :
    ∃ c rest, text = before ++ c :: rest := by
  by_cases hbare : BareBrace text place
  · obtain ⟨more, rfl⟩ := hbare
    cases h.bare (List.prefix_append _ _) with
    | none delimiters =>
      refine List.exists_cons_of_ne_nil fun hnil ↦ ?_
      simp at hnil
    | @some before last rest closed free nonempty delimiters =>
      obtain ⟨c, last, rfl⟩ := List.exists_cons_of_ne_nil nonempty
      exact ⟨c, last ++ rest ++ ['{'] ++ more, by simp⟩
  · rw [h.other hbare]
    exact hfault.exists_cons

/-- **A scan that fails names the line of its fault**: the line in which the text that cannot be
read begins, or the closing brace that is not matched, or the header of the innermost block left
open. Where the header of an opening brace is missing, it names the line of the last text before
instead, which may stand above the brace. -/
theorem scanFile_error_line {content : Content} {file : String} {error : ContentError}
    (h : (scanFile content file (normalize lines)).2 = .error error) :
    ∃ fault place n m, FaultAt (normalize lines).text fault place ∧ BeginsIn lines place n ∧
      error = .parse ⟨file, m⟩ fault.note ∧
      (¬ BareBrace (normalize lines).text place → m = n) ∧
      (BareBrace (normalize lines).text place →
        ∃ before, LastText place before ∧ BeginsIn lines before m) := by
  obtain ⟨fault, place, before, hfault, hlocated, rfl⟩ := scanFile_error h
  obtain ⟨c, rest, htext⟩ := hfault.exists_cons
  obtain ⟨n, hn⟩ := exists_beginsIn htext
  obtain ⟨c', rest', htext'⟩ := hlocated.exists_cons hfault
  obtain ⟨m, hm⟩ := exists_beginsIn htext'
  refine ⟨fault, place, n, m, hfault, hn, ?_, fun hbare ↦ ?_, fun hbare ↦ ?_⟩
  · rw [locate, hm.lineOf_eq]
  · rw [← hm.lineOf_eq, hlocated.other hbare, hn.lineOf_eq]
  · exact ⟨before, hlocated.bare hbare, hm⟩

/-- A statement that cannot be read, on the second of three lines. -/
theorem scanFile_error_line_of_statement :
    (scanFile (Content.start ContentTree.new []) "units.txt"
      (normalize [['a', ' ', '{'], ['b', '('], ['}']])).2 =
        .error (.parse ⟨"units.txt", 2⟩ (GrammarFault.forbidden ['b', '('] '(').note) ∧
    ∃ fault place n m,
      FaultAt (normalize [['a', ' ', '{'], ['b', '('], ['}']]).text fault place ∧
      BeginsIn [['a', ' ', '{'], ['b', '('], ['}']] place n ∧
      ContentError.parse ⟨"units.txt", 2⟩ (GrammarFault.forbidden ['b', '('] '(').note =
        .parse ⟨"units.txt", m⟩ fault.note ∧
      (¬ BareBrace (normalize [['a', ' ', '{'], ['b', '('], ['}']]).text place → m = n) ∧
      (BareBrace (normalize [['a', ' ', '{'], ['b', '('], ['}']]).text place →
        ∃ before, LastText place before ∧
          BeginsIn [['a', ' ', '{'], ['b', '('], ['}']] before m) :=
  ⟨rfl, @scanFile_error_line _ (Content.start ContentTree.new []) _ _ rfl⟩

/-- An opening brace without a header on the third line is reported in the first, where the last
text before it stands. -/
theorem bare_brace_reported_above :
    (scanFile (Content.start ContentTree.new []) "units.txt"
      (normalize [['a', ' ', '{'], ['}'], ['{']])).2 =
        .error (.parse ⟨"units.txt", 1⟩ GrammarFault.missingName.note) ∧
    FaultAt (normalize [['a', ' ', '{'], ['}'], ['{']]).text (.grammar .missingName)
      ['a', '{', '}'] ∧
    BeginsIn [['a', ' ', '{'], ['}'], ['{']] ['a', '{', '}'] 3 := by
  have hbalanced : Balanced ['a', '{', '}'] :=
    have hflat : Flat ['a'] := ⟨by decide, by decide⟩
    Balanced.braces hflat ⟨nested_nil, rfl⟩
  have hlegible : Legible ['a', '{', '}'] := by
    refine ⟨fun t ht ↦ ?_, fun t ht ↦ absurd ht List.not_mem_nil⟩
    obtain rfl := List.mem_singleton.1 ht
    exact ⟨_, rfl⟩
  have hclosed : Closed ['a', '{', '}'] := closed_concat (.inr (.inl rfl)) ['a', '{']
  have hfault : FaultAt (['a', '{', '}'] ++ [] ++ ['{']) (.grammar .missingName) ['a', '{', '}'] :=
    .header hlegible hbalanced.nested hclosed (List.forall_mem_nil _) rfl
  exact ⟨rfl, hfault, [['a', ' ', '{'], ['}']], ['{'], [], [], ['{'], rfl, rfl, rfl,
    List.cons_ne_nil _ _, rfl⟩

end ModContent
