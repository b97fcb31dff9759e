import ModContent.Proofs.Source.Lines
import ModContent.Proofs.Text.Bytes

/-!
# Lines of bytes

The bytes of a normalized text are those of its lines, each normalized by itself
(`numberedBytes`). The line found at the offset of a byte is the one that contributes it, and an
offset behind the text belongs to the last line that contributes anything (`lineOf_traces_bytes`).

The search for a line rests on the starts of the lines. They ascend from zero
(`pairwise_startsFrom`, `offset_eq_of_mem_head?_startsFrom`), so those at or before an offset come
first and the others behind them (`exists_parts`). Every search that finds where the ones end and
the others begin gives the same line (`Parts.lineOf_eq`).
-/

namespace ModContent

open NormalizedSource

/-! ### Bytes -/

/-- The bytes that lines contribute, each line taken by itself, with the numbers of the lines. -/
def numberedBytes (number : Nat) (lines : List (List Char)) : List (UInt8 × Nat) :=
  (lines.zipIdx number).flatMap fun (line, n) ↦
    (Text.bytes (normalize [line]).text).map fun byte ↦ (byte, n)

variable {lines : List (List Char)} {offset number : Nat}

/-- The bytes of the first line come first, with its number. -/
theorem numberedBytes_cons (number : Nat) (line : List Char) (rest : List (List Char)) :
    numberedBytes number (line :: rest) =
      ((Text.bytes (contribution line)).map fun byte ↦ (byte, number)) ++
        numberedBytes (number + 1) rest := by
  rw [← normalize_text_singleton]
  rfl

/-- The bytes of the text, each with the line that contributes what stands at its offset. -/
theorem mapIdx_contributingLine (number : Nat) (lines : List (List Char)) :
    (Text.bytes (normalize lines).text).mapIdx
        (fun offset byte ↦ (byte, number + contributingLine lines offset)) =
      numberedBytes (number + 1) lines := by
  induction lines generalizing number with
  | nil => rfl
  | cons line rest ih =>
    rw [normalize_text_cons, Text.bytes_append, List.mapIdx_append, numberedBytes_cons, ← ih,
      Text.length_bytes]
    congr 1
    · -- within the first line
      refine List.mapIdx_eq_iff.2 fun i ↦ ?_
      rw [List.getElem?_map]
      by_cases hi : i < Text.byteLength (contribution line)
      · simp only [contributingLine, if_pos hi]
      · have hnone : (Text.bytes (contribution line))[i]? = none :=
          List.getElem?_eq_none (by rw [Text.length_bytes]; omega)
        rw [hnone]
        rfl
    · -- behind it
      refine congrArg (List.mapIdx · _) (funext₂ fun i byte ↦ ?_)
      have happend := contributingLine_append [line] rest i
      rw [normalize_text_singleton, List.singleton_append, List.length_singleton,
        Nat.add_comm _ i] at happend
      rw [happend, Nat.add_assoc]

/-- The bytes of the text, each with the line found at its offset. -/
theorem mapIdx_lineOf (lines : List (List Char)) :
    (Text.bytes (normalize lines).text).mapIdx
        (fun offset byte ↦ (byte, (normalize lines).lineOf offset)) = numberedBytes 1 lines := by
  rw [← mapIdx_contributingLine 0]
  refine List.mapIdx_eq_iff.2 fun i ↦ ?_
  rw [List.getElem?_mapIdx]
  by_cases hi : i < Text.byteLength (normalize lines).text
  · rw [lineOf_eq_contributingLine hi, Nat.zero_add]
  · have hnone : (Text.bytes (normalize lines).text)[i]? = none :=
      List.getElem?_eq_none (by rw [Text.length_bytes]; omega)
    rw [hnone]
    rfl

/-! ### Starts -/

/-- A start lies before the end of the text, and its line is among those counted. -/
theorem lt_of_mem_startsFrom {start : LineStart} (h : start ∈ startsFrom offset number lines) :
    start.offset < offset + Text.byteLength (normalize lines).text ∧
      start.line < number + lines.length := by
  induction lines generalizing offset number with
  | nil => exact absurd h List.not_mem_nil
  | cons line rest ih =>
    rw [normalize_text_cons, Text.byteLength_append, List.length_cons]
    rw [startsFrom] at h
    split at h
    · obtain ⟨hoffset, hline⟩ := ih h
      omega
    · next hne =>
      have hpos := Text.byteLength_pos fun hnil ↦ hne (List.isEmpty_iff.2 hnil)
      rcases List.mem_cons.1 h with rfl | h
      · constructor
        · show offset < _
          omega
        · show number < _
          omega
      · obtain ⟨hoffset, hline⟩ := ih h
        omega

/-- Starts are in the order of their offsets, no two at the same one. -/
theorem pairwise_startsFrom (offset number : Nat) (lines : List (List Char)) :
    (startsFrom offset number lines).Pairwise fun a b ↦ a.offset < b.offset := by
  induction lines generalizing offset number with
  | nil => exact List.Pairwise.nil
  | cons line rest ih =>
    rw [startsFrom]
    split
    · exact ih offset (number + 1)
    · next hne =>
      have hpos := Text.byteLength_pos fun hnil ↦ hne (List.isEmpty_iff.2 hnil)
      refine List.pairwise_cons.2 ⟨fun start hstart ↦ ?_, ih _ _⟩
      have hle := le_offset_of_mem_startsFrom hstart
      show offset < start.offset
      omega

theorem offset_eq_of_mem_head?_startsFrom {start : LineStart}
    (h : start ∈ (startsFrom offset number lines).head?) : start.offset = offset := by
  induction lines generalizing number with
  | nil => exact absurd h (Option.not_mem_none _)
  | cons line rest ih =>
    rw [startsFrom] at h
    split at h
    · exact ih h
    · obtain rfl := Option.some.inj h
      rfl

/-! ### Searching the starts -/

/-- The first `k` starts are at or before an offset, and the others behind it. -/
structure Parts (starts : List LineStart) (offset k : Nat) : Prop where
  before : ∀ start ∈ starts.take k, start.offset ≤ offset
  behind : ∀ start ∈ starts.drop k, offset < start.offset

/-- Starts that ascend are parted by every offset. -/
theorem exists_parts {starts : List LineStart}
    (h : starts.Pairwise fun a b ↦ a.offset < b.offset) (offset : Nat) :
    ∃ k, Parts starts offset k := by
  induction starts with
  | nil => exact ⟨0, nofun, nofun⟩
  | cons start starts ih =>
    obtain ⟨hstart, hstarts⟩ := List.pairwise_cons.1 h
    by_cases hle : start.offset ≤ offset
    · obtain ⟨k, hbefore, hbehind⟩ := ih hstarts
      refine ⟨k + 1, ?_, hbehind⟩
      rw [List.take_succ_cons]
      exact List.forall_mem_cons.2 ⟨hle, hbefore⟩
    · refine ⟨0, nofun, List.forall_mem_cons.2 ⟨Nat.lt_of_not_le hle, fun s hs ↦ ?_⟩⟩
      have hlt := hstart s hs
      omega

/-- The starts at or before an offset, taken from the front. -/
theorem Parts.takeWhile_eq {starts : List LineStart} {k : Nat} (h : Parts starts offset k) :
    starts.takeWhile (fun s ↦ decide (s.offset ≤ offset)) = starts.take k := by
  conv_lhs => rw [← List.take_append_drop k starts]
  rw [List.takeWhile_append_of_pos fun s hs ↦ decide_eq_true (h.before s hs)]
  cases hdrop : starts.drop k with
  | nil => exact List.append_nil _
  | cons start more =>
    have hlt := h.behind start (hdrop ▸ List.mem_cons_self)
    rw [List.takeWhile_cons_of_neg (by simpa using hlt), List.append_nil]

/-- The line of an offset is that of the last start before the place where it parts the starts. -/
theorem Parts.lineOf_eq {k : Nat} (h : Parts (normalize lines).starts offset k) :
    (normalize lines).lineOf offset =
      (((normalize lines).starts.take k).getLast?.map LineStart.line).getD 0 := by
  rw [lineOf, h.takeWhile_eq]
  cases hlast : ((normalize lines).starts.take k).getLast? with
  | some start => rfl
  | none =>
    -- no start is before the offset, and as the first would be at zero there is none
    have htake := List.getLast?_eq_none_iff.1 hlast
    have hdrop : (normalize lines).starts.drop k = (normalize lines).starts := by
      conv_rhs => rw [← List.take_append_drop k (normalize lines).starts, htake]
      rfl
    cases hhead : (normalize lines).starts.head? with
    | none => rfl
    | some start =>
      have hmem : start ∈ (normalize lines).starts.drop k := by
        rw [hdrop]
        exact List.mem_of_mem_head? hhead
      have hlt := h.behind start hmem
      rw [offset_eq_of_mem_head?_startsFrom hhead] at hlt
      exact absurd hlt (Nat.not_lt_zero offset)

/-! ### Behind the text -/

/-- Behind all starts the last one counts. -/
theorem lineOf_eq_last (h : Text.byteLength (normalize lines).text ≤ offset + 1) :
    (normalize lines).lineOf offset =
      ((normalize lines).starts.getLast?.map LineStart.line).getD 0 := by
  have hparts : Parts (normalize lines).starts offset (normalize lines).starts.length := by
    constructor
    · rw [List.take_length]
      intro start hstart
      have hlt := (lt_of_mem_startsFrom hstart).1
      omega
    · rw [List.drop_length]
      exact nofun
  rw [hparts.lineOf_eq, List.take_length]

theorem starts_eq_nil (h : (normalize lines).text = []) : (normalize lines).starts = [] := by
  refine List.eq_nil_iff_forall_not_mem.2 fun start hstart ↦ ?_
  have hlt := (lt_of_mem_startsFrom hstart).1
  rw [h] at hlt
  exact Nat.not_lt_zero _ hlt

/-- An offset behind the text belongs to the line of the last byte. -/
theorem lineOf_behind (h : Text.byteLength (normalize lines).text ≤ offset) :
    (normalize lines).lineOf offset = ((numberedBytes 1 lines).getLast?.map Prod.snd).getD 0 := by
  rw [lineOf_eq_last (by omega), ← mapIdx_lineOf, List.getLast?_mapIdx, Text.length_bytes]
  cases hlast : (Text.bytes (normalize lines).text).getLast? with
  | none =>
    have hlength := congrArg List.length (List.getLast?_eq_none_iff.1 hlast)
    rw [Text.length_bytes] at hlength
    have htext : (normalize lines).text = [] := by
      by_contra hne
      exact absurd hlength (Nat.ne_of_gt (Text.byteLength_pos hne))
    rw [starts_eq_nil htext]
    rfl
  | some byte => exact (lineOf_eq_last (by omega)).symm

/-- No offset is mapped behind the last line. -/
theorem lineOf_le_length (lines : List (List Char)) (offset : Nat) :
    (normalize lines).lineOf offset ≤ lines.length := by
  obtain ⟨k, hparts⟩ := exists_parts (pairwise_startsFrom 0 1 lines) offset
  rw [Parts.lineOf_eq hparts]
  cases hlast : ((normalize lines).starts.take k).getLast? with
  | none => exact Nat.zero_le _
  | some start =>
    have hmem := List.mem_of_mem_take (List.mem_of_getLast? hlast)
    have hlt := (lt_of_mem_startsFrom hmem).2
    show start.line ≤ lines.length
    omega

/-- **Offsets are traced back to their lines.** Each byte of the normalized text is contributed by
the line found at its offset, the semicolon added to a line included. At and behind the end the last
line that contributes anything is found, and line zero in an empty text. The starts ascend from
zero, so they are parted by every offset, and the line is found wherever that is; and no number of a
line is beyond the number of lines. -/
theorem lineOf_traces_bytes (lines : List (List Char)) :
    let source := normalize lines
    (Text.bytes source.text).mapIdx (fun offset byte ↦ (byte, source.lineOf offset)) =
      numberedBytes 1 lines ∧
    (∀ offset, Text.byteLength source.text ≤ offset →
      source.lineOf offset = ((numberedBytes 1 lines).getLast?.map Prod.snd).getD 0) ∧
    (source.text = [] → ∀ offset, source.lineOf offset = 0) ∧
    (source.starts.Pairwise fun a b ↦ a.offset < b.offset) ∧
    (∀ start ∈ source.starts.head?, start.offset = 0) ∧
    (∀ offset, (∃ k, Parts source.starts offset k) ∧ ∀ k, Parts source.starts offset k →
      source.lineOf offset = ((source.starts.take k).getLast?.map LineStart.line).getD 0) ∧
    ∀ offset, source.lineOf offset ≤ lines.length := by
  intro source
  have hascending := pairwise_startsFrom 0 1 lines
  refine ⟨mapIdx_lineOf lines, fun offset h ↦ lineOf_behind h, fun hempty offset ↦ ?_, hascending,
    fun start hstart ↦ offset_eq_of_mem_head?_startsFrom hstart,
    fun offset ↦ ⟨exists_parts hascending offset, fun k h ↦ h.lineOf_eq⟩, lineOf_le_length lines⟩
  have hlength : Text.byteLength source.text ≤ offset + 1 := by
    rw [hempty]
    exact Nat.zero_le _
  rw [lineOf_eq_last hlength, starts_eq_nil hempty]
  rfl

/-- A letter of two bytes and the semicolon after it belong to the second line, and so does all that
stands behind the text. -/
example : numberedBytes 1 ["# a".toList, " é ".toList, []] = [(0xC3, 2), (0xA9, 2), (0x3B, 2)] ∧
    (normalize ["# a".toList, " é ".toList, []]).lineOf 7 = 2 := by
  decide

end ModContent
