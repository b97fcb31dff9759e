import Mathlib.Data.List.DropRight
import ModContent.Json.IdFile

/-!
# Reading what was written

A text is written for a value (`JsonValue.Written`) when reading it gives the value and leaves what
follows, whatever that is, with as much fuel as the length of the text allows. Written strings are
(`written_string`), and so are arrays and objects of written parts, one to a line
(`written_array`, `written_object`).
-/

namespace ModContent

namespace JsonValue

/-! ### Strings -/

/-- How a written character is read. -/
def pieceOf (c : Char) : Piece :=
  if c.toNat < 0x20 ∧ c ∉ ['\x08', '\x0c', '\n', '\r', '\t'] then .unit c.toNat else .char c

/-- The digits of a control character stand for it. -/
theorem mapM_controlDigits {n : Nat} (h : n < 0x20) :
    ('0' :: '0' :: controlDigits n).mapM hexDigit? = some [0, 0, n / 16, n % 16] := by
  revert n
  decide

/-- A written character is read as one piece. -/
theorem readPieces_writeChar (c : Char) (rest : List Char) :
    readPieces (writeChar c ++ rest) =
      (readPieces rest).map fun (pieces, after) ↦ (pieceOf c :: pieces, after) := by
  unfold writeChar
  split
  case h_8 _ hquote hbackslash hb hf hn hr ht =>
    split
    · next hcontrol =>
      have hshort : c ∉ ['\x08', '\x0c', '\n', '\r', '\t'] := by
        simp only [List.mem_cons, List.not_mem_nil, or_false, not_or]
        exact ⟨hb, hf, hn, hr, ht⟩
      have hpiece : pieceOf c = .unit c.toNat := if_pos ⟨hcontrol, hshort⟩
      have hdigits := mapM_controlDigits hcontrol
      simp only [controlDigits] at hdigits
      simp only [controlDigits, List.cons_append, List.nil_append, readPieces, hdigits, hpiece,
        Option.bind_eq_bind, Option.bind_some, List.foldl_cons, List.foldl_nil]
      have hvalue : 16 * (16 * (16 * (16 * 0 + 0) + 0) + c.toNat / 16) + c.toNat % 16 = c.toNat := by
        omega
      rw [hvalue]
      cases readPieces rest <;> rfl
    · next hcontrol =>
      have hpiece : pieceOf c = .char c := if_neg fun h ↦ hcontrol h.1
      rw [List.singleton_append, readPieces, if_neg hcontrol, hpiece]
      · cases readPieces rest <;> rfl
      · exact hquote
      · exact fun _ _ _ _ _ h _ ↦ hbackslash h
      · exact fun _ _ h _ ↦ hbackslash h
  -- a character with an escape of its own
  all_goals
    rw [List.cons_append, List.singleton_append]
    cases hrest : readPieces rest <;> simp [readPieces, escaped?, pieceOf, hrest]

/-- What is written for a string is read as its text. -/
theorem readPieces_written (text rest : List Char) :
    readPieces (text.flatMap writeChar ++ '"' :: rest) = some (text.map pieceOf, rest) := by
  induction text with
  | nil => rfl
  | cons c text ih =>
    rw [List.flatMap_cons, List.append_assoc, readPieces_writeChar, ih]
    rfl

/-- A code unit below the surrogates spells a character. -/
theorem spell?_unit {n : Nat} (h : n < 0xD800) (rest : List Piece) :
    spell? (.unit n :: rest) = (spell? rest).map (Char.ofNat n :: ·) := by
  have hlead : isLead n = false := by
    simp only [isLead, Bool.and_eq_false_iff, decide_eq_false_iff_not]
    omega
  have htrail : isTrail n = false := by
    simp only [isTrail, Bool.and_eq_false_iff, decide_eq_false_iff_not]
    omega
  rw [spell?.eq_def]
  simp [hlead, htrail]

/-- The pieces of a text spell the text. -/
theorem spell?_pieceOf (text : List Char) : spell? (text.map pieceOf) = some text := by
  induction text with
  | nil => rfl
  | cons c text ih =>
    rw [List.map_cons, pieceOf]
    split
    · next hcontrol =>
      rw [spell?_unit (Nat.lt_trans hcontrol.1 (by decide)), ih, Option.map_some, Char.ofNat_toNat]
    · rw [spell?, ih]
      rfl

/-- What is written for a text is read up to the quote that ends it. -/
theorem readString_written (text : String) (rest : List Char) :
    readString (text.toList.flatMap writeChar ++ '"' :: rest) = some (some text, rest) := by
  simp only [readString, readPieces_written, Option.map_some, spell?_pieceOf, String.ofList_toList]

/-! ### Blanks -/

/-- Blanks in front do not matter. -/
theorem skipBlanks_append {blanks : List Char} (h : ∀ c ∈ blanks, isBlank c) (text : List Char) :
    skipBlanks (blanks ++ text) = skipBlanks text :=
  List.dropWhile_append_of_pos h

/-- A text that starts with no blank is not shortened. -/
theorem skipBlanks_cons {c : Char} (h : isBlank c = false) (text : List Char) :
    skipBlanks (c :: text) = c :: text := by
  simp [skipBlanks, h]

@[simp] theorem skipBlanks_skipBlanks (text : List Char) :
    skipBlanks (skipBlanks text) = skipBlanks text :=
  List.dropWhile_idempotent isBlank text

theorem readValue_skipBlanks (fuel : Nat) (text : List Char) :
    readValue fuel (skipBlanks text) = readValue fuel text := by
  cases fuel with
  | zero => simp only [readValue]
  | succ fuel => rw [readValue, readValue, skipBlanks_skipBlanks]

theorem readItems_skipBlanks (fuel : Nat) (text : List Char) :
    readItems fuel (skipBlanks text) = readItems fuel text := by
  cases fuel with
  | zero => simp only [readItems]
  | succ fuel => rw [readItems, readItems, readValue_skipBlanks]

theorem readFields_skipBlanks (fuel : Nat) (text : List Char) :
    readFields fuel (skipBlanks text) = readFields fuel text := by
  cases fuel with
  | zero => simp only [readFields]
  | succ fuel => rw [readFields, readFields, skipBlanks_skipBlanks]

/-! ### Values -/

/-- Reading this text gives this value and leaves what follows. It starts with no blank and with no
closing bracket. -/
structure Written (text : List Char) (v : JsonValue) : Prop where
  start : ∃ c rest, text = c :: rest ∧ isBlank c = false ∧ c ≠ ']'
  read : ∀ fuel rest, 2 * text.length ≤ fuel → readValue (fuel + 1) (text ++ rest) = some (v, rest)

variable {text line gap rest : List Char} {v : JsonValue} {fuel : Nat}

/-- Blanks in front do not matter. -/
theorem Written.read_after (h : Written text v) (hline : ∀ c ∈ line, isBlank c)
    (hfuel : 2 * text.length ≤ fuel) :
    readValue (fuel + 1) (line ++ (text ++ rest)) = some (v, rest) := by
  rw [← readValue_skipBlanks, skipBlanks_append hline, readValue_skipBlanks, h.read fuel rest hfuel]

theorem written_null : Written "null".toList .null where
  start := ⟨'n', "ull".toList, rfl, by decide, by decide⟩
  read fuel rest _ := by
    rw [readValue]
    rfl

theorem written_string (text : String) : Written (writeString text) (.string (some text)) where
  start := ⟨'"', _, rfl, by decide, by decide⟩
  read fuel rest _ := by
    simp only [writeString, List.cons_append, List.append_assoc, List.nil_append]
    rw [readValue, skipBlanks_cons (by decide)]
    simp only [readString_written, Option.map_some]

/-! ### Arrays -/

/-- An item before the closing bracket is the last one. -/
theorem readItems_last {item : JsonValue} {text after : List Char}
    (h : readValue fuel text = some (item, after)) (hafter : skipBlanks after = ']' :: rest) :
    readItems (fuel + 1) text = some ([item], rest) := by
  rw [readItems, h]
  simp only [Option.bind_eq_bind, Option.bind_some, hafter]
  rfl

/-- Behind a comma the items go on. -/
theorem readItems_next {item : JsonValue} {items : List JsonValue} {text more : List Char}
    (h : readValue fuel text = some (item, ',' :: more))
    (hmore : readItems fuel more = some (items, rest)) :
    readItems (fuel + 1) text = some (item :: items, rest) := by
  rw [readItems, h]
  simp only [Option.bind_eq_bind, Option.bind_some, skipBlanks_cons (show isBlank ',' = false by
    decide), hmore]
  rfl

/-- Items that are written one to a line are read up to the closing bracket. -/
theorem readItems_written (hline : ∀ c ∈ line, isBlank c) (hne : line ≠ [])
    (hgap : ∀ c ∈ gap, isBlank c) {parts : List (List Char)} {values : List JsonValue}
    (h : List.Forall₂ Written parts values) (hparts : parts ≠ [])
    (hfuel : 2 * (List.intercalate [','] (parts.map (line ++ ·))).length ≤ fuel) :
    readItems fuel (List.intercalate [','] (parts.map (line ++ ·)) ++ (gap ++ ']' :: rest)) =
      some (values, rest) := by
  have hlength : 0 < line.length := List.length_pos_iff.2 hne
  induction h generalizing fuel with
  | nil => exact absurd rfl hparts
  | @cons part v parts values hpart hrest ih =>
    cases hrest with
    | nil =>
      simp only [List.map_cons, List.map_nil, List.intercalate_singleton, List.length_append,
        List.append_assoc] at hfuel ⊢
      obtain ⟨fuel, rfl⟩ : ∃ k, fuel = k + 2 := ⟨fuel - 2, by omega⟩
      refine readItems_last (hpart.read_after hline (by omega)) ?_
      rw [skipBlanks_append hgap, skipBlanks_cons (by decide)]
    | cons hnext hmore =>
      simp only [List.map_cons, List.intercalate_cons_cons, List.length_append, List.length_cons,
        List.append_assoc, List.singleton_append] at hfuel ih ⊢
      obtain ⟨fuel, rfl⟩ : ∃ k, fuel = k + 2 := ⟨fuel - 2, by omega⟩
      exact readItems_next (hpart.read_after hline (by omega))
        (ih (List.cons_ne_nil _ _) (by omega))

/-- An array that starts with no closing bracket is read item by item. -/
theorem readValue_array {c : Char} {text more : List Char} {items : List JsonValue}
    (hstart : skipBlanks text = c :: more) (hc : c ≠ ']')
    (hitems : readItems fuel text = some (items, rest)) :
    readValue (fuel + 1) ('[' :: text) = some (.array items, rest) := by
  rw [← readItems_skipBlanks, hstart] at hitems
  rw [readValue, skipBlanks_cons (by decide)]
  simp only [hstart]
  split
  · next heq => exact absurd (List.cons.inj heq).1 hc
  · rw [hitems]
    rfl

/-! ### Parts on lines of their own -/

/-- The end of a line and the blanks in front of the next. -/
def lineBreak (blanks : Nat) : List Char := '\n' :: List.replicate blanks ' '

theorem isBlank_of_mem_lineBreak (blanks : Nat) : ∀ c ∈ lineBreak blanks, isBlank c := by
  intro c hc
  rcases List.mem_cons.1 hc with rfl | hc
  · rfl
  · rw [List.eq_of_mem_replicate hc]
    rfl

/-- Parts in brackets stand on lines of their own. -/
theorem writeParts_eq (opening closing : Char) (depth : Nat) {parts : List (List Char)}
    (h : parts ≠ []) : IdFile.writeParts opening closing depth parts =
      opening :: (List.intercalate [','] (parts.map (lineBreak (2 * depth + 2) ++ ·)) ++
        (lineBreak (2 * depth) ++ [closing])) := by
  rw [IdFile.writeParts, if_neg (by simpa using h)]
  simp only [lineBreak, List.cons_append, List.append_assoc]

/-- The first part follows the blanks of its line. -/
theorem skipBlanks_parts {c : Char} {part : List Char} (hblank : isBlank c = false)
    (hline : ∀ d ∈ line, isBlank d) (parts : List (List Char)) (after : List Char) :
    ∃ more, skipBlanks (List.intercalate [','] (((c :: part) :: parts).map (line ++ ·)) ++ after) =
      c :: more := by
  cases parts with
  | nil =>
    simp only [List.map_cons, List.map_nil, List.intercalate_singleton, List.append_assoc]
    exact ⟨_, (skipBlanks_append hline _).trans (skipBlanks_cons hblank _)⟩
  | cons next parts =>
    simp only [List.map_cons, List.intercalate_cons_cons, List.append_assoc]
    exact ⟨_, (skipBlanks_append hline _).trans (skipBlanks_cons hblank _)⟩

/-- An array is read as its items. -/
theorem written_array (depth : Nat) {parts : List (List Char)} {values : List JsonValue}
    (h : List.Forall₂ Written parts values) :
    Written (IdFile.writeParts '[' ']' depth parts) (.array values) := by
  cases h with
  | nil =>
    refine ⟨⟨'[', _, rfl, by decide, by decide⟩, fun fuel rest _ ↦ ?_⟩
    rw [readValue]
    rfl
  | @cons part v parts values hpart hmore =>
    rw [writeParts_eq _ _ _ (List.cons_ne_nil part parts)]
    refine ⟨⟨'[', _, rfl, by decide, by decide⟩, fun fuel rest hfuel ↦ ?_⟩
    obtain ⟨c, tail, rfl, hblank, hc⟩ := hpart.start
    simp only [List.length_cons, List.length_append] at hfuel
    simp only [List.cons_append, List.append_assoc, List.nil_append]
    have hline := isBlank_of_mem_lineBreak (2 * depth + 2)
    obtain ⟨more, hstart⟩ := skipBlanks_parts hblank hline parts
      (lineBreak (2 * depth) ++ ']' :: rest)
    refine readValue_array hstart hc (readItems_written hline (List.cons_ne_nil _ _)
      (isBlank_of_mem_lineBreak _) (.cons hpart hmore) (List.cons_ne_nil _ _) ?_)
    omega

/-! ### Objects -/

/-- A name and a text that is written for the value. -/
inductive WrittenField : List Char → Option String × JsonValue → Prop
  | mk (name : String) {text : List Char} {v : JsonValue} (h : Written text v) :
    WrittenField (writeString name ++ [':', ' '] ++ text) (some name, v)

section Fields

variable {part text after : List Char} {name : String} {v : JsonValue}
  {field : Option String × JsonValue}

/-- A field before the closing brace is the last one. -/
theorem readFields_last (hline : ∀ c ∈ line, isBlank c)
    (h : readValue fuel text = some (v, after)) (hafter : skipBlanks after = '}' :: rest) :
    readFields (fuel + 1) (line ++ (writeString name ++ ':' :: text)) =
      some ([(some name, v)], rest) := by
  rw [← readFields_skipBlanks, skipBlanks_append hline, readFields_skipBlanks]
  simp only [writeString, List.cons_append, List.append_assoc, List.nil_append]
  rw [readFields, skipBlanks_cons (by decide)]
  simp only [readString_written, Option.bind_eq_bind, Option.bind_some,
    skipBlanks_cons (show isBlank ':' = false by decide), h, hafter]
  rfl

/-- Behind a comma the fields go on. -/
theorem readFields_next {fields : List (Option String × JsonValue)} {more : List Char}
    (hline : ∀ c ∈ line, isBlank c) (h : readValue fuel text = some (v, ',' :: more))
    (hmore : readFields fuel more = some (fields, rest)) :
    readFields (fuel + 1) (line ++ (writeString name ++ ':' :: text)) =
      some ((some name, v) :: fields, rest) := by
  rw [← readFields_skipBlanks, skipBlanks_append hline, readFields_skipBlanks]
  simp only [writeString, List.cons_append, List.append_assoc, List.nil_append]
  rw [readFields, skipBlanks_cons (by decide)]
  simp only [readString_written, Option.bind_eq_bind, Option.bind_some,
    skipBlanks_cons (show isBlank ':' = false by decide),
    skipBlanks_cons (show isBlank ',' = false by decide), h, hmore]
  rfl

/-- What is written for a field is its name, a colon, and its value after a blank. -/
theorem WrittenField.exists_read (h : WrittenField part field) (hfuel : 2 * part.length ≤ fuel) :
    ∃ name text v, field = (some name, v) ∧
      ∀ after, part ++ after = writeString name ++ ':' :: (text ++ after) ∧
        readValue (fuel + 1) (text ++ after) = some (v, after) := by
  cases h with
  | @mk name text v h =>
    simp only [List.length_append] at hfuel
    refine ⟨name, ' ' :: text, v, rfl, fun after ↦ ⟨by simp, ?_⟩⟩
    have hline : ∀ c ∈ [' '], isBlank c := by simp [isBlank]
    exact h.read_after hline (by omega)

/-- Fields that are written one to a line are read up to the closing brace. -/
theorem readFields_written (hline : ∀ c ∈ line, isBlank c) (hne : line ≠ [])
    (hgap : ∀ c ∈ gap, isBlank c) {parts : List (List Char)}
    {fields : List (Option String × JsonValue)}
    (h : List.Forall₂ WrittenField parts fields) (hparts : parts ≠ [])
    (hfuel : 2 * (List.intercalate [','] (parts.map (line ++ ·))).length ≤ fuel) :
    readFields fuel (List.intercalate [','] (parts.map (line ++ ·)) ++ (gap ++ '}' :: rest)) =
      some (fields, rest) := by
  have hlength : 0 < line.length := List.length_pos_iff.2 hne
  induction h generalizing fuel with
  | nil => exact absurd rfl hparts
  | @cons part field parts fields hpart hrest ih =>
    cases hrest with
    | nil =>
      simp only [List.map_cons, List.map_nil, List.intercalate_singleton, List.length_append,
        List.append_assoc] at hfuel ⊢
      obtain ⟨fuel, rfl⟩ : ∃ k, fuel = k + 2 := ⟨fuel - 2, by omega⟩
      obtain ⟨name, text, v, rfl, hread⟩ := hpart.exists_read (show _ ≤ fuel by omega)
      rw [(hread _).1]
      refine readFields_last hline (hread _).2 ?_
      rw [skipBlanks_append hgap, skipBlanks_cons (by decide)]
    | cons hnext hmore =>
      simp only [List.map_cons, List.intercalate_cons_cons, List.length_append, List.length_cons,
        List.append_assoc, List.singleton_append] at hfuel ih ⊢
      obtain ⟨fuel, rfl⟩ : ∃ k, fuel = k + 2 := ⟨fuel - 2, by omega⟩
      obtain ⟨name, text, v, rfl, hread⟩ := hpart.exists_read (show _ ≤ fuel by omega)
      rw [(hread _).1]
      exact readFields_next hline (hread _).2 (ih (List.cons_ne_nil _ _) (by omega))

end Fields

/-- An object that starts with no closing brace is read field by field. -/
theorem readValue_object {c : Char} {text more : List Char}
    {fields : List (Option String × JsonValue)}
    (hstart : skipBlanks text = c :: more) (hc : c ≠ '}')
    (hfields : readFields fuel text = some (fields, rest)) :
    readValue (fuel + 1) ('{' :: text) = some (.object fields, rest) := by
  rw [← readFields_skipBlanks, hstart] at hfields
  rw [readValue, skipBlanks_cons (by decide)]
  simp only [hstart]
  split
  · next heq => exact absurd (List.cons.inj heq).1 hc
  · rw [hfields]
    rfl

/-- An object is read as its fields. -/
theorem written_object (depth : Nat) {parts : List (List Char)}
    {fields : List (Option String × JsonValue)} (h : List.Forall₂ WrittenField parts fields) :
    Written (IdFile.writeParts '{' '}' depth parts) (.object fields) := by
  cases h with
  | nil =>
    refine ⟨⟨'{', _, rfl, by decide, by decide⟩, fun fuel rest _ ↦ ?_⟩
    rw [readValue]
    rfl
  | @cons part field parts fields hpart hmore =>
    rw [writeParts_eq _ _ _ (List.cons_ne_nil part parts)]
    refine ⟨⟨'{', _, rfl, by decide, by decide⟩, fun fuel rest hfuel ↦ ?_⟩
    obtain ⟨tail, rfl⟩ : ∃ tail, part = '"' :: tail := by
      cases hpart
      exact ⟨_, rfl⟩
    simp only [List.length_cons, List.length_append] at hfuel
    simp only [List.cons_append, List.append_assoc, List.nil_append]
    have hline := isBlank_of_mem_lineBreak (2 * depth + 2)
    obtain ⟨more, hstart⟩ := skipBlanks_parts (show isBlank '"' = false by decide) hline parts
      (lineBreak (2 * depth) ++ '}' :: rest)
    refine readValue_object hstart (by decide) (readFields_written hline (List.cons_ne_nil _ _)
      (isBlank_of_mem_lineBreak _) (.cons hpart hmore) (List.cons_ne_nil _ _) ?_)
    omega

end JsonValue

end ModContent
