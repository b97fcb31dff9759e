import Mathlib.Data.List.Basic
import ModContent.Colour
import ModContent.Text.Cut

/-!
# The texts of colours

A colour is read from six or eight hexadecimal digits with at most one `#` in front, and from
nothing else (`Colour.read_eq_some_iff`). It is printed as these digits in upper case, without an
alpha channel of 255 (`Colour.text_eq`), and what is printed is read back (`Colour.read_text`). All
three rest on what a pair of digits has to do with the channel it stands for.

The digits may also be cut out of the text by byte offsets. A cut fails when an offset lies inside a
character; since only a text of ASCII characters is cut, it never does (`Colour.readByOffsets_eq`).
-/

namespace ModContent.Colour

/-! ### Digits -/

/-- The hexadecimal digits in the order of their values. -/
def hexAlphabet : List Char :=
  ['0', '1', '2', '3', '4', '5', '6', '7', '8', '9', 'a', 'b', 'c', 'd', 'e', 'f']

/-- An ASCII hexadecimal digit, of either case. -/
def IsHexDigit (c : Char) : Prop := c.toLower ∈ hexAlphabet

instance : DecidablePred IsHexDigit := fun c ↦ inferInstanceAs (Decidable (c.toLower ∈ hexAlphabet))

/-- The value of a hexadecimal digit. -/
def digitValue (c : Char) : Nat := hexAlphabet.idxOf c.toLower

theorem digitValue_lt {c : Char} (h : IsHexDigit c) : digitValue c < 16 :=
  List.idxOf_lt_length_of_mem h

/-- What is checked of the ASCII characters holds of them. -/
theorem forall_ascii {P : Char → Prop} (h : ∀ n < 128, P (Char.ofNat n)) {c : Char}
    (hc : c.toNat < 128) : P c :=
  Char.ofNat_toNat c ▸ h c.toNat hc

theorem IsHexDigit.toNat_lt {c : Char} (h : IsHexDigit c) : c.toNat < 128 := by
  by_contra hlarge
  -- such a character has no other case
  have hlower : c.toLower = c := by
    refine dif_neg fun hupper ↦ hlarge ?_
    have : c.toNat ≤ 'Z'.toNat := hupper.2
    exact Nat.lt_of_le_of_lt this (by decide)
  rw [IsHexDigit, hlower] at h
  have hall : hexAlphabet.all (fun d ↦ decide (d.toNat < 128)) = true := by decide
  exact hlarge (of_decide_eq_true (List.all_eq_true.1 hall c h))

theorem hexDigit?_of_isHexDigit {c : Char} (h : IsHexDigit c) :
    hexDigit? c = some (digitValue c) :=
  forall_ascii (P := fun c ↦ IsHexDigit c → hexDigit? c = some (digitValue c)) (by decide)
    h.toNat_lt h

theorem isHexDigit_of_hexDigit? {c : Char} {n : Nat} (h : hexDigit? c = some n) :
    IsHexDigit c := by
  have hascii : c.toNat < 128 := by
    by_contra hlarge
    have hnone : hexDigit? c = none := by
      rw [hexDigit?, if_neg, if_neg, if_neg] <;> simp <;> omega
    rw [hnone] at h
    cases h
  exact forall_ascii (P := fun c ↦ (hexDigit? c).isSome = true → IsHexDigit c) (by decide) hascii
    (h ▸ rfl)

/-- Printing what was read from a digit gives it in upper case. -/
theorem hexDigit_digitValue {c : Char} (h : IsHexDigit c) :
    hexDigit (digitValue c) = c.toUpper :=
  forall_ascii (P := fun c ↦ IsHexDigit c → hexDigit (digitValue c) = c.toUpper) (by decide)
    h.toNat_lt h

/-- What is printed for a number is a digit that reads as the number. -/
theorem digitValue_hexDigit {n : Nat} (h : n < 16) :
    IsHexDigit (hexDigit n) ∧ digitValue (hexDigit n) = n := by
  have hall : ∀ n < 16, IsHexDigit (hexDigit n) ∧ digitValue (hexDigit n) = n := by decide
  exact hall n h

/-! ### Pairs of digits -/

/-- The numbers that pairs of digits stand for; a digit left over at the end does not count. -/
def pairValues : List Char → List Nat
  | high :: low :: rest => (16 * digitValue high + digitValue low) :: pairValues rest
  | _ => []

/-- Two digits are read as the number that they stand for, the higher one first. -/
theorem channel?_eq_some_iff {high low : Char} {channel : UInt8} :
    channel? high low = some channel ↔ IsHexDigit high ∧ IsHexDigit low ∧
      channel.toNat = 16 * digitValue high + digitValue low := by
  simp only [channel?, Option.bind_eq_bind, Option.bind_eq_some_iff, Option.pure_def,
    Option.some.injEq]
  constructor
  · rintro ⟨h, hhigh, l, hlow, rfl⟩
    have hhigh' := isHexDigit_of_hexDigit? hhigh
    have hlow' := isHexDigit_of_hexDigit? hlow
    obtain rfl := Option.some.inj ((hexDigit?_of_isHexDigit hhigh').symm.trans hhigh)
    obtain rfl := Option.some.inj ((hexDigit?_of_isHexDigit hlow').symm.trans hlow)
    have := digitValue_lt hhigh'
    have := digitValue_lt hlow'
    exact ⟨hhigh', hlow', UInt8.toNat_ofNat_of_lt' (show _ < 256 by omega)⟩
  · rintro ⟨hhigh, hlow, hvalue⟩
    refine ⟨_, hexDigit?_of_isHexDigit hhigh, _, hexDigit?_of_isHexDigit hlow, ?_⟩
    rw [← hvalue, UInt8.ofNat_toNat]

/-- The digits of a channel that is read from a pair are the pair in upper case. -/
theorem channelDigits_eq {high low : Char} {channel : UInt8} (hhigh : IsHexDigit high)
    (hlow : IsHexDigit low) (h : channel.toNat = 16 * digitValue high + digitValue low) :
    channelDigits channel = [high.toUpper, low.toUpper] := by
  have := digitValue_lt hlow
  have hquotient : channel.toNat / 16 = digitValue high := by omega
  have hrest : channel.toNat % 16 = digitValue low := by omega
  rw [channelDigits, hquotient, hrest, hexDigit_digitValue hhigh, hexDigit_digitValue hlow]

/-- Channels that stand for pairs of digits are printed as these digits in upper case. -/
theorem flatMap_channelDigits {channels : List UInt8} {digits : List Char}
    (hdigits : ∀ d ∈ digits, IsHexDigit d) (heven : digits.length % 2 = 0)
    (h : channels.map UInt8.toNat = pairValues digits) :
    channels.flatMap channelDigits = digits.map Char.toUpper := by
  induction digits using pairValues.induct generalizing channels with
  | case1 high low rest ih =>
    rw [pairValues, List.map_eq_cons_iff] at h
    obtain ⟨channel, channels, rfl, hchannel, hrest⟩ := h
    simp only [List.forall_mem_cons] at hdigits
    obtain ⟨hhigh, hlow, hdigits⟩ := hdigits
    have heven : rest.length % 2 = 0 := by
      rw [List.length_cons, List.length_cons] at heven
      omega
    rw [List.flatMap_cons, channelDigits_eq hhigh hlow hchannel,
      ih hdigits heven hrest]
    rfl
  | case2 digits hshort =>
    have hnil : digits = [] := by
      match digits with
      | [] => rfl
      | [d] => simp at heven
      | high :: low :: rest => exact absurd rfl (hshort high low rest)
    subst hnil
    rw [List.map_eq_nil_iff.1 h]
    rfl

/-- The digits of channels are hexadecimal, and stand for these channels. -/
theorem pairValues_flatMap_channelDigits (channels : List UInt8) :
    (∀ d ∈ channels.flatMap channelDigits, IsHexDigit d) ∧
      (channels.flatMap channelDigits).length = 2 * channels.length ∧
      pairValues (channels.flatMap channelDigits) = channels.map UInt8.toNat := by
  induction channels with
  | nil => exact ⟨List.forall_mem_nil _, rfl, rfl⟩
  | cons channel channels ih =>
    obtain ⟨hdigits, hlength, hvalues⟩ := ih
    have hlt := channel.toNat_lt
    obtain ⟨hhigh, hquotient⟩ := digitValue_hexDigit (n := channel.toNat / 16) (by omega)
    obtain ⟨hlow, hrest⟩ := digitValue_hexDigit (n := channel.toNat % 16) (by omega)
    refine ⟨?_, ?_, ?_⟩
    · simp only [List.flatMap_cons, channelDigits, List.cons_append, List.nil_append,
        List.forall_mem_cons]
      exact ⟨hhigh, hlow, hdigits⟩
    · simp only [List.flatMap_cons, channelDigits, List.length_append, hlength, List.length_cons,
        List.length_nil]
      omega
    · simp only [List.flatMap_cons, channelDigits, List.cons_append, List.nil_append, pairValues,
        hquotient, hrest, hvalues, List.map_cons, List.cons.injEq, and_true]
      omega

/-! ### Reading -/

theorem exists_of_length_six {α : Type} {xs : List α} (h : xs.length = 6) :
    ∃ x₁ x₂ x₃ x₄ x₅ x₆, xs = [x₁, x₂, x₃, x₄, x₅, x₆] :=
  match xs, h with
  | [x₁, x₂, x₃, x₄, x₅, x₆], _ => ⟨x₁, x₂, x₃, x₄, x₅, x₆, rfl⟩

theorem exists_of_length_eight {α : Type} {xs : List α} (h : xs.length = 8) :
    ∃ x₁ x₂ x₃ x₄ x₅ x₆ x₇ x₈, xs = [x₁, x₂, x₃, x₄, x₅, x₆, x₇, x₈] :=
  match xs, h with
  | [x₁, x₂, x₃, x₄, x₅, x₆, x₇, x₈], _ => ⟨x₁, x₂, x₃, x₄, x₅, x₆, x₇, x₈, rfl⟩

/-- The alpha channel where the digits give none. -/
def givenAlpha (digits : List Char) : List Nat := if digits.length = 6 then [255] else []

/-- Six or eight digits are read as channels, and nothing else is. Six are followed by full
opacity. -/
theorem ofDigits?_eq_some_iff {digits : List Char} {c : Colour} : ofDigits? digits = some c ↔
    (digits.length = 6 ∨ digits.length = 8) ∧ (∀ d ∈ digits, IsHexDigit d) ∧
      c.channels.map UInt8.toNat = pairValues digits ++ givenAlpha digits := by
  obtain ⟨r, g, b, a⟩ := c
  rw [ofDigits?.eq_def]
  split
  · -- six digits
    simp only [Option.bind_eq_bind, Option.bind_eq_some_iff, channel?_eq_some_iff, solid,
      Option.pure_def, Option.some.injEq, mk.injEq, channels, List.forall_mem_cons]
    constructor
    · rintro ⟨_, ⟨hr, hr', hred⟩, _, ⟨hg, hg', hgreen⟩, _, ⟨hb, hb', hblue⟩, rfl, rfl, rfl, rfl⟩
      refine ⟨.inl rfl, ⟨hr, hr', hg, hg', hb, hb', List.forall_mem_nil _⟩, ?_⟩
      simp [pairValues, givenAlpha, hred, hgreen, hblue]
    · rintro ⟨-, ⟨hr, hr', hg, hg', hb, hb', -⟩, hvalues⟩
      obtain ⟨hred, hgreen, hblue, halpha⟩ : _ ∧ _ ∧ _ ∧ a.toNat = UInt8.toNat 255 := by
        simpa [pairValues, givenAlpha] using hvalues
      exact ⟨r, ⟨hr, hr', hred⟩, g, ⟨hg, hg', hgreen⟩, b, ⟨hb, hb', hblue⟩, rfl, rfl, rfl,
        (UInt8.toNat_inj.1 halpha).symm⟩
  · -- eight digits
    simp only [Option.bind_eq_bind, Option.bind_eq_some_iff, channel?_eq_some_iff,
      Option.pure_def, Option.some.injEq, mk.injEq, channels, List.forall_mem_cons]
    constructor
    · rintro ⟨_, ⟨hr, hr', hred⟩, _, ⟨hg, hg', hgreen⟩, _, ⟨hb, hb', hblue⟩, _,
        ⟨ha, ha', halpha⟩, rfl, rfl, rfl, rfl⟩
      refine ⟨.inr rfl, ⟨hr, hr', hg, hg', hb, hb', ha, ha', List.forall_mem_nil _⟩, ?_⟩
      simp [pairValues, givenAlpha, hred, hgreen, hblue, halpha]
    · rintro ⟨-, ⟨hr, hr', hg, hg', hb, hb', ha, ha', -⟩, hvalues⟩
      obtain ⟨hred, hgreen, hblue, halpha⟩ := by simpa [pairValues, givenAlpha] using hvalues
      exact ⟨r, ⟨hr, hr', hred⟩, g, ⟨hg, hg', hgreen⟩, b, ⟨hb, hb', hblue⟩, a, ⟨ha, ha', halpha⟩,
        rfl, rfl, rfl, rfl⟩
  · next hsix height =>
    refine iff_of_false nofun ?_
    rintro ⟨hlength | hlength, -, -⟩
    · obtain ⟨d₁, d₂, d₃, d₄, d₅, d₆, rfl⟩ := exists_of_length_six hlength
      exact hsix _ _ _ _ _ _ rfl
    · obtain ⟨d₁, d₂, d₃, d₄, d₅, d₆, d₇, d₈, rfl⟩ := exists_of_length_eight hlength
      exact height _ _ _ _ _ _ _ _ rfl

/-- Six or eight hexadecimal digits with at most one `#` in front of them. -/
structure Spells (text digits : List Char) : Prop where
  hash : text = digits ∨ text = '#' :: digits
  length : digits.length = 6 ∨ digits.length = 8
  digits : ∀ d ∈ digits, IsHexDigit d

/-- The text without the `#` that it may start with. -/
def dropHash : List Char → List Char
  | '#' :: digits => digits
  | digits => digits

theorem dropHash_of_ne {text : List Char} (h : ∀ digits, text ≠ '#' :: digits) :
    dropHash text = text := by
  rw [dropHash.eq_def]
  split
  · exact absurd rfl (h _)
  · rfl

/-- A leading `#` makes no difference to what is read. -/
theorem read_eq (text : List Char) : read text = ofDigits? (dropHash text) := by
  rw [read.eq_def]
  split
  · rfl
  · next hplain => rw [dropHash_of_ne hplain]

theorem Spells.dropHash_eq {text digits : List Char} (h : Spells text digits) :
    dropHash text = digits := by
  rcases h.hash with rfl | rfl
  · refine dropHash_of_ne ?_
    rintro digits rfl
    exact absurd (h.digits '#' List.mem_cons_self) (by decide)
  · rfl

/-- At most one `#` is dropped. -/
theorem eq_or_eq_cons_dropHash (text : List Char) :
    text = dropHash text ∨ text = '#' :: dropHash text := by
  rw [dropHash.eq_def]
  split
  · exact .inr rfl
  · exact .inl rfl

/-- **The texts of a colour** are those that spell its channels. -/
theorem read_eq_some_iff {text : List Char} {c : Colour} : read text = some c ↔
    ∃ digits, Spells text digits ∧
      c.channels.map UInt8.toNat = pairValues digits ++ givenAlpha digits := by
  rw [read_eq, ofDigits?_eq_some_iff]
  constructor
  · rintro ⟨hlength, hdigits, hvalues⟩
    exact ⟨_, ⟨eq_or_eq_cons_dropHash text, hlength, hdigits⟩, hvalues⟩
  · rintro ⟨digits, hspells, hvalues⟩
    rw [hspells.dropHash_eq]
    exact ⟨hspells.length, hspells.digits, hvalues⟩

/-! ### Printing -/

/-- Digits without an alpha channel of 255. -/
def dropSolid (digits : List Char) : List Char :=
  if digits.drop 6 = ['F', 'F'] then digits.take 6 else digits

/-- Only the full channel is printed as two times `F`. -/
theorem channelDigits_eq_solid_iff {channel : UInt8} :
    channelDigits channel = ['F', 'F'] ↔ channel = 255 := by
  refine ⟨fun h ↦ ?_, fun h ↦ h ▸ rfl⟩
  obtain ⟨-, -, hvalues⟩ := pairValues_flatMap_channelDigits [channel]
  rw [List.flatMap_singleton, h] at hvalues
  exact UInt8.toNat_inj.1 (List.cons.inj hvalues).1.symm

/-- The digits that are shown: those of the alpha channel only where it is not 255. -/
theorem text_eq_dropSolid (c : Colour) :
    c.text = '#' :: dropSolid (c.channels.flatMap channelDigits) := by
  obtain ⟨r, g, b, a⟩ := c
  have hdrop : ([r, g, b, a].flatMap channelDigits).drop 6 = channelDigits a := rfl
  have htake : ([r, g, b, a].flatMap channelDigits).take 6 = [r, g, b].flatMap channelDigits := rfl
  simp only [text, channels, isSolid, dropSolid, hdrop, htake, channelDigits_eq_solid_iff,
    beq_iff_eq]
  split <;> rfl

/-- **A colour is printed** as the digits that spell it, in upper case and without an alpha channel
of 255. -/
theorem text_eq {digits : List Char} {c : Colour} (hlength : digits.length = 6 ∨ digits.length = 8)
    (hdigits : ∀ d ∈ digits, IsHexDigit d)
    (hvalues : c.channels.map UInt8.toNat = pairValues digits ++ givenAlpha digits) :
    c.text = '#' :: dropSolid (digits.map Char.toUpper) := by
  rw [text_eq_dropSolid]
  rcases hlength with hsix | height
  · -- the alpha channel is not spelled, and its digits are dropped
    have hlong : c.channels.map UInt8.toNat = pairValues (digits ++ ['F', 'F']) := by
      obtain ⟨d₁, d₂, d₃, d₄, d₅, d₆, rfl⟩ := exists_of_length_six hsix
      exact hvalues
    have hhex : ∀ d ∈ digits ++ ['F', 'F'], IsHexDigit d := by
      rw [List.forall_mem_append]
      exact ⟨hdigits, List.forall_mem_cons.2 ⟨by decide, List.forall_mem_singleton.2 (by decide)⟩⟩
    rw [flatMap_channelDigits hhex (by rw [List.length_append, hsix]; rfl) hlong,
      List.map_append]
    have hupper : (digits.map Char.toUpper).length = 6 := by rw [List.length_map, hsix]
    have hnone : (digits.map Char.toUpper).drop 6 = [] :=
      List.drop_of_length_le (Nat.le_of_eq hupper)
    rw [dropSolid, dropSolid, List.drop_left' hupper, List.take_left' hupper, hnone,
      if_pos (by decide), if_neg (by decide)]
  · have heven : digits.length % 2 = 0 := by rw [height]
    have hgiven : givenAlpha digits = [] := if_neg (by omega)
    rw [hgiven, List.append_nil] at hvalues
    rw [flatMap_channelDigits hdigits heven hvalues]

/-- **A printed colour is read back.** -/
theorem read_text (c : Colour) : read c.text = some c := by
  rw [read_eq_some_iff]
  obtain ⟨r, g, b, a⟩ := c
  rw [text]
  split
  · next hsolid =>
    obtain rfl : a = 255 := by simpa [isSolid] using hsolid
    obtain ⟨hdigits, hlength, hvalues⟩ := pairValues_flatMap_channelDigits [r, g, b]
    have hgiven : givenAlpha ([r, g, b].flatMap channelDigits) = [255] := if_pos hlength
    refine ⟨_, ⟨.inr rfl, .inl hlength, hdigits⟩, ?_⟩
    rw [hvalues, hgiven]
    rfl
  · obtain ⟨hdigits, hlength, hvalues⟩ := pairValues_flatMap_channelDigits [r, g, b, a]
    have height : ([r, g, b, a].flatMap channelDigits).length = 8 := hlength
    have hgiven : givenAlpha ([r, g, b, a].flatMap channelDigits) = [] :=
      if_neg (by rw [height]; decide)
    refine ⟨_, ⟨.inr rfl, .inr height, hdigits⟩, ?_⟩
    rw [channels, hvalues, hgiven, List.append_nil]

/-- Every spelling is read. -/
theorem Spells.exists_read_eq {text digits : List Char} (h : Spells text digits) :
    ∃ c, read text = some c := by
  have hchannel : ∀ {high low}, IsHexDigit high → IsHexDigit low →
      ∃ channel, channel? high low = some channel := fun hhigh hlow ↦
    ⟨_, by rw [channel?, hexDigit?_of_isHexDigit hhigh, hexDigit?_of_isHexDigit hlow]; rfl⟩
  have hdigits := h.digits
  rw [read_eq, h.dropHash_eq]
  rcases h.length with hsix | height
  · obtain ⟨d₁, d₂, d₃, d₄, d₅, d₆, rfl⟩ := exists_of_length_six hsix
    simp only [List.forall_mem_cons] at hdigits
    obtain ⟨h₁, h₂, h₃, h₄, h₅, h₆, -⟩ := hdigits
    obtain ⟨r, hr⟩ := hchannel h₁ h₂
    obtain ⟨g, hg⟩ := hchannel h₃ h₄
    obtain ⟨b, hb⟩ := hchannel h₅ h₆
    exact ⟨solid r g b, by rw [ofDigits?, hr, hg, hb]; rfl⟩
  · obtain ⟨d₁, d₂, d₃, d₄, d₅, d₆, d₇, d₈, rfl⟩ := exists_of_length_eight height
    simp only [List.forall_mem_cons] at hdigits
    obtain ⟨h₁, h₂, h₃, h₄, h₅, h₆, h₇, h₈, -⟩ := hdigits
    obtain ⟨r, hr⟩ := hchannel h₁ h₂
    obtain ⟨g, hg⟩ := hchannel h₃ h₄
    obtain ⟨b, hb⟩ := hchannel h₅ h₆
    obtain ⟨a, ha⟩ := hchannel h₇ h₈
    exact ⟨⟨r, g, b, a⟩, by rw [ofDigits?, hr, hg, hb, ha]; rfl⟩

/-! ### Reading by byte offsets -/

/-- Byte offsets at which a text cannot be cut: one of them lies inside a character or behind the
end, or they are the wrong way around. -/
structure BadCut where
  start : Nat
  stop : Nat

/-- The text behind its first bytes, if these are whole characters. -/
def dropBytes? : Nat → List Char → Option (List Char)
  | 0, text => some text
  | _ + 1, [] => none
  | n + 1, c :: rest => if c.utf8Size ≤ n + 1 then dropBytes? (n + 1 - c.utf8Size) rest else none

/-- The first bytes of a text, if these are whole characters. -/
def takeBytes? : Nat → List Char → Option (List Char)
  | 0, _ => some []
  | _ + 1, [] => none
  | n + 1, c :: rest =>
    if c.utf8Size ≤ n + 1 then (takeBytes? (n + 1 - c.utf8Size) rest).map (c :: ·) else none

/-- The text between two byte offsets. -/
def cut (start stop : Nat) (text : List Char) : Except BadCut (List Char) :=
  match (dropBytes? start text).bind (takeBytes? (stop - start)) with
  | some part => if start ≤ stop then .ok part else .error ⟨start, stop⟩
  | none => .error ⟨start, stop⟩

/-- The byte that hexadecimal digits stand for: there has to be one, no other characters, and the
number has to be small enough. -/
def hexByte? (digits : List Char) : Option UInt8 :=
  let value := digits.foldl (fun n d ↦ 16 * n + digitValue d) 0
  if digits ≠ [] ∧ digits.all (fun d ↦ decide (IsHexDigit d)) = true ∧ value < 256 then
    some (UInt8.ofNat value)
  else none

/-- The channel between two byte offsets. -/
def channelAt (start stop : Nat) (text : List Char) : OptionT (Except BadCut) UInt8 :=
  .mk ((cut start stop text).map hexByte?)

/-- Reads a colour by cutting its text at byte offsets, once no other characters than ASCII are left
in it. -/
def readByOffsets (text : List Char) : Except BadCut (Option Colour) :=
  let digits := dropHash text
  if digits.all fun d ↦ decide (d.toNat < 128) then
    match Text.byteLength digits with
    | 6 => OptionT.run do
      return solid (← channelAt 0 2 digits) (← channelAt 2 4 digits) (← channelAt 4 6 digits)
    | 8 => OptionT.run do
      return ⟨← channelAt 0 2 digits, ← channelAt 2 4 digits, ← channelAt 4 6 digits,
        ← channelAt 6 8 digits⟩
    | _ => .ok none
  else .ok none

theorem utf8Size_eq_one {c : Char} (h : c.toNat < 128) : c.utf8Size = 1 :=
  Char.utf8Size_eq_one_iff.2 (UInt32.le_iff_toNat_le.2 (Nat.le_of_lt_succ h))

section Ascii

variable {text : List Char}

/-- A text of ASCII characters has as many bytes as characters. -/
theorem byteLength_of_ascii (h : ∀ c ∈ text, c.toNat < 128) :
    Text.byteLength text = text.length := by
  induction text with
  | nil => rfl
  | cons c rest ih =>
    rw [List.forall_mem_cons] at h
    rw [Text.byteLength_cons, utf8Size_eq_one h.1, ih h.2, List.length_cons, Nat.add_comm]

/-- Where every character is one byte long, an offset within the text is no place inside a
character. -/
theorem parts_of_ascii (h : ∀ c ∈ text, c.toNat < 128) {n : Nat} (hn : n ≤ text.length) :
    takeBytes? n text = some (text.take n) ∧ dropBytes? n text = some (text.drop n) := by
  induction text generalizing n with
  | nil => cases n with
    | zero => exact ⟨rfl, rfl⟩
    | succ n => exact absurd hn (Nat.not_succ_le_zero n)
  | cons c rest ih =>
    rw [List.forall_mem_cons] at h
    cases n with
    | zero => exact ⟨rfl, rfl⟩
    | succ n =>
      obtain ⟨htake, hdrop⟩ := ih h.2 (Nat.le_of_succ_le_succ hn)
      rw [takeBytes?, dropBytes?, utf8Size_eq_one h.1, if_pos (Nat.le_add_left 1 n),
        if_pos (Nat.le_add_left 1 n), Nat.add_sub_cancel, htake, hdrop]
      exact ⟨rfl, rfl⟩

/-- So offsets count characters. -/
theorem cut_of_ascii (h : ∀ c ∈ text, c.toNat < 128) {start stop : Nat} (hstart : start ≤ stop)
    (hstop : stop ≤ text.length) :
    cut start stop text = .ok ((text.drop start).take (stop - start)) := by
  have hrest : ∀ c ∈ text.drop start, c.toNat < 128 := fun c hc ↦ h c (List.mem_of_mem_drop hc)
  have hlength : stop - start ≤ (text.drop start).length := by
    rw [List.length_drop]
    omega
  rw [cut, (parts_of_ascii h (Nat.le_trans hstart hstop)).2, Option.bind_some,
    (parts_of_ascii hrest hlength).1]
  exact if_pos hstart

end Ascii

/-- Reading a pair as a number is reading its digits. -/
theorem hexByte?_pair (high low : Char) : hexByte? [high, low] = channel? high low := by
  by_cases h : IsHexDigit high ∧ IsHexDigit low
  · obtain ⟨hhigh, hlow⟩ := h
    have := digitValue_lt hhigh
    have := digitValue_lt hlow
    have hall : [high, low].all (fun d ↦ decide (IsHexDigit d)) = true :=
      List.all_eq_true.2 <| List.forall_mem_cons.2
        ⟨decide_eq_true hhigh, List.forall_mem_singleton.2 (decide_eq_true hlow)⟩
    have hsmall : 16 * (16 * 0 + digitValue high) + digitValue low < 256 := by omega
    rw [channel?, hexDigit?_of_isHexDigit hhigh, hexDigit?_of_isHexDigit hlow]
    refine (if_pos ⟨List.cons_ne_nil _ _, hall, hsmall⟩).trans ?_
    rw [List.foldl_cons, List.foldl_cons, List.foldl_nil, Nat.mul_zero, Nat.zero_add]
    rfl
  · have hnone : channel? high low = none := by
      rw [Option.eq_none_iff_forall_ne_some]
      intro channel hchannel
      obtain ⟨hhigh, hlow, -⟩ := channel?_eq_some_iff.1 hchannel
      exact h ⟨hhigh, hlow⟩
    rw [hnone]
    refine if_neg fun ⟨_, hall, _⟩ ↦ h ?_
    obtain ⟨hhigh, hlow⟩ := List.forall_mem_cons.1 (List.all_eq_true.1 hall)
    exact ⟨of_decide_eq_true hhigh, of_decide_eq_true (hlow low List.mem_cons_self)⟩

/-- Two digits cut out of ASCII text. -/
theorem channelAt_of_ascii {text rest : List Char} {high low : Char} (before : List Char)
    (h : ∀ c ∈ text, c.toNat < 128) (htext : text = before ++ high :: low :: rest) :
    channelAt before.length (before.length + 2) text = .mk (.ok (channel? high low)) := by
  have hlength : before.length + 2 ≤ text.length := by
    simp [htext]
  have hpart : (text.drop before.length).take (before.length + 2 - before.length)
      = [high, low] := by
    rw [htext, List.drop_left, Nat.add_sub_cancel_left]
    rfl
  rw [channelAt, cut_of_ascii h (Nat.le_add_right _ _) hlength, hpart, ← hexByte?_pair]
  rfl

/-- **No cut fails**, and cutting reads what is read digit by digit. -/
theorem readByOffsets_eq (text : List Char) : readByOffsets text = .ok (read text) := by
  rw [readByOffsets, read_eq]
  generalize dropHash text = digits
  split
  · next hall =>
    have hascii : ∀ d ∈ digits, d.toNat < 128 := fun d hd ↦
      of_decide_eq_true (List.all_eq_true.1 hall d hd)
    rw [byteLength_of_ascii hascii]
    split
    · next hsix =>
      obtain ⟨d₁, d₂, d₃, d₄, d₅, d₆, rfl⟩ := exists_of_length_six hsix
      have hr := channelAt_of_ascii [] hascii rfl
      have hg := channelAt_of_ascii [d₁, d₂] hascii rfl
      have hb := channelAt_of_ascii [d₁, d₂, d₃, d₄] hascii rfl
      simp only [List.length_cons, List.length_nil, Nat.zero_add, Nat.reduceAdd] at hr hg hb
      rw [hr, hg, hb, ofDigits?]
      cases channel? d₁ d₂ <;> cases channel? d₃ d₄ <;> cases channel? d₅ d₆ <;> rfl
    · next height =>
      obtain ⟨d₁, d₂, d₃, d₄, d₅, d₆, d₇, d₈, rfl⟩ := exists_of_length_eight height
      have hr := channelAt_of_ascii [] hascii rfl
      have hg := channelAt_of_ascii [d₁, d₂] hascii rfl
      have hb := channelAt_of_ascii [d₁, d₂, d₃, d₄] hascii rfl
      have ha := channelAt_of_ascii [d₁, d₂, d₃, d₄, d₅, d₆] hascii rfl
      simp only [List.length_cons, List.length_nil, Nat.zero_add, Nat.reduceAdd] at hr hg hb ha
      rw [hr, hg, hb, ha, ofDigits?]
      cases channel? d₁ d₂ <;> cases channel? d₃ d₄ <;> cases channel? d₅ d₆ <;>
        cases channel? d₇ d₈ <;> rfl
    · next hsix height =>
      have hnone : ofDigits? digits = none := by
        rw [Option.eq_none_iff_forall_ne_some]
        intro c hc
        obtain ⟨hlength, -⟩ := ofDigits?_eq_some_iff.1 hc
        exact hlength.elim hsix height
      rw [hnone]
  · next hother =>
    have hnone : ofDigits? digits = none := by
      rw [Option.eq_none_iff_forall_ne_some]
      intro c hc
      obtain ⟨-, hdigits, -⟩ := ofDigits?_eq_some_iff.1 hc
      exact hother (List.all_eq_true.2 fun d hd ↦ decide_eq_true (hdigits d hd).toNat_lt)
    rw [hnone]

/-- **The texts of colours.** Cutting at byte offsets never fails. A text is a colour iff it is six
or eight hexadecimal digits with at most one `#` in front; then the channels are the pairs of
digits, the alpha channel being 255 if it is not given, and the colour is printed as the digits in
upper case, without an alpha channel of 255. Every colour is read back from what is printed. -/
theorem read_spellings (text : List Char) :
    readByOffsets text = .ok (read text) ∧
      ((∃ c, read text = some c) ↔ ∃ digits, Spells text digits) ∧
      (∀ digits c, Spells text digits → read text = some c →
        c.channels.map UInt8.toNat = pairValues digits ++ givenAlpha digits ∧
          c.text = '#' :: dropSolid (digits.map Char.toUpper)) ∧
      ∀ c : Colour, read c.text = some c := by
  refine ⟨readByOffsets_eq text, ⟨?_, fun ⟨digits, h⟩ ↦ h.exists_read_eq⟩, ?_, read_text⟩
  · rintro ⟨c, hc⟩
    obtain ⟨digits, hspells, -⟩ := read_eq_some_iff.1 hc
    exact ⟨digits, hspells⟩
  · intro digits c h hc
    obtain ⟨digits', h', hvalues⟩ := read_eq_some_iff.1 hc
    obtain rfl : digits' = digits := h'.dropHash_eq.symm.trans h.dropHash_eq
    exact ⟨hvalues, text_eq h.length h.digits hvalues⟩

end ModContent.Colour
