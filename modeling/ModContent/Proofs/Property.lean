import ModContent.Proofs.Outcome
import ModContent.Property

/-!
# Reads of edited properties

A property is made with values or waiting for some, and then edited (`Property.Edit`). However it
was edited, its readings are absent or those of its current values (`Reached.fresh`): no edit looks
at the readings that were there. So a typed access never sees an old reading. Either all of them
report that there are no readings (`Property.Unread`), or all of them speak of the current values
(`Property.Current`); see `reads_are_current`.

Looking up an entry of the values or of a column never leaves its list. This is said of the accesses
written with look-ups that fail there (`entryAt`); they do not fail, and do what the accesses do
(`Property.InRange`).
-/

namespace ModContent

/-- No entry of a list is of a kind, or there is a first one that is. -/
theorem exists_first {β : Type} (kind : β → Bool) (list : List β) :
    (∀ b ∈ list, kind b = false) ∨
      ∃ before b after, list = before ++ b :: after ∧ kind b = true ∧
        ∀ c ∈ before, kind c = false := by
  cases hfind : list.find? kind with
  | none => exact .inl fun b hb ↦ by simpa using List.find?_eq_none.1 hfind b hb
  | some b =>
    obtain ⟨hb, before, after, heq, hbefore⟩ := List.find?_eq_some_iff_append.1 hfind
    exact .inr ⟨before, b, after, heq, hb, fun c hc ↦ by simpa using hbefore c hc⟩

namespace Property

/-! ### Edits -/

/-- A change of a property. Its key stays. -/
inductive Edit where
  | setValues (values : List String)
  | push (value : String)
  | removeAll (value : String)
  | recompute
  | assign (values : List String)
  deriving DecidableEq, Repr

/-- The property after a change. -/
def Edit.apply (p : Property) : Edit → Property
  | setValues values => p.setValues values
  | push value => p.push value
  | removeAll value => p.removeAll value
  | recompute => p.recompute
  | assign values => p.assign values

@[simp] theorem Edit.key_apply (e : Edit) (p : Property) : (e.apply p).key = p.key := by
  cases e <;> rfl

/-- A change drops the readings or makes them anew. -/
theorem Edit.fresh_apply (e : Edit) (p : Property) : (e.apply p).Fresh := by
  cases e with
  | setValues values => exact p.fresh_setValues values
  | push value => exact p.fresh_setValues _
  | removeAll value => exact p.fresh_setValues _
  | recompute => exact p.fresh_recompute
  | assign values => exact p.fresh_assign values

/-- A property made with values or waiting for some, and changed any number of times since. -/
inductive Reached : Property → Prop
  | of (key : Key) (values : List String) : Reached (Property.of key values)
  | pending (key : Key) : Reached (Property.pending key)
  | edit {p : Property} (h : Reached p) (e : Edit) : Reached (e.apply p)

/-- What edits lead to is computed from its values or not at all. -/
theorem Reached.fresh {p : Property} (h : p.Reached) : p.Fresh := by
  cases h with
  | of key values => exact fresh_of key values
  | pending key => exact fresh_pending key
  | edit h e => exact e.fresh_apply _

/-! ### What the accesses give -/

section Typed

variable (α : Type) [Readable α]

/-- What is known of a text that was read. -/
def readText (text : String) : Reading α :=
  match Readable.read text with
  | some a => .value a
  | none => .unreadable

/-- There are no readings, and every access under the type says so. -/
structure Unread (p : Property) : Prop where
  derived : p.derived = none
  reading : ∀ i < p.values.length, p.readingAt α i = some .notComputed
  first : (p.first : Except ValueError α) = .error (.notComputed p.key.text (Readable.kind α))
  firstOr : ∀ fallback : α,
    p.firstOr fallback = .error (.notComputed p.key.text (Readable.kind α))
  all : (p.all : Except ValueError (List α)) = .error (.notComputed p.key.text (Readable.kind α))
  allOr : ∀ fallback : α, p.allOr fallback = .error (.notComputed p.key.text (Readable.kind α))

/-- Every access under the type gives the readings of the current values. -/
structure Current (p : Property) : Prop where
  derived : p.derived = some (Readings.of p.values)
  reading : ∀ i (h : i < p.values.length), p.readingAt α i = some (readText α p.values[i])
  /-- The first value decides; without values that is what is reported. -/
  first_nil : p.values = [] →
    (p.first : Except ValueError α) = .error (.missing p.key.text 0)
  first_cons : ∀ text rest, p.values = text :: rest →
    (p.first : Except ValueError α) =
      match Readable.read text with
      | some a => .ok a
      | none => .error (.unreadable p.key.text 0 text (Readable.kind α))
  firstOr : ∀ fallback : α,
    p.firstOr fallback = .ok ((p.values.head?.bind Readable.read).getD fallback)
  /-- All values are given if they can all be read. -/
  all_ok : ∀ as : List α, p.all = .ok as ↔ p.values.map Readable.read = as.map some
  /-- The first value that cannot be read is reported, with the number of those before it. -/
  all_error : ∀ e, (p.all : Except ValueError (List α)) = .error e ↔
    ∃ before text rest, p.values = before ++ text :: rest ∧
      (∀ good ∈ before, (Readable.read good : Option α).isSome) ∧
      (Readable.read text : Option α) = none ∧
      e = .unreadable p.key.text before.length text (Readable.kind α)
  allOr : ∀ fallback : α,
    p.allOr fallback = .ok (p.values.map fun text ↦ (Readable.read text).getD fallback)

variable {α} {p : Property}

/-- Without readings nothing is read. -/
theorem unread_of_derived (h : p.derived = none) : p.Unread α := by
  have hcolumn : (p.column : Except ValueError (List (Option α))) =
      .error (.notComputed p.key.text (Readable.kind α)) := by
    rw [column, h]
  constructor
  case derived => exact h
  case reading =>
    intro i hi
    rw [readingAt, if_pos hi, h]
  case first =>
    rw [first, hcolumn]
    rfl
  case firstOr =>
    intro fallback
    rw [firstOr, hcolumn]
    rfl
  case all =>
    rw [all, hcolumn]
    rfl
  case allOr =>
    intro fallback
    rw [allOr, hcolumn]
    rfl

/-! ### Readings of the current values -/

/-- The column of a kind has the readings of that kind. -/
theorem column_eq (h : p.derived = some (Readings.of p.values)) :
    p.column = .ok (p.values.map (Readable.read : String → Option α)) := by
  simp only [column, h, Readable.column_of]

theorem readingAt_eq (h : p.derived = some (Readings.of p.values)) {i : Nat}
    (hi : i < p.values.length) : p.readingAt α i = some (readText α p.values[i]) := by
  simp only [readingAt, if_pos hi, h, Readable.column_of, List.getElem?_map,
    List.getElem?_eq_getElem hi, Option.map_some, Option.join_some, readText]
  cases (Readable.read p.values[i] : Option α) <;> rfl

/-- The error for a value that cannot be read names the value. -/
theorem unreadableAt_eq {before rest : List String} {text : String}
    (h : p.values = before ++ text :: rest) :
    p.unreadableAt α before.length =
      .unreadable p.key.text before.length text (Readable.kind α) := by
  rw [unreadableAt, h, List.getElem?_append_right (Nat.le_refl _), Nat.sub_self]
  rfl

/-- What was read is collected on the way to the rest of a column. -/
theorem collect_append (index : Nat) (good : List α) (column : List (Option α)) :
    p.collect index (good.map some ++ column) =
      (p.collect (index + good.length) column).map (good ++ ·) := by
  induction good generalizing index with
  | nil => cases h : p.collect index column <;> simp [h, Except.map]
  | cons a good ih =>
    have hindex : index + 1 + good.length = index + (a :: good).length := by
      rw [List.length_cons]
      omega
    rw [List.map_cons, List.cons_append, collect, ih, hindex]
    cases p.collect (index + (a :: good).length) column <;> rfl

/-- All readings are those of the values, up to the first that fails. -/
theorem all_eq (h : p.derived = some (Readings.of p.values)) :
    (p.all : Except ValueError (List α)) = p.collect 0 (p.values.map Readable.read) := by
  rw [all, column_eq h]
  rfl

/-- Texts that can all be read, with what they are read as. -/
theorem exists_map_some {texts : List String}
    (h : ∀ text ∈ texts, (Readable.read text : Option α).isSome) :
    ∃ as : List α, texts.map Readable.read = as.map some := by
  induction texts with
  | nil => exact ⟨[], rfl⟩
  | cons text rest ih =>
    obtain ⟨htext, hrest⟩ := List.forall_mem_cons.1 h
    obtain ⟨a, ha⟩ := Option.isSome_iff_exists.1 htext
    obtain ⟨as, has⟩ := ih hrest
    exact ⟨a :: as, by rw [List.map_cons, List.map_cons, ha, has]⟩

/-- Where every value reads, all of them are given. -/
theorem all_of_read (h : p.derived = some (Readings.of p.values)) {as : List α}
    (has : p.values.map Readable.read = as.map some) : p.all = .ok as := by
  have hcollect := p.collect_append 0 as []
  rw [List.append_nil] at hcollect
  rw [all_eq h, has, hcollect]
  exact congrArg Except.ok (List.append_nil as)

/-- The first value that does not read is reported, with its index. -/
theorem all_of_unread (h : p.derived = some (Readings.of p.values)) {before rest : List String}
    {text : String} (hvalues : p.values = before ++ text :: rest)
    (hbefore : ∀ good ∈ before, (Readable.read good : Option α).isSome)
    (htext : (Readable.read text : Option α) = none) :
    (p.all : Except ValueError (List α)) =
      .error (.unreadable p.key.text before.length text (Readable.kind α)) := by
  obtain ⟨as, has⟩ := exists_map_some hbefore
  have hlength := congrArg List.length has
  rw [List.length_map, List.length_map] at hlength
  rw [← unreadableAt_eq hvalues, all_eq h, hvalues, List.map_append, List.map_cons, has, htext,
    collect_append, collect, Nat.zero_add, hlength]
  rfl

/-- All values are given, or the first one that cannot be read is reported. -/
theorem all_cases (α : Type) [Readable α] (h : p.derived = some (Readings.of p.values)) :
    (∃ as : List α, p.values.map Readable.read = as.map some ∧ p.all = .ok as) ∨
      ∃ before text rest, p.values = before ++ text :: rest ∧
        (∀ good ∈ before, (Readable.read good : Option α).isSome) ∧
        (Readable.read text : Option α) = none ∧
        (p.all : Except ValueError (List α)) =
          .error (.unreadable p.key.text before.length text (Readable.kind α)) := by
  have hsome : ∀ {text : String}, (Readable.read text : Option α).isNone = false →
      (Readable.read text : Option α).isSome := by
    intro text hread
    rwa [Option.isNone_eq_false_iff] at hread
  rcases exists_first (fun text ↦ (Readable.read text : Option α).isNone) p.values with
    hread | ⟨before, text, rest, heq, hbad, hgood⟩
  · obtain ⟨as, has⟩ := exists_map_some fun text htext ↦ hsome (hread text htext)
    exact .inl ⟨as, has, all_of_read h has⟩
  · have hbad := Option.isNone_iff_eq_none.1 hbad
    have hgood := fun good hmem ↦ hsome (hgood good hmem)
    exact .inr ⟨before, text, rest, heq, hgood, hbad, all_of_unread h heq hgood hbad⟩

/-- With readings every read speaks of the values that are there. -/
theorem current_of_derived (h : p.derived = some (Readings.of p.values)) : p.Current α where
  derived := h
  reading i hi := readingAt_eq h hi
  first_nil hnil := by
    rw [first, column_eq h, hnil]
    rfl
  first_cons text rest hcons := by
    have hunread := unreadableAt_eq (α := α) (show p.values = [] ++ text :: rest from hcons)
    rw [first, column_eq h, hcons, List.map_cons]
    cases (Readable.read text : Option α) with
    | some a => rfl
    | none => exact congrArg Except.error hunread
  firstOr fallback := by
    rw [firstOr, column_eq h]
    cases p.values <;> rfl
  all_ok as := by
    refine ⟨fun hall ↦ ?_, all_of_read h⟩
    rcases all_cases α h with ⟨bs, hbs, heq⟩ | ⟨before, text, rest, -, -, -, heq⟩ <;>
      rw [heq] at hall
    · rw [hbs, Except.ok.inj hall]
    · cases hall
  all_error e := by
    refine ⟨fun hall ↦ ?_, ?_⟩
    · rcases all_cases α h with ⟨bs, -, heq⟩ | ⟨before, text, rest, hvalues, hgood, hbad, heq⟩ <;>
        rw [heq] at hall
      · cases hall
      · exact ⟨before, text, rest, hvalues, hgood, hbad, (Except.error.inj hall).symm⟩
    · rintro ⟨before, text, rest, hvalues, hgood, hbad, rfl⟩
      exact all_of_unread h hvalues hgood hbad
  allOr fallback := by
    rw [allOr, column_eq h]
    exact congrArg Except.ok (List.map_map ..)

end Typed

/-! ### Look-ups in range -/

/-- The entry at an index. It fails, with the index, behind the end of the list. -/
def entryAt {β : Type} (list : List β) (index : Nat) : Except Nat β :=
  match list[index]? with
  | some b => .ok b
  | none => .error index

theorem entryAt_eq_ok {β : Type} {list : List β} {index : Nat} (h : index < list.length) :
    entryAt list index = .ok list[index] := by
  rw [entryAt, List.getElem?_eq_getElem h]

section Checked

variable (α : Type) [Readable α]

/-- `unreadableAt`, with the value looked up at the index. -/
def checkedUnreadable (p : Property) (index : Nat) : Except Nat ValueError :=
  (entryAt p.values index).map fun value ↦
    .unreadable p.key.text index value (Readable.kind α)

/-- `readingAt`, with the entry of the column looked up at the index. -/
def checkedReadingAt (p : Property) (index : Nat) : Except Nat (Option (Reading α)) :=
  if index < p.values.length then
    match p.derived with
    | none => .ok (some .notComputed)
    | some readings =>
      (entryAt (Readable.column readings : List (Option α)) index).map fun
        | some a => some (.value a)
        | none => some .unreadable
  else .ok none

variable {α}

/-- `first`, with the value that it may report looked up. -/
def checkedFirst (p : Property) : Except Nat (Except ValueError α) :=
  match (p.column : Except ValueError (List (Option α))) with
  | .error e => .ok (.error e)
  | .ok [] => .ok (.error (.missing p.key.text 0))
  | .ok (some a :: _) => .ok (.ok a)
  | .ok (none :: _) => (p.checkedUnreadable α 0).map .error

/-- `collect`, with the value that it may report looked up. -/
def checkedCollect (p : Property) : Nat → List (Option α) → Except Nat (Except ValueError (List α))
  | _, [] => .ok (.ok [])
  | index, none :: _ => (p.checkedUnreadable α index).map .error
  | index, some a :: rest => (p.checkedCollect (index + 1) rest).map fun result ↦
    result.map (a :: ·)

/-- `all`, with the value that it may report looked up. -/
def checkedAll (p : Property) : Except Nat (Except ValueError (List α)) :=
  match (p.column : Except ValueError (List (Option α))) with
  | .error e => .ok (.error e)
  | .ok column => p.checkedCollect 0 column

variable (α)

/-- No access under the type looks behind the end of the values or of a column. -/
structure InRange (p : Property) : Prop where
  reading : ∀ index, p.checkedReadingAt α index = .ok (p.readingAt α index)
  first : (p.checkedFirst : Except Nat (Except ValueError α)) = .ok p.first
  all : (p.checkedAll : Except Nat (Except ValueError (List α))) = .ok p.all

variable {α} {p : Property}

theorem checkedUnreadable_eq_ok {index : Nat} (h : index < p.values.length) :
    p.checkedUnreadable α index = .ok (p.unreadableAt α index) := by
  rw [checkedUnreadable, entryAt_eq_ok h, unreadableAt, List.getElem?_eq_getElem h]
  rfl

/-- Collecting stays in range, if the column ends where the values do. -/
theorem checkedCollect_eq_ok {index : Nat} {column : List (Option α)}
    (h : index + column.length ≤ p.values.length) :
    p.checkedCollect index column = .ok (p.collect index column) := by
  induction column generalizing index with
  | nil => rfl
  | cons reading rest ih =>
    rw [List.length_cons] at h
    cases reading with
    | none =>
      rw [checkedCollect, checkedUnreadable_eq_ok (by omega)]
      rfl
    | some a =>
      rw [checkedCollect, ih (by omega), collect]
      cases p.collect (index + 1) rest <;> rfl

/-- Looking up a reading does not leave the columns. -/
theorem checkedReadingAt_eq_ok (h : p.Fresh) (index : Nat) :
    p.checkedReadingAt α index = .ok (p.readingAt α index) := by
  rw [checkedReadingAt, readingAt]
  split
  · next hlt =>
    rcases h with hnone | hsome
    · rw [hnone]
    · -- a column is as long as the list of values
      have hlength : index < (Readable.column (Readings.of p.values) : List (Option α)).length := by
        rwa [Readable.column_of, List.length_map]
      rw [hsome]
      simp only [entryAt_eq_ok hlength, List.getElem?_eq_getElem hlength, Option.join_some]
      cases (Readable.column (Readings.of p.values) : List (Option α))[index] <;> rfl
  · rfl

theorem checkedFirst_eq_ok (h : p.Fresh) :
    (p.checkedFirst : Except Nat (Except ValueError α)) = .ok p.first := by
  rcases h with hnone | hsome
  · rw [checkedFirst, column, hnone, (unread_of_derived hnone).first]
  · rw [checkedFirst, first, column_eq hsome]
    cases hvalues : p.values with
    | nil => rfl
    | cons text rest =>
      have hpos : 0 < p.values.length := by
        rw [hvalues]
        exact Nat.succ_pos _
      rw [List.map_cons]
      cases (Readable.read text : Option α) with
      | some a => rfl
      | none => exact congrArg (Except.map Except.error) (checkedUnreadable_eq_ok hpos)

theorem checkedAll_eq_ok (h : p.Fresh) :
    (p.checkedAll : Except Nat (Except ValueError (List α))) = .ok p.all := by
  rcases h with hnone | hsome
  · rw [checkedAll, column, hnone, (unread_of_derived hnone).all]
  · rw [checkedAll, column_eq hsome, all_eq hsome]
    exact checkedCollect_eq_ok (by simp)

/-- No typed read of a property that edits lead to leaves the columns. -/
theorem Fresh.inRange (h : p.Fresh) : p.InRange α :=
  ⟨checkedReadingAt_eq_ok h, checkedFirst_eq_ok h, checkedAll_eq_ok h⟩

end Checked

/-! ### After any edits -/

/-- **Typed reads are never stale.** Of a property that was made and edited in any way, either there
are no readings and every access reports that, or every access gives the readings of the values it
has now. There is nothing at and behind the end of the values, and no look-up leaves its list. -/
theorem reads_are_current {p : Property} (h : p.Reached) (α : Type) [Readable α] :
    (p.Unread α ∨ p.Current α) ∧
    (∀ index, p.values.length ≤ index → p.readingAt α index = none) ∧ p.InRange α := by
  refine ⟨?_, fun index hle ↦ ?_, h.fresh.inRange⟩
  · rcases h.fresh with hnone | hsome
    · exact .inl (unread_of_derived hnone)
    · exact .inr (current_of_derived hsome)
  · rw [readingAt, if_neg (Nat.not_lt.2 hle)]

/-- A value is added to two others, and the readings are made again. In between there are none;
then the second value is reported as no integer, and replaced where a fallback is given. -/
theorem reads_are_current_of_pushed :
    let pushed := (Edit.push "3").apply (.of (Key.named "stat") ["1", "x"])
    let read := Edit.recompute.apply pushed
    pushed.Reached ∧ pushed.Unread Int ∧ read.Reached ∧ read.Current Int ∧ read.InRange Int ∧
      read.readingAt Int 3 = none ∧
      (read.all : Except ValueError (List Int)) = .error (.unreadable "stat" 1 "x" .int) ∧
      (read.allOr 0 : Except ValueError (List Int)) = .ok [1, 0, 3] := by
  intro pushed read
  have hpushed : pushed.Reached := .edit (.of _ _) (.push "3")
  have hread : read.Reached := .edit hpushed .recompute
  obtain ⟨hunread | hstale, -⟩ := reads_are_current hpushed Int
  · obtain ⟨habsent | hcurrent, hbehind, hrange⟩ := reads_are_current hread Int
    · exact absurd habsent.derived nofun
    · exact ⟨hpushed, hunread, hread, hcurrent, hrange, hbehind 3 (Nat.le_refl _),
        (hcurrent.all_error _).2 ⟨["1"], "x", ["3"], rfl, by decide, by decide, by decide⟩,
        hcurrent.allOr 0⟩
  · exact absurd hstale.derived nofun

end Property

end ModContent
