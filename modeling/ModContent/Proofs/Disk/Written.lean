import ModContent.Disk.Basic
import ModContent.Proofs.Outcome

/-!
# Files that were written

A file that is written can be read at the path it was written to (`readText_of_writeText`), and at
every other path there is a directory if there was one before (`isDirectory_put`). Both come from
what one step on a path can do (`Disk.Leads`): a new file adds only the step to itself, from which
no step leads on.

A save writes the file, or it has no place for it and changes nothing, or the device breaks it off
(`Disk.save_cases`). Of a write that is broken off the first bytes are left in the file, in place of
all that it held before (`Disk.BrokenOff`).
-/

namespace ModContent

/-- A text is the content of its own bytes. -/
theorem fromUTF8?_toUTF8 (text : String) : String.fromUTF8? text.toUTF8 = some text :=
  dif_pos text.isValidUTF8

namespace Disk

variable {d d' : Disk} {place outer inner target : DiskLocation} {path text : String}
  {bytes : ByteArray} {parts : List (List Char)} {part name : List Char}

/-! ### Steps on a path -/

theorem directoryAt_eq_ok_iff : d.directoryAt place = .ok () ↔ d.get? place = some .directory := by
  rw [directoryAt]
  split <;> simp_all

theorem isDirectory_iff : d.isDirectory path = true ↔
    ∃ place, d.locate path = .ok place ∧ d.get? place = some .directory := by
  rw [isDirectory, entry?]
  cases d.locate path with
  | error e => simp
  | ok place =>
    simp only [Except.ok.injEq, exists_eq_left']
    split <;> simp_all

theorem isFile_iff : d.isFile path = true ↔
    ∃ place bytes, d.locate path = .ok place ∧ d.get? place = some (.file bytes) := by
  rw [isFile, entry?]
  cases d.locate path with
  | error e => simp
  | ok place =>
    simp only [Except.ok.injEq, exists_and_left, exists_eq_left']
    split <;> simp_all

theorem isFile_of_readText (h : d.readText path = .ok text) : d.isFile path = true := by
  obtain ⟨bytes, hbytes, -⟩ := bind_eq_ok_iff.1 h
  obtain ⟨place, hplace, hbytes⟩ := bind_eq_ok_iff.1 hbytes
  split at hbytes
  · next hfile => exact isFile_iff.2 ⟨place, _, hplace, hfile⟩
  · cases hbytes
  · cases hbytes

/-- One step on a path: to the directory itself, to the one around it, or to an entry in it. -/
inductive Leads (d : Disk) (place : DiskLocation) : List Char → DiskLocation → Prop
  | here {part : List Char} : d.get? place = some .directory → part = [] ∨ part = ['.'] →
    Leads d place part place
  | up : d.get? place = some .directory → Leads d place ['.', '.'] place.tail
  | into {name : List Char} : d.get? place = some .directory → name ≠ [] → name ≠ ['.'] →
    name ≠ ['.', '.'] → checkName name = .ok () → d.get? (String.ofList name :: place) ≠ none →
    Leads d place name (String.ofList name :: place)

theorem Leads.directory (h : d.Leads place part inner) : d.get? place = some .directory := by
  cases h <;> assumption

/-- A path is followed step by step. -/
theorem walk_cons_eq_ok_iff : d.walk place (part :: parts) = .ok outer ↔
    ∃ inner, d.Leads place part inner ∧ d.walk inner parts = .ok outer := by
  rw [walk]
  constructor
  · intro h
    obtain ⟨_, hdirectory, h⟩ := bind_eq_ok_iff.1 h
    rw [directoryAt_eq_ok_iff] at hdirectory
    split at h
    · next hhere => exact ⟨place, .here hdirectory (by simpa using hhere), h⟩
    · next hhere =>
      rw [Bool.or_eq_true, decide_eq_true_eq, decide_eq_true_eq, not_or] at hhere
      split at h
      · next hup => exact ⟨place.tail, hup ▸ .up hdirectory, h⟩
      · next hup =>
        obtain ⟨_, hname, h⟩ := bind_eq_ok_iff.1 h
        dsimp only at h
        split at h
        · cases h
        · next hthere =>
          rw [Option.isNone_iff_eq_none] at hthere
          exact ⟨_, .into hdirectory hhere.1 hhere.2 hup hname hthere, h⟩
  · rintro ⟨inner, hstep, h⟩
    rw [directoryAt_eq_ok_iff.2 hstep.directory]
    cases hstep with
    | here _ hpart => exact (if_pos (by simpa using hpart)).trans h
    | up _ => exact h
    | into _ hnil hdot hdots hname hthere =>
      refine (if_neg (by simp [hnil, hdot])).trans ((if_neg hdots).trans ?_)
      rw [hname]
      exact (if_neg (by simpa using hthere)).trans h

theorem walk_singleton_eq_ok_iff : d.walk place [part] = .ok outer ↔ d.Leads place part outer := by
  rw [walk_cons_eq_ok_iff]
  constructor
  · rintro ⟨inner, hstep, hrest⟩
    exact Except.ok.inj hrest ▸ hstep
  · exact fun hstep ↦ ⟨outer, hstep, rfl⟩

theorem walk_append_eq_ok_iff {rest : List (List Char)} :
    d.walk place (parts ++ rest) = .ok outer ↔
      ∃ inner, d.walk place parts = .ok inner ∧ d.walk inner rest = .ok outer := by
  induction parts generalizing place with
  | nil => simp [walk]
  | cons part parts ih =>
    simp only [List.cons_append, walk_cons_eq_ok_iff, ih]
    constructor
    · rintro ⟨next, hstep, inner, hparts, hrest⟩
      exact ⟨inner, ⟨next, hstep, hparts⟩, hrest⟩
    · rintro ⟨inner, ⟨next, hstep, hparts⟩, hrest⟩
      exact ⟨next, hstep, inner, hparts, hrest⟩

/-! ### Paths after a file was put -/

/-- A file that is written does not take the place of a directory, so nothing else changes. -/
theorem get?_put_file (h : d.get? target ≠ some .directory) (bytes : ByteArray)
    (place : DiskLocation) : (d.put target (.file bytes)).get? place =
      if place = target then some (.file bytes) else d.get? place := by
  refine get?_put d target place _ ?_
  rintro rfl
  exact h rfl

/-- A file that is put where no directory was changes no directory. -/
theorem get?_put_eq_directory_iff (h : d.get? target ≠ some .directory) (bytes : ByteArray)
    (place : DiskLocation) : (d.put target (.file bytes)).get? place = some .directory ↔
      d.get? place = some .directory := by
  rw [get?_put_file h]
  split
  · next heq => exact iff_of_false nofun (heq ▸ h)
  · exact Iff.rfl

/-- A step leads where it led before. -/
theorem Leads.put (h : d.get? target ≠ some .directory) (hstep : d.Leads place part inner) :
    (d.put target (.file bytes)).Leads place part inner := by
  have hdirectory := (get?_put_eq_directory_iff h bytes place).2 hstep.directory
  cases hstep with
  | here _ hpart => exact .here hdirectory hpart
  | up _ => exact .up hdirectory
  | into _ hnil hdot hdots hname hthere =>
    refine .into hdirectory hnil hdot hdots hname ?_
    rw [get?_put_file h]
    split
    · exact Option.some_ne_none _
    · exact hthere

/-- A step that did not lead anywhere before leads to the new file. -/
theorem Leads.of_put (h : d.get? target ≠ some .directory)
    (hstep : (d.put target (.file bytes)).Leads place part inner) :
    d.Leads place part inner ∨ inner = target := by
  have hdirectory := (get?_put_eq_directory_iff h bytes place).1 hstep.directory
  cases hstep with
  | here _ hpart => exact .inl (.here hdirectory hpart)
  | up _ => exact .inl (.up hdirectory)
  | into _ hnil hdot hdots hname hthere =>
    rw [get?_put_file h] at hthere
    split at hthere
    · next heq => exact .inr heq
    · exact .inl (.into hdirectory hnil hdot hdots hname hthere)

/-- Following a path leads to where it led before. -/
theorem walk_put (h : d.get? target ≠ some .directory) (hwalk : d.walk place parts = .ok outer) :
    (d.put target (.file bytes)).walk place parts = .ok outer := by
  induction parts generalizing place with
  | nil => exact hwalk
  | cons part parts ih =>
    obtain ⟨inner, hstep, hrest⟩ := walk_cons_eq_ok_iff.1 hwalk
    exact walk_cons_eq_ok_iff.2 ⟨inner, hstep.put h, ih hrest⟩

/-- The paths to a directory are those that led there before. -/
theorem walk_put_iff (h : d.get? target ≠ some .directory)
    (houter : d.get? outer = some .directory) :
    (d.put target (.file bytes)).walk place parts = .ok outer ↔
      d.walk place parts = .ok outer := by
  refine ⟨fun hwalk ↦ ?_, walk_put h⟩
  induction parts generalizing place with
  | nil => exact hwalk
  | cons part parts ih =>
    obtain ⟨inner, hstep, hrest⟩ := walk_cons_eq_ok_iff.1 hwalk
    have hbefore := ih hrest
    rcases hstep.of_put h with hstep | rfl
    · exact walk_cons_eq_ok_iff.2 ⟨inner, hstep, hbefore⟩
    · -- the path would have to end at the file or to lead on from it
      cases parts with
      | nil => exact absurd (Except.ok.inj hbefore ▸ houter) h
      | cons next parts =>
        obtain ⟨_, hnext, -⟩ := walk_cons_eq_ok_iff.1 hbefore
        exact absurd hnext.directory h

/-- A path leads to a directory after a file was written if it did before. -/
theorem locate_put_iff (h : d.get? target ≠ some .directory)
    (hplace : d.get? place = some .directory) :
    (d.put target (.file bytes)).locate path = .ok place ↔ d.locate path = .ok place := by
  rw [locate, locate, bind_eq_ok_iff, bind_eq_ok_iff]
  exact exists_congr fun _ ↦ and_congr_right fun _ ↦ walk_put_iff h hplace

/-- The directories stay what they were. -/
theorem isDirectory_put (h : d.get? target ≠ some .directory) (bytes : ByteArray)
    (path : String) : (d.put target (.file bytes)).isDirectory path = d.isDirectory path := by
  rw [Bool.eq_iff_iff, isDirectory_iff, isDirectory_iff]
  refine exists_congr fun place ↦ ?_
  rw [get?_put_eq_directory_iff h bytes]
  exact and_congr_left fun hplace ↦ locate_put_iff h hplace

/-! ### Places for files -/

/-- The location of a file to write: all parts of the path but the last lead to its directory, the
last is its name, and no directory is there. -/
theorem target_eq_ok (h : d.target path = .ok target) :
    ∃ parts name outer, checkPath path = .ok () ∧
      Text.splitOn '/' path.toList = parts ++ [name] ∧
      d.walk (d.startOf path) parts = .ok outer ∧ d.get? outer = some .directory ∧
      name ≠ [] ∧ name ≠ ['.'] ∧ name ≠ ['.', '.'] ∧ checkName name = .ok () ∧
      target = String.ofList name :: outer ∧ d.get? target ≠ some .directory := by
  obtain ⟨_, hpath, h⟩ := bind_eq_ok_iff.1 h
  dsimp only at h
  generalize Text.splitOn '/' path.toList = parts at h ⊢
  generalize hkept : (parts.reverse.dropWhile List.isEmpty).reverse = kept at h
  split at h
  · cases h
  · next name hlast =>
    obtain ⟨outer, hwalk, h⟩ := bind_eq_ok_iff.1 h
    obtain ⟨_, hdirectory, h⟩ := bind_eq_ok_iff.1 h
    split at h
    · cases h
    · next hkind =>
      obtain ⟨_, hname, h⟩ := bind_eq_ok_iff.1 h
      simp only [Bool.or_eq_true, decide_eq_true_eq, not_or, Nat.not_lt] at hkind
      obtain ⟨⟨hlength, hdot⟩, hdots⟩ := hkind
      -- no part was dropped, so the path does not end in a separator
      have hall : kept = parts := by
        have hsuffix := List.dropWhile_suffix (l := parts.reverse) List.isEmpty
        rw [← List.reverse_prefix, hkept, List.reverse_reverse] at hsuffix
        exact hsuffix.eq_of_length_le hlength
      have hsplit : parts = parts.dropLast ++ [name] :=
        (List.dropLast_append_getLast? name (hall ▸ hlast)).symm
      have hnonempty : name ≠ [] := by
        have hfirst := List.head?_dropWhile_not List.isEmpty parts.reverse
        rw [← List.getLast?_reverse, hkept, hlast] at hfirst
        exact fun hnil ↦ by simp [hnil] at hfirst
      rw [hall] at hwalk
      split at h
      · cases h
      · next hfree =>
        obtain rfl := Except.ok.inj h
        exact ⟨parts.dropLast, name, outer, hpath, hsplit, hwalk,
          directoryAt_eq_ok_iff.1 hdirectory, hnonempty, hdot, hdots, hname, rfl, hfree⟩

/-- Where there is a place for a file. -/
theorem target_of_walk (hpath : checkPath path = .ok ())
    (hparts : Text.splitOn '/' path.toList = parts ++ [name])
    (hwalk : d.walk (d.startOf path) parts = .ok outer) (houter : d.get? outer = some .directory)
    (hnil : name ≠ []) (hdot : name ≠ ['.']) (hdots : name ≠ ['.', '.'])
    (hname : checkName name = .ok ())
    (hfree : d.get? (String.ofList name :: outer) ≠ some .directory) :
    d.target path = .ok (String.ofList name :: outer) := by
  -- the last part is not empty, so all parts are kept
  have hkept : ((parts ++ [name]).reverse.dropWhile List.isEmpty).reverse = parts ++ [name] := by
    rw [List.reverse_concat, List.dropWhile_cons_of_neg (by simpa using hnil),
      List.reverse_cons, List.reverse_reverse]
  refine bind_eq_ok_iff.2 ⟨(), hpath, ?_⟩
  dsimp only
  rw [hparts, hkept]
  simp only [List.getLast?_concat, List.dropLast_concat, Nat.lt_irrefl, decide_false]
  refine bind_eq_ok_iff.2 ⟨outer, hwalk, bind_eq_ok_iff.2 ⟨(), directoryAt_eq_ok_iff.2 houter, ?_⟩⟩
  refine (if_neg (by simp [hdot, hdots])).trans (bind_eq_ok_iff.2 ⟨(), hname, ?_⟩)
  split
  · next hdirectory => exact absurd hdirectory hfree
  · rfl

/-- A file that was put where a file is to be written is found there. -/
theorem locate_put (h : d.target path = .ok target) (bytes : ByteArray) :
    (d.put target (.file bytes)).locate path = .ok target ∧
      (d.put target (.file bytes)).get? target = some (.file bytes) := by
  obtain ⟨parts, name, outer, hpath, hparts, hwalk, hdirectory, hnil, hdot, hdots, hname, rfl,
    hfree⟩ := target_eq_ok h
  have hthere : (d.put (String.ofList name :: outer) (.file bytes)).get?
      (String.ofList name :: outer) = some (.file bytes) := by
    rw [get?_put_file hfree, if_pos rfl]
  refine ⟨bind_eq_ok_iff.2 ⟨(), hpath, ?_⟩, hthere⟩
  rw [hparts, walk_append_eq_ok_iff]
  refine ⟨outer, walk_put hfree hwalk, walk_singleton_eq_ok_iff.2 ?_⟩
  exact .into ((get?_put_eq_directory_iff hfree bytes outer).2 hdirectory) hnil hdot hdots hname
    (hthere ▸ Option.some_ne_none _)

/-- Bytes that were written stand where the path leads. -/
theorem writeBytes_eq_ok (h : d.writeBytes path bytes = .ok d') : ∃ target,
    d.target path = .ok target ∧ d.get? target ≠ some .directory ∧
      d' = d.put target (.file bytes) := by
  obtain ⟨target, htarget, h⟩ := bind_eq_ok_iff.1 h
  obtain ⟨-, -, -, -, -, -, -, -, -, -, -, -, hfree⟩ := target_eq_ok htarget
  exact ⟨target, htarget, hfree, (Except.ok.inj h).symm⟩

/-- **A file that was written can be read.** -/
theorem readText_of_writeText (h : d.writeText path text = .ok d') :
    d'.exists? path = true ∧ d'.readText path = .ok text := by
  obtain ⟨target, htarget, -, rfl⟩ := writeBytes_eq_ok h
  obtain ⟨hlocate, hthere⟩ := locate_put htarget text.toUTF8
  refine ⟨?_, bind_eq_ok_iff.2 ⟨text.toUTF8, bind_eq_ok_iff.2 ⟨target, hlocate, ?_⟩, ?_⟩⟩
  · simp only [exists?, entry?, hlocate, hthere, Option.isSome_some]
  · rw [hthere]
  · rw [fromUTF8?_toUTF8]

/-! ### Saves -/

/-- The disk after the device broke off the writing of a text to a file, with its report. -/
inductive BrokenOff (d : Disk) (path text : String) : String → Disk → Prop
  | intro {place : DiskLocation} {fault : WriteFault} (place_eq : d.target path = .ok place)
    (fault_eq : d.fault? place text.toUTF8 = some fault) :
    BrokenOff d path text fault.report (d.put place (.file (text.toUTF8.extract 0 fault.kept)))

/-- Without faults no write is broken off. -/
theorem not_brokenOff (h : ∀ place bytes, d.fault? place bytes = none) {report : String} :
    ¬ d.BrokenOff path text report d' := by
  rintro ⟨-, hfault⟩
  cases (h _ _).symm.trans hfault

/-- The device breaks off the writing of a text to a file. -/
def BreaksOff (d : Disk) (path text : String) : Prop := ∃ report d', d.BrokenOff path text report d'

/-- What a save comes to. -/
theorem save_cases (d : Disk) (path text : String) :
    (∃ error, d.target path = .error error ∧ d.save path text = (d, .error error)) ∨
      (∃ d', d.writeText path text = .ok d' ∧ d.save path text = (d', .ok ())) ∨
      ∃ report d', d.BrokenOff path text report d' ∧
        d.save path text = (d', .error (.brokenOff report)) := by
  rw [save, writeText, writeBytes]
  cases htarget : d.target path with
  | error error => exact .inl ⟨error, rfl, rfl⟩
  | ok place =>
    dsimp only
    cases hfault : d.fault? place text.toUTF8 with
    | none => exact .inr (.inl ⟨_, rfl, rfl⟩)
    | some fault => exact .inr (.inr ⟨_, _, .intro htarget hfault, rfl⟩)

/-- When a save goes through. -/
theorem save_eq_ok_iff : (d.save path text).2 = .ok () ↔
    (∃ place, d.target path = .ok place) ∧ ¬ d.BreaksOff path text := by
  rw [save]
  cases htarget : d.target path with
  | error error => exact iff_of_false nofun fun ⟨⟨_, h⟩, _⟩ ↦ nomatch h
  | ok place =>
    dsimp only
    cases hfault : d.fault? place text.toUTF8 with
    | none =>
      refine iff_of_true rfl ⟨⟨place, rfl⟩, fun ⟨_, _, hbroken⟩ ↦ ?_⟩
      obtain ⟨htarget', hfault'⟩ := hbroken
      obtain rfl := Except.ok.inj (htarget.symm.trans htarget')
      cases hfault.symm.trans hfault'
    | some fault =>
      exact iff_of_false nofun fun ⟨_, hwhole⟩ ↦ hwhole ⟨_, _, .intro htarget hfault⟩

end Disk

end ModContent
