import ModContent.Command.Run
import ModContent.Proofs.Outcome
import ModContent.Proofs.Project.Files

/-!
# What actions do to the disk

Most parts of a command only read: they leave the disk alone, and a function of the disk says how
they end (`Console.Reads`). A command that writes does so in one step, which may fail and leave the
disk changed; a function of the disk says what it leaves and how it ends (`Console.Writes`). What is
read before that step decides what it does (`Console.decided`).
-/

namespace ModContent

namespace Console

variable {α β : Type}

/-- Two actions run one after the other, up to the first that fails. -/
theorem run_bind (x : Action α) (g : α → Action β) (c : Console) : (x >>= g).run c =
    match x.run c with
    | (.ok a, c') => (g a).run c'
    | (.error error, c') => (.error error, c') := by
  show (match x.run c with | (result, c') => ExceptT.bindCont g result c') = _
  rcases x.run c with ⟨error | a, c'⟩ <;> rfl

/-- An action that leaves the disk alone and ends as a function of it says. -/
structure Reads (action : Action α) (f : Disk → Except ContentError α) : Prop where
  outcome : ∀ c, (action.run c).1 = f c.disk
  disk : ∀ c, (action.run c).2.disk = c.disk

namespace Reads

theorem ok (a : α) : Reads (pure a) fun _ ↦ .ok a := ⟨fun _ ↦ rfl, fun _ ↦ rfl⟩

theorem throw (error : ContentError) :
    Reads (throw error : Action α) fun _ ↦ .error error := ⟨fun _ ↦ rfl, fun _ ↦ rfl⟩

theorem ofExcept (result : Except ContentError α) :
    Reads (MonadExcept.ofExcept result : Action α) fun _ ↦ result := by
  cases result with
  | ok a => exact .ok a
  | error error => exact .throw error

theorem tell (text : String) : Reads (tell text) fun _ ↦ .ok () := ⟨fun _ ↦ rfl, fun _ ↦ rfl⟩

theorem status (verb message : String) : Reads (status verb message) fun _ ↦ .ok () :=
  .tell _

theorem print (text : String) : Reads (print text) fun _ ↦ .ok () := ⟨fun _ ↦ rfl, fun _ ↦ rfl⟩

/-- An action ends as its second part, if the first ends well. -/
theorem bind {x : Action α} {g : α → Action β} {f : Disk → Except ContentError α}
    {h : α → Disk → Except ContentError β} (hx : Reads x f)
    (hg : ∀ d a, f d = .ok a → Reads (g a) (h a)) :
    Reads (x >>= g) fun d ↦ f d >>= fun a ↦ h a d := by
  refine ⟨fun c ↦ ?_, fun c ↦ ?_⟩
  · have houtcome := hx.outcome c
    have hdisk := hx.disk c
    rw [run_bind]
    rcases hx' : x.run c with ⟨error | a, c'⟩ <;> rw [hx'] at houtcome hdisk
    · rw [← houtcome]
      rfl
    · rw [← houtcome, ← hdisk]
      exact (hg c.disk a houtcome.symm).outcome c'
  · have houtcome := hx.outcome c
    have hdisk := hx.disk c
    rw [run_bind]
    rcases hx' : x.run c with ⟨error | a, c'⟩ <;> rw [hx'] at houtcome hdisk
    · exact hdisk
    · exact ((hg c.disk a houtcome.symm).disk c').trans hdisk

/-- A first part that always ends well can be left out. -/
theorem after {x : Action α} {g : α → Action β} {a : α} {f : Disk → Except ContentError β}
    (hx : Reads x fun _ ↦ .ok a) (hg : Reads (g a) f) : Reads (x >>= g) f := by
  refine bind (h := fun _ ↦ f) hx fun _ a' ha ↦ ?_
  obtain rfl := Except.ok.inj ha
  exact hg

theorem reading (f : Disk → Except ContentError α) : Reads (reading f) f :=
  ⟨fun c ↦ (ofExcept (f c.disk)).outcome c, fun c ↦ (ofExcept (f c.disk)).disk c⟩

/-- A loop whose body always ends well. -/
theorem forIn {body : β → PUnit → Action (ForInStep PUnit)}
    (hbody : ∀ b, Reads (body b PUnit.unit) fun _ ↦ .ok (.yield PUnit.unit)) (xs : List β) :
    Reads (forIn xs PUnit.unit body) fun _ ↦ .ok PUnit.unit := by
  induction xs with
  | nil => exact .ok PUnit.unit
  | cons x rest ih =>
    rw [List.forIn_cons]
    exact (hbody x).after ih

end Reads

/-- A change of the disk that does nothing. -/
def unchanged (d : Disk) : Disk × Except ContentError Unit := (d, .ok ())

/-- A change of the disk that is decided by what is read there. There is none if reading fails. -/
def decided (f : Disk → Except ContentError α) (h : α → Disk → Disk × Except ContentError Unit)
    (d : Disk) : Disk × Except ContentError Unit :=
  match f d with
  | .ok a => h a d
  | .error error => (d, .error error)

section

variable {f : Disk → Except ContentError α} {h : α → Disk → Disk × Except ContentError Unit}
  {d : Disk}

theorem decided_ok {a : α} (hf : f d = .ok a) : decided f h d = h a d := by rw [decided, hf]

theorem decided_error {error : ContentError} (hf : f d = .error error) :
    decided f h d = (d, .error error) := by rw [decided, hf]

/-- Where no change that may be decided on does anything, none is made. -/
theorem fst_decided (hh : ∀ a, (h a d).1 = d) : (decided f h d).1 = d := by
  rw [decided]
  split
  · exact hh _
  · rfl

end

/-- A change that leaves the disk alone if it fails, unless the device breaks off a write. -/
def Careful (f : Disk → Disk × Except ContentError Unit) : Prop :=
  ∀ d error, (f d).2 = .error error →
    (f d).1 = d ∨ ∃ file text report, d.BrokenOff file text report (f d).1 ∧ error = .io file report

namespace Careful

theorem unchanged : Careful unchanged := fun _ _ h ↦ nomatch h

/-- An id file is written with care: what fails before the write leaves the disk alone. -/
theorem writeTo [Format IdFile] (f : IdFile) (path : String) : Careful (f.writeTo · path) := by
  intro d error h
  dsimp only at h ⊢
  obtain ⟨_, -, hwritten⟩ | ⟨_, -, hwritten⟩ | ⟨report, d', hbroken, hwritten⟩ :=
    f.writeTo_cases d path
  · exact .inl (congrArg Prod.fst hwritten)
  · rw [hwritten] at h
    cases h
  · rw [hwritten] at h ⊢
    exact .inr ⟨path, _, report, hbroken, (Except.error.inj h).symm⟩

/-- A change that is decided by what is read is careful if every change to decide on is. -/
theorem decided {f : Disk → Except ContentError α}
    {h : α → Disk → Disk × Except ContentError Unit} (hh : ∀ a, Careful (h a)) :
    Careful (decided f h) := by
  intro d error herror
  rw [Console.decided] at herror ⊢
  split at herror
  · exact hh _ d error herror
  · exact .inl rfl

end Careful

/-- An action that changes the disk and ends as a function of the disk says. -/
structure Writes (action : Action Unit) (f : Disk → Disk × Except ContentError Unit) : Prop where
  outcome : ∀ c, (action.run c).1 = (f c.disk).2
  disk : ∀ c, (action.run c).2.disk = (f c.disk).1

namespace Writes

variable {y : Action Unit} {g : Unit → Action Unit} {f : Disk → Disk × Except ContentError Unit}

/-- An action that only reads changes nothing. -/
theorem of_reads (h : Reads y fun _ ↦ .ok ()) : Writes y unchanged := ⟨h.outcome, h.disk⟩

theorem writing (f : Disk → Disk × Except ContentError Unit) : Writes (writing f) f := by
  refine ⟨fun c ↦ ?_, fun c ↦ ?_⟩
  · exact (Reads.ofExcept (f c.disk).2).outcome { c with disk := (f c.disk).1 }
  · exact (Reads.ofExcept (f c.disk).2).disk { c with disk := (f c.disk).1 }

/-- What is read first decides what is written. -/
theorem bind {x : Action α} {g : α → Action Unit} {f : Disk → Except ContentError α}
    {h : α → Disk → Disk × Except ContentError Unit} (hx : Reads x f)
    (hg : ∀ d a, f d = .ok a → Writes (g a) (h a)) : Writes (x >>= g) (decided f h) := by
  refine ⟨fun c ↦ ?_, fun c ↦ ?_⟩
  all_goals
    have houtcome := hx.outcome c
    have hdisk := hx.disk c
    rw [run_bind]
    rcases hx' : x.run c with ⟨error | a, c'⟩ <;> rw [hx'] at houtcome hdisk
  · rw [decided_error houtcome.symm]
  · rw [decided_ok houtcome.symm, ← hdisk]
    exact (hg c.disk a houtcome.symm).outcome c'
  · rw [decided_error houtcome.symm]
    exact hdisk
  · rw [decided_ok houtcome.symm, ← hdisk]
    exact (hg c.disk a houtcome.symm).disk c'

/-- What an action writes may depend on the disk that it finds. -/
theorem getThe_bind {g : Console → Action Unit}
    (hg : ∀ c, ∃ h, Writes (g c) h ∧ h c.disk = f c.disk) : Writes (getThe Console >>= g) f := by
  refine ⟨fun c ↦ ?_, fun c ↦ ?_⟩
  all_goals
    obtain ⟨h, hwrites, hfound⟩ := hg c
    rw [← hfound]
  · exact hwrites.outcome c
  · exact hwrites.disk c

/-- A first part that always ends well can be left out. -/
theorem after {x : Action α} {g : α → Action Unit} {a : α} (hx : Reads x fun _ ↦ .ok a)
    (hg : Writes (g a) f) : Writes (x >>= g) f := by
  refine bind (h := fun _ ↦ f) hx fun _ a' ha ↦ ?_
  obtain rfl := Except.ok.inj ha
  exact hg

/-- A last part that always ends well can be left out. -/
theorem before (hy : Writes y f) (hg : Reads (g ()) fun _ ↦ .ok ()) : Writes (y >>= g) f := by
  refine ⟨fun c ↦ ?_, fun c ↦ ?_⟩
  all_goals
    have houtcome := hy.outcome c
    have hdisk := hy.disk c
    rw [run_bind]
    rcases hy' : y.run c with ⟨error | _, c'⟩ <;> rw [hy'] at houtcome hdisk
  · exact houtcome
  · exact (hg.outcome c').trans houtcome
  · exact hdisk
  · exact (hg.disk c').trans hdisk

end Writes

end Console

namespace Command

open Console

variable [Format Manifest]

/-- How a request ends, and the disk after it. -/
theorem runOn_of_writes [Format IdFile] (request : Request)
    {f : Disk → Disk × Except ContentError Unit} (h : Writes (run request) f) (d : Disk) :
    (runOn d request).2 = (f d).2 ∧ (runOn d request).1.disk = (f d).1 :=
  ⟨h.outcome (Console.start d), h.disk (Console.start d)⟩

/-- The layout and the packages of a project as they are read from a disk. -/
def packagesOn (d : Disk) (path : String) : Except ContentError (Layout × List Package) := do
  let layout ← discover d path
  return (layout, ← layout.readPackages d)

/-- A project as it is read from a disk and loaded. -/
def projectOn (d : Disk) (path : String) : Except ContentError Project := do
  let (layout, packages) ← packagesOn d path
  return ⟨layout, ← load packages⟩

/-- Reading a project is a function of the disk; the lines that report on it are left out. -/
theorem reads_readProject (path : String) : Reads (readProject path) (packagesOn · path) := by
  refine (Reads.status _ _).after <| (Reads.reading _).bind fun _ layout _ ↦
    (Reads.reading _).bind fun _ packages _ ↦ ?_
  exact (Reads.forIn (fun _ ↦ (Reads.status _ _).after
    (Reads.ok (ForInStep.yield PUnit.unit))) packages).after (.ok _)

theorem reads_loadProject (path : String) : Reads (loadProject path) (projectOn · path) :=
  (reads_readProject path).bind fun _ _ _ ↦ (Reads.ofExcept _).bind fun _ _ _ ↦ .ok _

/-! ### Where a project was found -/

/-- A project is found where it was looked for. -/
theorem root_of_discover {d : Disk} {path : String} {layout : Layout}
    (h : discover d path = .ok layout) : layout.root = path := by
  rw [discover] at h
  split at h
  · obtain ⟨manifest, -, h⟩ := bind_eq_ok_iff.1 h
    obtain rfl := Except.ok.inj h
    rfl
  · obtain rfl := Except.ok.inj h
    rfl

/-- A project that loads has the layout that discovery finds. -/
theorem discover_of_projectOn {d : Disk} {path : String} {project : Project}
    (h : projectOn d path = .ok project) : discover d path = .ok project.layout := by
  obtain ⟨⟨layout, packages⟩, hpackages, h⟩ := bind_eq_ok_iff.1 h
  obtain ⟨loaded, -, h⟩ := bind_eq_ok_iff.1 h
  obtain rfl := Except.ok.inj h
  obtain ⟨found, hfound, h⟩ := bind_eq_ok_iff.1 hpackages
  obtain ⟨read, -, h⟩ := bind_eq_ok_iff.1 h
  obtain ⟨rfl, -⟩ := Prod.mk.inj (Except.ok.inj h)
  exact hfound

end Command

end ModContent
