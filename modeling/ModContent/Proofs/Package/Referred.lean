import ModContent.Proofs.Package.Reached
import ModContent.Proofs.Reference.Failure
import ModContent.Proofs.Source.Waiting
import ModContent.Proofs.Tree.Located
import ModContent.Proofs.Tree.Properties

/-!
# References that were read

The grammar asks of a path whether it is valid, and resolving a reference reads the keys of its
path. These are two tests of one text, and they agree (`DottedPath.isValid_iff`,
`DottedPath.exists_parse_iff`). A failure calls a path malformed only if it is
(`Resolve.Fails.not_pathText`), so it never says that of a reference that was read.

And a load resolves no other references. What it scans is logged, each declaration of a log was read
(`Scan.isRead_of_mem_log`), and what waits in the queue was declared (`Content.Placed`). Hence no
load ends with a malformed path (`message_ne_of_load`).

Main statement: `places_and_properties_agree`, on the two ways to look up a property by its path.
-/

namespace ModContent

/-! ### What was read -/

/-- Some text is read as the statement, alone or as a parameter of a header. -/
inductive Statement.IsRead (s : Statement) : Prop
  | alone {text : List Char} {category : Option String}
      (read : Statement.read text category = .ok s)
  | parameter {text : List Char} {header : Header} (read : Header.read text = .ok header)
      (mem : s ∈ header.parameters)

/-- A reference that was read names a path. -/
theorem Statement.IsRead.pathText {s : Statement} (h : s.IsRead) {path : String}
    (hvalue : s.value = .reference path) : PathText path.toList := by
  have halone : ∀ {text category}, Statement.read text category = .ok s → PathText path.toList := by
    intro text category hread
    obtain ⟨own, hown, rfl⟩ := Statement.read_default_eq_ok_iff.1 hread
    obtain ⟨-, hexpressible, -⟩ := Statement.read_eq_ok_iff.1 hown
    have hreference : own.value = .reference path := hvalue
    rw [hreference] at hexpressible
    exact hexpressible.text
  cases h with
  | alone hread => exact halone hread
  | parameter hread hmem =>
    obtain ⟨-, parts, -, -, hparts⟩ := Header.read_eq_ok_iff.1 hread
    obtain ⟨part, -, hpart⟩ := exists_of_mem_mapM (mapM_eq_ok_iff.2 hparts) hmem
    exact halone hpart

/-! ### The log of a scan -/

namespace Scan

variable {locate : Nat → Location} {s : Scan} {d : Declaration}

/-- The statement at a delimiter was read. -/
theorem isRead_of_mem_flushLog (h : d ∈ s.flushLog locate) : d.statement.IsRead := by
  rw [flushLog] at h
  cases hread : Statement.read s.text none with
  | error fault =>
    rw [hread] at h
    exact absurd h List.not_mem_nil
  | ok statement =>
    rw [hread] at h
    obtain rfl := List.mem_singleton.1 h
    exact .alone hread

/-- The parameters of a header were read. -/
theorem isRead_of_mem_openLog (h : d ∈ s.openLog locate) : d.statement.IsRead := by
  rw [openLog] at h
  cases hread : Header.read s.text with
  | error fault =>
    rw [hread] at h
    exact absurd h List.not_mem_nil
  | ok header =>
    rw [hread] at h
    obtain ⟨parameter, hmem, rfl⟩ := List.mem_map.1 h
    exact .parameter hread hmem

theorem isRead_of_mem_stepLog {c : Char} (h : d ∈ s.stepLog locate c) : d.statement.IsRead := by
  rw [stepLog] at h
  split_ifs at h
  · exact isRead_of_mem_openLog h
  · exact isRead_of_mem_flushLog h
  · exact absurd h List.not_mem_nil

/-- **Each declaration of a log** was read. -/
theorem isRead_of_mem_log {text : List Char} (h : d ∈ s.log locate text) :
    d.statement.IsRead := by
  induction text generalizing s with
  | nil => exact isRead_of_mem_flushLog h
  | cons c rest ih =>
    rcases List.mem_append.1 h with hstep | hrest
    · exact isRead_of_mem_stepLog hstep
    · cases hnext : s.step locate c with
      | error failure =>
        rw [hnext] at hrest
        exact absurd hrest List.not_mem_nil
      | ok next =>
        rw [hnext] at hrest
        exact ih hrest

end Scan

namespace Content

theorem isRead_of_mem_logAll {content : Content} {sources : List NamedSource} {d : Declaration}
    (h : d ∈ content.logAll sources) : d.statement.IsRead := by
  induction sources generalizing content with
  | nil => exact absurd h List.not_mem_nil
  | cons source rest ih =>
    rcases List.mem_append.1 h with hfirst | hrest
    · exact Scan.isRead_of_mem_log hfirst
    · exact ih hrest

/-- **The queue of a package** holds paths only, whatever its files are. -/
theorem pathText_of_mem_queue {t : ContentTree} (ht : t.Linked) (diagnostics : List Diagnostic)
    (sources : List NamedSource) {r : Reference}
    (hr : r ∈ ((Content.start t diagnostics).scanAll sources).queue) : PathText r.path.toList := by
  have hlinked : (Content.start t diagnostics).tree.Linked := ht
  have hplaced := (Content.logs_scanAll hlinked sources).placed hlinked (placed_start t diagnostics)
  obtain ⟨d, hd, hvalue⟩ := hplaced.exists_mem_log hr
  exact (isRead_of_mem_logAll hd).pathText hvalue

end Content

/-! ### Loads -/

variable {location : Location} {path : String} {note : Note}

/-- A package that ends in an unresolved reference was scanned, and its queue was not resolved. -/
theorem exists_resolve_of_add {loaded : Loaded} {package : Package}
    (h : loaded.add package = .error (.reference location path note)) :
    ∃ scanned failure,
      (Content.start loaded.tree loaded.diagnostics).scanAll (package.files.map SourceFile.named) =
        scanned ∧
      (resolve scanned.tree scanned.queue).2 = .error failure ∧
      note.message = failure.fault.message := by
  rw [Loaded.add, Loading.addPackage] at h
  rcases hfiles : (Content.start loaded.tree loaded.diagnostics).addFiles package.files
    ScanStats.zero with ⟨scanned, error | stats⟩
  · rw [hfiles] at h
    obtain rfl := Except.error.inj h
    obtain ⟨_, _, hparse⟩ := Content.exists_parse_of_addFiles hfiles
    cases hparse
  · simp only [hfiles, Content.resolveAll] at h
    cases hresolve : (resolve scanned.tree scanned.queue).2 with
    | ok count =>
      rw [hresolve] at h
      cases h
    | error failure =>
      rw [hresolve] at h
      obtain ⟨-, -, rfl⟩ := ContentError.reference.inj (Except.error.inj h)
      exact ⟨scanned, failure, (Content.addFiles_of_ok hfiles).symm, hresolve, rfl⟩

/-- A package does not end with a malformed path. -/
theorem message_ne_of_add {loaded : Loaded} (ht : loaded.tree.Linked) {package : Package}
    (h : loaded.add package = .error (.reference location path note)) :
    note.message ≠ "malformed path" := by
  obtain ⟨scanned, failure, rfl, hresolve, hmessage⟩ := exists_resolve_of_add h
  obtain ⟨reached, -, hfails⟩ := fails_of_resolve hresolve
  rw [hmessage, ne_eq, ReferenceFault.message_eq_malformed_iff]
  intro hfault
  exact hfails.not_pathText hfault
    (Content.pathText_of_mem_queue ht _ _ hfails.reference_mem_queue)

/-- A path that was read has no empty segment, so no package is refused for one. -/
theorem message_ne_of_addAll {packages : List Package} {start : Loaded}
    (hstart : start.tree.Reachable)
    (h : packages.foldlM Loaded.add start = .error (.reference location path note)) :
    note.message ≠ "malformed path" := by
  induction packages generalizing start with
  | nil => cases h
  | cons package rest ih =>
    rw [List.foldlM_cons] at h
    cases hadd : start.add package with
    | ok next =>
      rw [hadd] at h
      exact ih (reachable_add hstart hadd) h
    | error error =>
      rw [hadd] at h
      obtain rfl := Except.error.inj h
      exact message_ne_of_add hstart.linked hadd

/-- **No load ends with a malformed path.** -/
theorem message_ne_of_load {packages : List Package}
    (h : load packages = .error (.reference location path note)) :
    note.message ≠ "malformed path" :=
  message_ne_of_addAll .new h

namespace ContentTree

variable {t : ContentTree}

/-- **A reference and a reader look up the same property**, in a tree that can be reached. No dead
handle is met on the way to a place. A path has a place if and only if there is a property at it
from the root, and that is the one in the slot of the node. A child is found if and only if it is
seen, with its own node, below any handle and for any key.

A text is a valid path if and only if its keys can be read. So a reference that was read never fails
with a malformed path, whatever the tree and the queue are, and no load ends with one. -/
theorem places_and_properties_agree (ht : t.Reachable) :
    (∀ path, t.locateAt path = .ok (t.locate? path) ∧
      ((∃ place, t.locate? path = some place) ↔ ∃ p, t.property? root path = some p) ∧
      ∀ id slot, t.locate? path = some (id, slot) → ∃ n p, t.node? id = some n ∧
        n.properties[slot]? = some p ∧ t.property? root path = some p) ∧
    (∀ parent key, t.searchAt key (t.childIds parent) = .ok (t.findChild? parent key) ∧
      t.child? parent key = t.findChild? parent key ∧
      ∀ child n, t.childNode? parent key = some (child, n) → t.node? child = some n) ∧
    (∀ path, DottedPath.isValid path = true ↔ ∃ p, DottedPath.parse path = some p) ∧
    (∀ s : Statement, s.IsRead → ∀ path, s.value = .reference path →
      ∀ (other : ContentTree) queue failure, (resolve other queue).2 = .error failure →
        failure.reference.path = path → failure.fault.message ≠ "malformed path") ∧
    ∀ packages location path note, load packages = .error (.reference location path note) →
      note.message ≠ "malformed path" := by
  have hlinked := ht.linked
  refine ⟨fun path ↦ ⟨hlinked.locateAt_eq_ok path, ?_, fun id slot hplace ↦ ?_⟩,
    fun parent key ↦ ⟨hlinked.sound.findChildAt parent key, t.child?_eq_findChild? parent key,
      fun child n hseen ↦ (childNode?_eq_some_iff.1 hseen).2⟩,
    fun path ↦ DottedPath.isValid_iff.trans DottedPath.exists_parse_iff.symm,
    fun s hread path hvalue other queue failure hresolve hpath ↦ ?_,
    fun packages location path note ↦ message_ne_of_load⟩
  · constructor
    · rintro ⟨place, hplace⟩
      obtain ⟨p, -, hp⟩ := hlinked.exists_property?_of_locate? hplace
      exact ⟨p, hp⟩
    · rintro ⟨p, hp⟩
      obtain ⟨place, hplace, -⟩ := hlinked.exists_locate?_of_property? hp
      exact ⟨place, hplace⟩
  · obtain ⟨p, hp, hproperty⟩ := hlinked.exists_property?_of_locate? hplace
    obtain ⟨n, hn, hslot⟩ := slot?_eq_some_iff.1 hp
    exact ⟨n, p, hn, hslot, hproperty⟩
  · obtain ⟨reached, -, hfails⟩ := fails_of_resolve hresolve
    rw [ne_eq, ReferenceFault.message_eq_malformed_iff]
    exact fun hfault ↦ hfails.not_pathText hfault (hpath ▸ hread.pathText hvalue)

/-- Two nodes of one name, the first of which was removed, and a property of the second. -/
def replacedTree : ContentTree :=
  Call.run new
    [.childOrCreate root ⟨"archer", some "hero"⟩, .childOrCreate root ⟨"archer", some "unit"⟩,
      .edit ⟨2⟩ ⟨fun n ↦ n.setProperty ⟨"hp", some "stat"⟩ ["10"], fun n ↦ n.stem_modifyOrAdd _ _ _⟩,
      .remove ⟨1⟩]

/-- A path without categories leads past the removed node, for a reference as for a reader. A
reference that was read, and one in a file that is loaded, fail for another reason than their
path. -/
theorem places_and_properties_agree_of_replaced :
    let r : Reference := ⟨root, 0, "knight.hp", Location.inline 1⟩
    let note : Note := ⟨"no node 'knight'", (ReferenceFault.noNode (.named "knight")).help⟩
    replacedTree.Reachable ∧ replacedTree.isLive ⟨1⟩ = false ∧
      replacedTree.locateAt "archer.hp" = .ok (some (⟨2⟩, 0)) ∧
      (∃ n p, replacedTree.node? ⟨2⟩ = some n ∧ n.properties[0]? = some p ∧
        replacedTree.property? root "archer.hp" = some p) ∧
      replacedTree.searchAt (.named "archer") (replacedTree.childIds root) = .ok (some ⟨2⟩) ∧
      Statement.IsRead ⟨.named "hp", .reference "knight.hp"⟩ ∧
      (resolve replacedTree [r]).2 = .error ⟨r, .noNode (.named "knight")⟩ ∧
      (ReferenceFault.noNode (.named "knight")).message ≠ "malformed path" ∧
      load [⟨"core", [⟨"units.txt", ["hp = @knight.hp"]⟩]⟩] =
        .error (.reference ⟨"units.txt", 1⟩ "knight.hp" note) ∧
      note.message ≠ "malformed path" := by
  intro r note
  have hreachable : replacedTree.Reachable := Call.reachable_run .new _
  obtain ⟨hpaths, hchildren, -, hreferences, hloads⟩ := places_and_properties_agree hreachable
  have hlocate : replacedTree.locate? "archer.hp" = some (⟨2⟩, 0) := by decide +kernel
  have hchild : replacedTree.findChild? root (.named "archer") = some ⟨2⟩ := by decide +kernel
  have hread : Statement.IsRead ⟨.named "hp", .reference "knight.hp"⟩ :=
    @Statement.IsRead.alone _ "hp=@knight.hp".toList none (by decide +kernel)
  have hresolve : (resolve replacedTree [r]).2 = .error ⟨r, .noNode (.named "knight")⟩ := by
    decide +kernel
  have hload : load [⟨"core", [⟨"units.txt", ["hp = @knight.hp"]⟩]⟩] =
      .error (.reference ⟨"units.txt", 1⟩ "knight.hp" note) := by decide +kernel
  obtain ⟨hat, -, hslots⟩ := hpaths "archer.hp"
  obtain ⟨hsearch, -, -⟩ := hchildren root (.named "archer")
  exact ⟨hreachable, by decide, by rw [hat, hlocate], hslots _ _ hlocate,
    by rw [hsearch, hchild], hread, hresolve, hreferences _ hread _ rfl _ _ _ hresolve rfl, hload,
    hloads _ _ _ _ hload⟩

end ContentTree

end ModContent
