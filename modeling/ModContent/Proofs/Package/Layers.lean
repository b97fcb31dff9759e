import ModContent.Proofs.Package.Load
import ModContent.Proofs.Source.Waiting
import ModContent.Proofs.Tree.Extension

/-!
# Packages in layers

A package is loaded onto the tree that the packages before it left. It only adds to that tree
(`Content.Logs.continues`), and it changes no property but those that it declares: references fill
slots of the queue, and these are slots of declarations of the same package (`Placed`). So a load
continues each shorter one, and what a package does not declare it does not change
(`load_continues`).
-/

namespace ModContent

open Content (Logs Placed)

/-! ### Loading one more package -/

namespace Loaded

variable {loaded next : Loaded} {package : Package}

/-- The declarations that a package makes when it is loaded next. -/
def declarations (loaded : Loaded) (package : Package) : List Declaration :=
  (Content.start loaded.tree loaded.diagnostics).logAll (package.files.map SourceFile.named)

/-- A package loads if its files are scanned and then its references resolve. -/
theorem add_eq_ok_iff : loaded.add package = .ok next ↔ ∃ scanned stats resolved count,
    (Content.start loaded.tree loaded.diagnostics).addFiles package.files ScanStats.zero =
      (scanned, .ok stats) ∧
    resolve scanned.tree scanned.queue = (resolved, .ok count) ∧
    next = ⟨resolved, scanned.diagnostics,
      loaded.stats.merge ⟨1, package.files.length, count, stats⟩⟩ := by
  rw [add, Loading.addPackage]
  rcases (Content.start loaded.tree loaded.diagnostics).addFiles package.files ScanStats.zero with
    ⟨scanned, error | stats⟩
  · constructor
    · intro h
      cases h
    · rintro ⟨_, _, _, _, hfiles, -⟩
      cases (Prod.mk.inj hfiles).2
  · simp only [Content.resolveAll]
    rcases hresolve : resolve scanned.tree scanned.queue with ⟨resolved, failure | count⟩
    · constructor
      · intro h
        cases h
      · rintro ⟨_, _, _, _, hfiles, hok, -⟩
        obtain ⟨rfl, -⟩ := Prod.mk.inj hfiles
        rw [hresolve] at hok
        cases (Prod.mk.inj hok).2
    · constructor
      · intro h
        exact ⟨scanned, stats, resolved, count, rfl, hresolve, (Except.ok.inj h).symm⟩
      · rintro ⟨_, _, _, _, hfiles, hok, rfl⟩
        obtain ⟨rfl, hstats⟩ := Prod.mk.inj hfiles
        obtain rfl := Except.ok.inj hstats
        rw [hresolve] at hok
        obtain ⟨rfl, hcount⟩ := Prod.mk.inj hok
        obtain rfl := Except.ok.inj hcount
        rfl

end Loaded

/-- The last package is added to what the others loaded to. -/
theorem load_concat_eq_ok_iff {packages : List Package} {package : Package} {big : Loaded} :
    load (packages ++ [package]) = .ok big ↔
      ∃ small, load packages = .ok small ∧ small.add package = .ok big := by
  rw [load, List.foldlM_append, bind_eq_ok_iff]
  simp only [List.foldlM_cons, List.foldlM_nil, bind_pure]
  rfl

/-! ### What a log leaves of the tree -/

namespace Content

variable {log : List Declaration} {start content : Content}

/-- Reading content only adds to the tree. -/
theorem Logs.continues (h : Logs start log content) (ht : start.tree.Linked) :
    start.tree.Continues content.tree := by
  induction h with
  | refl => exact .refl _
  | enter before live key ih =>
    exact ih.trans (.childOrCreate (before.linked ht) live key)
  | declare _ _ ih =>
    rw [tree_declare]
    exact ih.trans (.modify _ fun n ↦ .insert n _)

/-- A declaration that went to a slot has the key that stands there. -/
theorem Placed.of_mem_declarationsAt (h : Placed log start content) {id : NodeId} {i : Nat}
    {p : Property} (hp : content.tree.slot? (id, i) = some p) {d : Declaration}
    (hd : d ∈ declarationsAt log content.tree (id, i)) :
    d ∈ log ∧ d.node = id ∧ d.statement.key = p.key := by
  obtain ⟨hmem, hplace⟩ := List.mem_filter.1 hd
  obtain ⟨rfl, rfl⟩ := Prod.mk.inj (of_decide_eq_true hplace)
  refine ⟨hmem, rfl, ?_⟩
  have hkey : (content.tree.keys d.node)[(content.tree.keys d.node).idxOf d.statement.key]? =
      some d.statement.key :=
    List.getElem?_idxOf (h.named d hmem)
  rw [ContentTree.slot?_eq_properties] at hp
  rw [ContentTree.keys, List.getElem?_map] at hkey
  have hsame := hkey.symm.trans (congrArg (Option.map Property.key) hp)
  exact Option.some.inj hsame

end Content

/-! ### Layers -/

namespace Loaded

variable {loaded next : Loaded} {package : Package}

/-- The log of a package leads to what its files are scanned into. -/
theorem logs_declarations (ht : loaded.tree.Linked) {scanned : Content} {stats : ScanStats}
    (hfiles : (Content.start loaded.tree loaded.diagnostics).addFiles package.files ScanStats.zero =
      (scanned, .ok stats)) :
    Logs (Content.start loaded.tree loaded.diagnostics) (loaded.declarations package) scanned := by
  have hlinked : (Content.start loaded.tree loaded.diagnostics).tree.Linked := ht
  exact Content.addFiles_of_ok hfiles ▸ Content.logs_scanAll hlinked _

/-- **A package adds** to the tree, and changes what it declares only. -/
theorem continues_add (ht : loaded.tree.Linked) (h : loaded.add package = .ok next) :
    loaded.tree.Continues next.tree ∧
      ∀ id i p, loaded.tree.slot? (id, i) = some p →
        (∀ d ∈ loaded.declarations package, ¬ (d.node = id ∧ d.statement.key = p.key)) →
        next.tree.slot? (id, i) = some p := by
  obtain ⟨scanned, stats, resolved, count, hfiles, hresolve, rfl⟩ := add_eq_ok_iff.1 h
  have hlogs := logs_declarations ht hfiles
  have hplaced := hlogs.placed ht (Content.placed_start _ _)
  have hcontinues := hlogs.continues ht
  obtain ⟨hshape, -, hkept⟩ := resolve_ok hplaced.nodup_places hplaced.seated
    (congrArg Prod.snd hresolve)
  rw [hresolve] at hshape hkept
  refine ⟨hcontinues.trans (.of_sameShape hshape), fun id i p hp hnone ↦ ?_⟩
  -- the slot is there after the scan, and no declaration went to it
  obtain ⟨p', hp', hkey⟩ := hcontinues.slot? hp
  have hat : declarationsAt (loaded.declarations package) scanned.tree (id, i) = [] := by
    refine List.eq_nil_iff_forall_not_mem.2 fun d hd ↦ ?_
    obtain ⟨hmem, hnode, hdkey⟩ := hplaced.of_mem_declarationsAt hp' hd
    exact hnone d hmem ⟨hnode, hdkey.trans hkey⟩
  obtain ⟨hsame, hnot⟩ := hplaced.of_not_declared hat
  exact ((hkept _ hnot).trans hsame).trans hp

end Loaded

/-- **A load continues each shorter one.** When some packages and one more load, the packages
without the last one load too, and the nodes and properties of their tree are still there in the
bigger one, at the same places and before all that is new. Every property that the last package does
not declare has the values that it had; so a value copied by a reference does not follow what a
later package makes of the property that it was copied from. -/
theorem load_continues (packages : List Package) (package : Package) (big : Loaded)
    (h : load (packages ++ [package]) = .ok big) :
    ∃ small, load packages = .ok small ∧ small.tree.Continues big.tree ∧
      ∀ id i p, small.tree.slot? (id, i) = some p →
        (∀ d ∈ small.declarations package, ¬ (d.node = id ∧ d.statement.key = p.key)) →
        big.tree.slot? (id, i) = some p := by
  obtain ⟨small, hsmall, hadd⟩ := load_concat_eq_ok_iff.1 h
  exact ⟨small, hsmall, Loaded.continues_add (loadable_of_load hsmall).grown.linked hadd⟩

/-- A package with a value and a copy of it. -/
def copyingPackage : Package :=
  ⟨"core", [⟨"units.def", ["guard \x7b hp = 1 \x7d", "scout \x7b hp = @guard.hp \x7d"]⟩]⟩

/-- A package with another value in place of the one that was copied. -/
def overridingPackage : Package :=
  ⟨"mod", [⟨"guard.def", ["guard \x7b hp = 5; rank = 2 \x7d"]⟩]⟩

/-- A package that sets a value again, which the copy made before it does not follow. -/
theorem load_continues_past_override : ∃ big,
    load ([copyingPackage] ++ [overridingPackage]) = .ok big ∧
    big.tree.strings ContentTree.root "guard.hp" = ["5"] ∧
    big.tree.strings ContentTree.root "scout.hp" = ["1"] ∧
    ∃ small, load [copyingPackage] = .ok small ∧ small.tree.Continues big.tree ∧
      ∀ id i p, small.tree.slot? (id, i) = some p →
        (∀ d ∈ small.declarations overridingPackage, ¬ (d.node = id ∧ d.statement.key = p.key)) →
        big.tree.slot? (id, i) = some p := by
  have hvalues : (load ([copyingPackage] ++ [overridingPackage])).toOption.map
      (fun big ↦ (big.tree.strings ContentTree.root "guard.hp",
        big.tree.strings ContentTree.root "scout.hp")) = some (["5"], ["1"]) := by
    decide +kernel
  cases hload : load ([copyingPackage] ++ [overridingPackage]) with
  | error error =>
    rw [hload] at hvalues
    cases hvalues
  | ok big =>
    rw [hload] at hvalues
    obtain ⟨hguard, hscout⟩ := Prod.mk.inj (Option.some.inj hvalues)
    exact ⟨big, rfl, hguard, hscout, load_continues [copyingPackage] overridingPackage big hload⟩

end ModContent
