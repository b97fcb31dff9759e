import Mathlib.Logic.Function.Basic
import ModContent.Proofs.Package.Layers
import ModContent.Proofs.Source.ByName

/-!
# The order of files

What a package is loaded to, up to handles, can be said without its queue: its items make a draft of
the outline before, and the paths in the draft are filled in (`Loaded.add_documents`). Each name of
the draft is made by the items of that name. If no two files have a name in common these items stand
in one file, so the order of the files cannot matter to the name (`filter_allItems_eq`), and all
names together are all that lookups and references see (`load_file_order`).
-/

namespace ModContent

open Content (Drafts)
open Outline (SameByName)

variable {files files' : List SourceFile} {pick : SourceFile → FileDocument}

/-! ### A package without its queue -/

/-- **A package that is scanned** loads if and only if each path in its draft comes to some values,
and these are filled in. -/
theorem Loaded.add_documents {loaded : Loaded} (ht : loaded.tree.Loadable) {package : Package}
    {documents : List FileDocument} (hfiles : documents.map FileDocument.file = package.files)
    {draft : Outline}
    (hdraft : Item.draftAll (FileDocument.allItems documents) loaded.tree.outline = draft) :
    ((∃ next, loaded.add package = .ok next) ↔ draft.Resolvable) ∧
      ∀ next, loaded.add package = .ok next →
        next.tree.Linked ∧ next.tree.outline = draft.settled := by
  set start := Content.start loaded.tree loaded.diagnostics
  obtain ⟨stats, hscan⟩ := start.addFiles_documents documents ScanStats.zero
  rw [hfiles] at hscan
  have hsound : (start.evaluateDocuments documents).Sound := by
    have hscanned := Content.preserved_sound.addFiles
      (Content.sound_start ht loaded.diagnostics) package.files ScanStats.zero
    rwa [hscan] at hscanned
  obtain ⟨tree, hdrafts, houtline⟩ :=
    (Drafts.start loaded.tree loaded.diagnostics).evaluateDocuments ht.grown.linked documents
  rw [hdraft] at houtline
  subst houtline
  refine ⟨?_, fun next hnext ↦ ?_⟩
  · rw [← hdrafts.resolves_iff hsound]
    constructor
    · rintro ⟨next, hnext⟩
      obtain ⟨_, _, _, count, hok, hresolve, -⟩ := add_eq_ok_iff.1 hnext
      obtain ⟨rfl, -⟩ := Prod.mk.inj (hscan.symm.trans hok)
      exact ⟨count, congrArg Prod.snd hresolve⟩
    · rintro ⟨count, hresolve⟩
      exact ⟨_, add_eq_ok_iff.2 ⟨_, stats, _, count, hscan, Prod.ext rfl hresolve, rfl⟩⟩
  · obtain ⟨_, _, _, count, hok, hresolve, rfl⟩ := add_eq_ok_iff.1 hnext
    obtain ⟨rfl, -⟩ := Prod.mk.inj (hscan.symm.trans hok)
    have hsettled := hdrafts.outline_resolve hsound (congrArg Prod.snd hresolve)
    rw [hresolve] at hsettled
    exact ⟨(loadable_add ht hnext).grown.linked, hsettled⟩

/-! ### Documents in another order -/

instance : Nonempty FileDocument := ⟨⟨⟨"", []⟩, [], .nil⟩⟩

/-- Files that are texts of documents, each with one of these. -/
theorem FileDocument.exists_pick {documents : List FileDocument}
    (hfiles : documents.map FileDocument.file = files) :
    ∃ pick : SourceFile → FileDocument, ∀ f ∈ files, (pick f).file = f := by
  refine ⟨Function.invFun FileDocument.file, fun f hf ↦ Function.invFun_eq ?_⟩
  obtain ⟨d, -, hd⟩ := List.mem_map.1 (hfiles ▸ hf)
  exact ⟨d, hd⟩

theorem map_file_map_pick (hpick : ∀ f ∈ files, (pick f).file = f) :
    (files.map pick).map FileDocument.file = files := by
  rw [List.map_map]
  exact (List.map_congr_left hpick).trans (List.map_id files)

/-- When all that comes to something comes to the same, the order does not matter. -/
theorem flatMap_eq_of_perm {α β : Type} {g : α → List β} {xs ys : List α} (hperm : ys.Perm xs)
    (hone : ∀ a ∈ xs, ∀ b ∈ xs, g a ≠ [] → g b ≠ [] → g a = g b) :
    ys.flatMap g = xs.flatMap g := by
  induction hperm with
  | nil => rfl
  | cons a _ ih =>
    rw [List.flatMap_cons, List.flatMap_cons, ih fun b hb c hc ↦
      hone b (List.mem_cons_of_mem _ hb) c (List.mem_cons_of_mem _ hc)]
  | swap a b rest =>
    have hswap : g b ++ g a = g a ++ g b := by
      by_cases ha : g a = []
      · rw [ha, List.append_nil, List.nil_append]
      · by_cases hb : g b = []
        · rw [hb, List.append_nil, List.nil_append]
        · rw [hone a (by simp) b (by simp) ha hb]
    rw [List.flatMap_cons, List.flatMap_cons, List.flatMap_cons, List.flatMap_cons,
      ← List.append_assoc, hswap, List.append_assoc]
  | trans hfirst hrest ihFirst ihRest =>
    rw [ihFirst fun a ha b hb ↦ hone a (hrest.subset ha) b (hrest.subset hb), ihRest hone]

/-- **The items of one name** come in the same order, if no name occurs in two files. -/
theorem filter_allItems_eq (hperm : files'.Perm files)
    (hapart : ∀ f ∈ files, ∀ g ∈ files, f ≠ g → f.Apart g)
    (hpick : ∀ f ∈ files, (pick f).file = f) (name : OuterName) :
    (FileDocument.allItems (files'.map pick)).filter (fun item ↦ item.outerName = name) =
      (FileDocument.allItems (files.map pick)).filter fun item ↦ item.outerName = name := by
  rw [FileDocument.allItems, FileDocument.allItems, List.flatMap_map, List.flatMap_map,
    List.filter_flatMap, List.filter_flatMap]
  -- a file with items of this name has the name
  have hnamed : ∀ f ∈ files, (pick f).items.filter (fun item ↦ item.outerName = name) ≠ [] →
      name ∈ f.outerNames := by
    intro f hf hne
    obtain ⟨item, hitem⟩ := List.exists_mem_of_ne_nil _ hne
    obtain ⟨hmem, hname⟩ := List.mem_filter.1 hitem
    have hnames := (pick f).renders.outerNames_eq
    rw [hpick f hf] at hnames
    rw [SourceFile.outerNames, hnames, ← of_decide_eq_true hname]
    exact List.mem_map_of_mem hmem
  refine flatMap_eq_of_perm hperm fun f hf g hg hfname hgname ↦ ?_
  by_contra hne
  have hdistinct : f ≠ g := fun heq ↦ hne (by rw [heq])
  exact hapart f hf g hg hdistinct name (hnamed f hf hfname) (hnamed g hg hgname)

/-! ### Loading -/

/-- The files of a package can be loaded in another order. -/
theorem Loaded.add_perm {loaded one : Loaded} (ht : loaded.tree.Loadable) {package : Package}
    (hperm : files.Perm package.files)
    (hapart : ∀ f ∈ package.files, ∀ g ∈ package.files, f ≠ g → f.Apart g)
    (h : loaded.add package = .ok one) :
    ∃ two, loaded.add { package with files } = .ok two ∧
      (one.tree.Linked ∧ two.tree.Linked) ∧ SameByName one.tree.outline two.tree.outline := by
  obtain ⟨scanned, stats, _, _, hscan, -⟩ := add_eq_ok_iff.1 h
  obtain ⟨documents, hdocuments, -⟩ := Content.addFiles_eq_ok_iff.1 ⟨stats, hscan⟩
  obtain ⟨pick, hpick⟩ := FileDocument.exists_pick hdocuments
  obtain ⟨hloads, hone⟩ := add_documents ht (map_file_map_pick hpick) rfl
  have hfiles : (files.map pick).map FileDocument.file = ({ package with files } : Package).files :=
    map_file_map_pick fun f hf ↦ hpick f (hperm.subset hf)
  obtain ⟨hloads', htwo⟩ := add_documents ht hfiles rfl
  have hsame : SameByName
      (Item.draftAll (FileDocument.allItems (package.files.map pick)) loaded.tree.outline)
      (Item.draftAll (FileDocument.allItems (files.map pick)) loaded.tree.outline) := by
    intro name
    rw [Item.restrict_draftAll, filter_allItems_eq hperm hapart hpick, ← Item.restrict_draftAll]
  obtain ⟨two, hadd⟩ := hloads'.2 (hsame.resolvable (hloads.1 ⟨one, h⟩))
  obtain ⟨hlinked, houtline⟩ := hone one h
  obtain ⟨hlinked', houtline'⟩ := htwo two hadd
  exact ⟨two, hadd, ⟨hlinked, hlinked'⟩, houtline ▸ houtline' ▸ hsame.settled⟩

/-- **The order of files does not matter** in a package in which no block name of the top level and
no property name of the root occurs in two different files. Whatever packages are loaded before, the
package loads in one order of its files if and only if it loads in any other one. Then every path
leads to the same property in both trees, or to none in both, and below the roots there are the same
nodes of each name, with all that is in them. -/
theorem load_file_order (packages : List Package) (package : Package) (files : List SourceFile)
    (hperm : files.Perm package.files)
    (hapart : ∀ f ∈ package.files, ∀ g ∈ package.files, f ≠ g → f.Apart g) :
    ((∃ one, load (packages ++ [package]) = .ok one) ↔
      ∃ two, load (packages ++ [{ package with files }]) = .ok two) ∧
    ∀ one two, load (packages ++ [package]) = .ok one →
      load (packages ++ [{ package with files }]) = .ok two →
      (∀ path, two.tree.property? ContentTree.root path =
        one.tree.property? ContentTree.root path) ∧
      ∀ name, two.tree.outline.children.filter (fun child ↦ child.key.name = name) =
        one.tree.outline.children.filter fun child ↦ child.key.name = name := by
  refine ⟨⟨?_, ?_⟩, fun one two hone htwo ↦ ?_⟩
  · rintro ⟨one, hone⟩
    obtain ⟨base, hbase, hadd⟩ := load_concat_eq_ok_iff.1 hone
    obtain ⟨two, hadd', -⟩ := Loaded.add_perm (loadable_of_load hbase) hperm hapart hadd
    exact ⟨two, load_concat_eq_ok_iff.2 ⟨base, hbase, hadd'⟩⟩
  · rintro ⟨two, htwo⟩
    obtain ⟨base, hbase, hadd⟩ := load_concat_eq_ok_iff.1 htwo
    obtain ⟨one, hadd', -⟩ := Loaded.add_perm (loadable_of_load hbase) hperm.symm
      (fun f hf g hg ↦ hapart f (hperm.subset hf) g (hperm.subset hg)) hadd
    exact ⟨one, load_concat_eq_ok_iff.2 ⟨base, hbase, hadd'⟩⟩
  · obtain ⟨base, hbase, hadd⟩ := load_concat_eq_ok_iff.1 hone
    obtain ⟨two', hadd', ⟨hlinked, hlinked'⟩, hsame⟩ :=
      Loaded.add_perm (loadable_of_load hbase) hperm hapart hadd
    have htwo' := load_concat_eq_ok_iff.2 ⟨base, hbase, hadd'⟩
    obtain rfl := Except.ok.inj (htwo.symm.trans htwo')
    refine ⟨fun path ↦ ?_, hsame.children_eq⟩
    rw [hlinked'.property?_root, hlinked.property?_root, hsame.property?_eq]

/-- A package whose files have no names in common. A chain leads through all of them, and one of its
blocks stands beside one that was there before under the same name. -/
def scatteredPackage : Package :=
  ⟨"mod", [⟨"guard.def", ["unit:guard(hp = @top) \x7b rank = @scout.hp \x7d", "first = @second"]⟩,
    ⟨"scout.def", ["scout \x7b hp = @unit:guard.hp \x7d", "second = @unit:guard.rank"]⟩,
    ⟨"top.def", ["top = 7"]⟩]⟩

/-- The three files in the opposite order. -/
theorem load_file_order_of_scattered :
    scatteredPackage.files.reverse.Perm scatteredPackage.files ∧
    (∀ f ∈ scatteredPackage.files, ∀ g ∈ scatteredPackage.files, f ≠ g → f.Apart g) ∧
    ∃ one two, load ([copyingPackage] ++ [scatteredPackage]) = .ok one ∧
      load ([copyingPackage] ++
        [{ scatteredPackage with files := scatteredPackage.files.reverse }]) = .ok two ∧
      one.tree.strings ContentTree.root "first" = ["7"] ∧
      (∀ path, two.tree.property? ContentTree.root path =
        one.tree.property? ContentTree.root path) ∧
      ∀ name, two.tree.outline.children.filter (fun child ↦ child.key.name = name) =
        one.tree.outline.children.filter fun child ↦ child.key.name = name := by
  have hapart : ∀ f ∈ scatteredPackage.files, ∀ g ∈ scatteredPackage.files, f ≠ g → f.Apart g := by
    decide +kernel
  have hvalues : (load ([copyingPackage] ++ [scatteredPackage])).toOption.map
      (fun one ↦ one.tree.strings ContentTree.root "first") = some ["7"] := by
    decide +kernel
  have hperm := List.reverse_perm scatteredPackage.files
  obtain ⟨hloads, hsame⟩ := load_file_order [copyingPackage] scatteredPackage
    scatteredPackage.files.reverse hperm hapart
  cases hone : load ([copyingPackage] ++ [scatteredPackage]) with
  | error error =>
    rw [hone] at hvalues
    cases hvalues
  | ok one =>
    rw [hone] at hvalues
    obtain ⟨two, htwo⟩ := hloads.1 ⟨one, hone⟩
    exact ⟨hperm, hapart, one, two, rfl, htwo, Option.some.inj hvalues, hsame one two hone htwo⟩

end ModContent
