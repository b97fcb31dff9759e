import ModContent.Proofs.Package.Load
import ModContent.Proofs.Tree.Address

/-!
# Trees made from files

Trees are made from files by loads, and by scans one after the other, of any texts and also when a
scan fails (`ContentTree.Sourced`). Whatever a text is like, what is read from it as a header or as
a statement has a key that can stand in a path. So every node of such a tree is found under its own
path, and every property behind it. Main statement: `nodes_addressable_by_path`.
-/

namespace ModContent

namespace ContentTree

variable {t : ContentTree} {id : NodeId} {n : Node}

/-- The trees that are made from files. -/
inductive Sourced : ContentTree → Prop
  | new : Sourced new
  | load {packages : List Package} {loaded : Loaded} (loads : load packages = .ok loaded) :
      Sourced loaded.tree
  /-- The tree that a scan leaves, whatever its outcome and whatever waited or was declared
  before. -/
  | scan {content : Content} (before : Sourced content.tree) (file : String)
      (source : NormalizedSource) : Sourced (scanFile content file source).1.tree

theorem addressable_new : ContentTree.new.Addressable := ⟨grown_new, orderly_new⟩

/-- A loaded tree can be addressed. -/
theorem Loadable.addressable (h : t.Loadable) : t.Addressable :=
  ⟨h.grown, h.tidy.mono (fun _ hkey ↦ hkey.labelled) fun _ hp ↦ hp.key.labelled⟩

/-- A scan of any text keeps all nodes addressable. -/
theorem preserved_addressable :
    Content.Preserved .any fun content ↦ content.tree.Addressable where
  grown h := h.grown
  enter h hid hkey := ⟨h.grown.childOrCreate hid _, h.orderly.childOrCreate h.grown hid hkey⟩
  declare {content id s location} h _ hs := by
    rw [Content.tree_declare]
    refine ⟨h.grown.congr (.modify _ id fun n ↦ n.stem_insert _), h.orderly.insert ?_⟩
    rw [Content.key_declaredProperty]
    exact hs

/-- Every node and property of a tree that came from sources can be addressed. -/
theorem Sourced.addressable (h : t.Sourced) : t.Addressable := by
  induction h with
  | new => exact addressable_new
  | load loads => exact (loadable_of_load loads).addressable
  | scan _ file source ih => exact preserved_addressable.scanFile ih file source fun _ _ _ ↦ trivial

/-- **Every node is addressed by its own path** in a tree made from files: the keys from the top
down to a node, with dots between them, lead to the node. With the key of a property behind them
they lead to the property, if it has a category or no property before it has its name. -/
theorem nodes_addressable_by_path (h : t.Sourced) (hn : t.node? id = some n) (hroot : id ≠ root) :
    t.find? root (t.ownPath id) = some id ∧
    ∀ i p, n.properties[i]? = some p →
      (p.key.category ≠ none ∨
        ∀ j < i, ∀ q, n.properties[j]? = some q → q.key.name ≠ p.key.name) →
      t.property? root (t.ownPath id ++ "." ++ p.key.text) = some p ∧
        t.locate? (t.ownPath id ++ "." ++ p.key.text) = some (id, i) :=
  ⟨h.addressable.find?_ownPath hn hroot,
    fun _ _ hp hname ↦ ⟨h.addressable.property?_ownPath hn hroot hp hname,
      h.addressable.locate?_ownPath hn hroot hp hname⟩⟩

/-- Two files, the second of which enters the blocks of the first again and then fails at a
statement without a label. -/
def archerTree : ContentTree :=
  let first := normalizeText "unit:archer(hp=10) { bow { range = 3 } }"
  let second := normalizeText "archer { bow { item:range = 4 } } = 5"
  (scanFile (scanFile (Content.start .new []) "units.def" first).1 "more.def" second).1.tree

/-- The bow of an archer and its range, by their paths. -/
theorem nodes_addressable_by_path_of_archer :
    archerTree.Sourced ∧ (⟨2⟩ : NodeId) ≠ root ∧ ∃ n, archerTree.node? ⟨2⟩ = some n ∧
      archerTree.find? root "unit:archer.bow" = some ⟨2⟩ ∧
      ∃ p, n.properties[1]? = some p ∧ p.key = ⟨"range", some "item"⟩ ∧
        archerTree.property? root "unit:archer.bow.item:range" = some p ∧
        archerTree.locate? "unit:archer.bow.item:range" = some (⟨2⟩, 1) := by
  have hsourced : archerTree.Sourced := .scan (.scan .new "units.def" _) "more.def" _
  have hroot : (⟨2⟩ : NodeId) ≠ root := by decide
  have hnode : (archerTree.node? ⟨2⟩).map (fun n ↦ n.properties.map Property.key) =
      some [Key.named "range", ⟨"range", some "item"⟩] := by decide +kernel
  have hpath : archerTree.ownPath ⟨2⟩ = "unit:archer.bow" := by decide +kernel
  obtain ⟨n, hn, hkeys⟩ := Option.map_eq_some_iff.1 hnode
  obtain ⟨p, hp, hkey⟩ : ∃ p, n.properties[1]? = some p ∧ p.key = ⟨"range", some "item"⟩ := by
    rw [← Option.map_eq_some_iff, ← List.getElem?_map, hkeys]
    rfl
  obtain ⟨hfind, hproperties⟩ := nodes_addressable_by_path hsourced hn hroot
  obtain ⟨hproperty, hlocate⟩ := hproperties 1 p hp (.inl (by rw [hkey]; decide))
  have htext : archerTree.ownPath ⟨2⟩ ++ "." ++ p.key.text = "unit:archer.bow.item:range" := by
    rw [hpath, hkey]
    decide +kernel
  rw [hpath] at hfind
  rw [htext] at hproperty hlocate
  exact ⟨hsourced, hroot, n, hn, hfind, p, hp, hkey, hproperty, hlocate⟩

end ContentTree

end ModContent
