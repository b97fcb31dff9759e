import ModContent.Proofs.Dictionary
import ModContent.Proofs.Package.Load
import ModContent.Registry.Record

/-!
# What a record keeps of its node

A record has the properties of a node under the texts of their keys. Two keys without colons in
their names and categories have different texts (`Key.ColonFree.text_inj`), and no other key is read
from a file, so in a loaded tree the record of a node keeps all its properties
(`records_keep_all_properties`). That the keys of a node differ is not enough for this: with a colon
in a name, different keys may have one text.
-/

namespace ModContent

namespace Record

variable {t : ContentTree} {id : NodeId} {n : Node}

/-- The properties of a node, as its record has them. -/
def entriesOf (n : Node) : List (String × List String) :=
  n.properties.map fun p ↦ (p.key.text, p.values)

/-- The texts of keys that differ and have no colons differ. -/
theorem nodup_keys_entriesOf (hkeys : (n.properties.map Property.key).Nodup)
    (hfree : ∀ p ∈ n.properties, p.key.ColonFree) : ((entriesOf n).map Prod.fst).Nodup := by
  have htexts : (entriesOf n).map Prod.fst = (n.properties.map Property.key).map Key.text := by
    rw [entriesOf, List.map_map, List.map_map]
    rfl
  rw [htexts]
  refine hkeys.map_on fun a ha b hb htext ↦ ?_
  obtain ⟨p, hp, rfl⟩ := List.mem_map.1 ha
  obtain ⟨q, hq, rfl⟩ := List.mem_map.1 hb
  exact ((hfree p hp).text_inj (hfree q hq)).1 htext

/-- With different keys, a record has one entry for each property. -/
theorem perm_properties_ofNode (h : ((entriesOf n).map Prod.fst).Nodup) (t : ContentTree)
    (id : NodeId) : (ofNode t id n).properties.entries.Perm (entriesOf n) :=
  Dictionary.perm_ofList h

/-- With different keys, every property is found in the record. -/
theorem get?_ofNode (h : ((entriesOf n).map Prod.fst).Nodup) (t : ContentTree) (id : NodeId)
    {p : Property} (hp : p ∈ n.properties) : (ofNode t id n).get? p.key.text = some p.values :=
  Dictionary.get?_ofList h (List.mem_map_of_mem hp)

/-- In a linked tree no child that a node lists is dead. -/
theorem children_ofNode (ht : t.Linked) (hn : t.node? id = some n) :
    (ofNode t id n).children = n.children.length := by
  show (t.children id).length = _
  rw [ContentTree.children, ContentTree.childIds_eq hn, List.filterMap_length_eq_length]
  intro c hc
  rw [Option.isSome_map]
  exact ContentTree.isLive_of_parent? ((ht.mem_children_iff hn).1 hc)

end Record

/-- The labels of the properties in a loaded tree have no colons. -/
theorem ContentTree.Loadable.colonFree {t : ContentTree} (ht : t.Loadable) {id : NodeId} {n : Node}
    (hn : t.node? id = some n) {p : Property} (hp : p ∈ n.properties) : p.key.ColonFree :=
  (ht.tidy.written hn hp).key.labelled.colonFree

/-- **A record loses no property.** In a loaded tree the record of a node, at the top level or
anywhere else, has one entry for each property of the node, with the values of the property under
the text of its key, and the number of the nodes that name the node as their parent. A key without
colons in its name and category is given back by its text, so no two of them have one text. -/
theorem records_keep_all_properties (packages : List Package) (loaded : Loaded)
    (h : load packages = .ok loaded) :
    (∀ id n, loaded.tree.node? id = some n → ∃ r : Record,
      (Definition.ofNode loaded.tree id n : Except ContentError Record) = .ok r ∧
        r.properties.entries.length = n.properties.length ∧
        (∀ p ∈ n.properties, r.get? p.key.text = some p.values) ∧
        r.children = n.children.length ∧ n.children.Nodup ∧
        ∀ c, c ∈ n.children ↔ loaded.tree.parent? c = some id) ∧
      (∀ key : Key, key.ColonFree → Key.parse key.text = key) ∧
      ∀ a b : Key, a.ColonFree → b.ColonFree → a.text = b.text → a = b := by
  refine ⟨fun id n hn ↦ ?_, fun key ↦ Key.ColonFree.parse_text, fun a b ha hb ↦ (ha.text_inj hb).1⟩
  have hloaded := loadable_of_load h
  have hlinked := hloaded.grown.linked
  have htexts := Record.nodup_keys_entriesOf (hloaded.tidy.keys hn) fun p ↦ hloaded.colonFree hn
  refine ⟨Record.ofNode loaded.tree id n, rfl, ?_, fun p ↦ Record.get?_ofNode htexts _ _,
    Record.children_ofNode hlinked hn, ?_, fun c ↦ hlinked.mem_children_iff hn⟩
  · rw [(Record.perm_properties_ofNode htexts _ _).length_eq, Record.entriesOf, List.length_map]
  · exact ContentTree.childIds_eq hn ▸ hlinked.nodup id

/-- A node with a parameter and two properties of one name. -/
def soldierPackages : List Package :=
  [⟨"core", [⟨"units.def", ["unit:soldier(hp=10) { weapon:sword = iron,sharp; sword = old; }"]⟩]⟩]

/-- A soldier with a parameter and two swords, one of which has a category. -/
theorem records_keep_all_properties_of_soldier :
    ∃ loaded n r, load soldierPackages = .ok loaded ∧ loaded.tree.node? ⟨1⟩ = some n ∧
      n.properties.map (fun p ↦ (p.key.text, p.values)) =
        [("parameter:hp", ["10"]), ("weapon:sword", ["iron", "sharp"]), ("sword", ["old"])] ∧
      (Definition.ofNode loaded.tree ⟨1⟩ n : Except ContentError Record) = .ok r ∧
      r.properties.entries.length = 3 ∧ (∀ p ∈ n.properties, r.get? p.key.text = some p.values) ∧
      Key.parse "weapon:sword" = ⟨"sword", some "weapon"⟩ := by
  have hfound : (load soldierPackages).toOption.bind (fun loaded ↦
      (loaded.tree.node? ⟨1⟩).map fun n ↦ n.properties.map fun p ↦ (p.key.text, p.values)) =
      some [("parameter:hp", ["10"]), ("weapon:sword", ["iron", "sharp"]), ("sword", ["old"])] := by
    decide
  cases hload : load soldierPackages with
  | error error =>
    rw [hload] at hfound
    cases hfound
  | ok loaded =>
    rw [hload] at hfound
    obtain ⟨n, hn, hproperties⟩ := Option.map_eq_some_iff.1 hfound
    obtain ⟨hrecord, hparse, -⟩ := records_keep_all_properties soldierPackages loaded hload
    obtain ⟨r, hr, hlength, hget, -⟩ := hrecord ⟨1⟩ n hn
    have hthree : n.properties.length = 3 := by
      have h := congrArg List.length hproperties
      rwa [List.length_map] at h
    refine ⟨loaded, n, r, rfl, hn, hproperties, hr, hlength.trans hthree, hget,
      hparse ⟨"sword", some "weapon"⟩ ⟨by decide, ?_⟩⟩
    rintro _ ⟨⟩
    decide

end ModContent
