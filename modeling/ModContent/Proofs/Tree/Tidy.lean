import ModContent.Proofs.Grammar.Written
import ModContent.Proofs.Tree.Growth

/-!
# Orderly and tidy trees

A tree is **orderly** when all of it can be found again: no child is hidden behind an earlier one
that its key accepts, and the properties of a node have different keys. What its labels and its
properties are like is a parameter. The tree is **tidy** when all of it can be written down as well:
its labels are grammatical, and the values of its properties are writable and read as they are.
Making children and inserting properties keeps a tree orderly, as does filling slots.
-/

namespace ModContent

/-- A property that can be written down. Its readings, if there are any, are those of its values. -/
structure Property.Written (p : Property) : Prop where
  key : p.key.Grammatical
  values : Writable p.values
  fresh : p.Fresh

namespace Node

variable {n : Node} {p : Property} {key : Key}

/-! ### Inserting a property -/

/-- The slot for a key is taken if some property has the key. -/
theorem slotFor_lt_iff : n.slotFor key < n.properties.length ↔
    key ∈ n.properties.map Property.key := by
  rw [slotFor, List.findIdx_lt_length, List.mem_map]
  simp only [beq_iff_eq]

theorem slotFor_le_length (n : Node) (key : Key) : n.slotFor key ≤ n.properties.length :=
  List.findIdx_le_length

/-- A property with a new key is inserted after all others. -/
theorem insert_of_not_mem (h : p.key ∉ n.properties.map Property.key) :
    n.insert p = { n with properties := n.properties ++ [p] } := by
  rw [insert, if_neg fun hlt ↦ h (slotFor_lt_iff.1 hlt)]

/-- The slots after an insertion: the property is in its slot, all others are as they were. -/
theorem getElem?_insert (n : Node) (p : Property) (i : Nat) :
    (n.insert p).properties[i]? =
      if i = n.slotFor p.key then some p else n.properties[i]? := by
  have hle := n.slotFor_le_length p.key
  rw [insert]
  by_cases hlt : n.slotFor p.key < n.properties.length
  · simp only [if_pos hlt]
    rw [List.getElem?_set]
    by_cases hi : i = n.slotFor p.key
    · rw [if_pos hi.symm, if_pos hi, if_pos hlt]
    · rw [if_neg (Ne.symm hi), if_neg hi]
  · have hlength : n.slotFor p.key = n.properties.length := by omega
    simp only [if_neg hlt]
    rw [hlength]
    by_cases hi : i = n.properties.length
    · rw [if_pos hi, hi, List.getElem?_concat_length]
    · rw [if_neg hi]
      by_cases hilt : i < n.properties.length
      · rw [List.getElem?_append_left hilt]
      · rw [List.getElem?_eq_none (by simp; omega), List.getElem?_eq_none (by omega)]

/-- What is there after an insertion was inserted or there before. -/
theorem mem_insert {q : Property} (h : q ∈ (n.insert p).properties) :
    q = p ∨ q ∈ n.properties := by
  obtain ⟨i, hi⟩ := List.mem_iff_getElem?.1 h
  rw [getElem?_insert] at hi
  split at hi
  · exact .inl (Option.some.inj hi).symm
  · exact .inr (List.mem_of_getElem? hi)

/-- The keys after an insertion: a new key comes last, and one that was there keeps its slot. -/
theorem keys_insert (n : Node) (p : Property) :
    (n.insert p).properties.map Property.key =
      if p.key ∈ n.properties.map Property.key then n.properties.map Property.key
      else n.properties.map Property.key ++ [p.key] := by
  rw [insert]
  by_cases hlt : n.slotFor p.key < n.properties.length
  · rw [if_pos (slotFor_lt_iff.1 hlt)]
    simp only [if_pos hlt]
    have hfound : (n.properties[n.slotFor p.key].key == p.key) = true :=
      List.findIdx_getElem (w := hlt)
    have hkeys : n.slotFor p.key < (n.properties.map Property.key).length := by
      rwa [List.length_map]
    have hset := List.set_getElem_self hkeys
    rw [List.getElem_map, beq_iff_eq.1 hfound] at hset
    rw [List.map_set]
    exact hset
  · rw [if_neg fun hmem ↦ hlt (slotFor_lt_iff.2 hmem)]
    simp only [if_neg hlt, List.map_append, List.map_singleton]

/-- An insertion keeps the keys of a node different. -/
theorem nodup_keys_insert (h : (n.properties.map Property.key).Nodup) (p : Property) :
    ((n.insert p).properties.map Property.key).Nodup := by
  rw [keys_insert]
  split
  · exact h
  · next hnew =>
    refine h.append (List.nodup_singleton _) fun key hkey hmem ↦ ?_
    obtain rfl := List.mem_singleton.1 hmem
    exact hnew hkey

end Node

namespace ContentTree

variable {t t' : ContentTree} {id parent : NodeId} {key : Key} {n : Node} {p : Property}

/-- Inserting a property puts it in its slot and leaves every other slot as it was. -/
theorem slot?_insert (hn : t.node? id = some n) (p : Property) (place : NodeId × Nat) :
    (t.modify id fun node ↦ node.insert p).slot? place =
      if place = (id, n.slotFor p.key) then some p else t.slot? place := by
  obtain ⟨j, i⟩ := place
  rw [slot?_eq_bind, slot?_eq_bind, node?_modify]
  by_cases hj : j = id
  · subst hj
    rw [if_pos rfl, hn, Option.map_some, Option.bind_some, Option.bind_some,
      Node.getElem?_insert]
    simp
  · rw [if_neg hj, if_neg fun heq ↦ hj (congrArg Prod.fst heq)]

/-- A new node has no slots, and the slots of the others stay. -/
theorem slot?_sprout (hlive : t.node? parent = some n) (key : Key) (place : NodeId × Nat) :
    (t.sprout parent key).slot? place = t.slot? place := by
  rw [slot?_eq_properties, slot?_eq_properties, properties_sprout hlive]

/-! ### Orderly trees -/

/-- The second of two children is not hidden behind the first. -/
def Apart (t : ContentTree) (a b : NodeId) : Prop :=
  ∀ m k, t.node? a = some m → t.node? b = some k → k.key.accepts m.key = false

/-- A tree in which nothing is hidden, with labels and properties of a kind. -/
structure Orderly (K : Key → Prop) (W : Property → Prop) (t : ContentTree) : Prop where
  label : ∀ {id n}, t.node? id = some n → id ≠ root → K n.key
  apart : ∀ {id n}, t.node? id = some n → n.children.Pairwise t.Apart
  keys : ∀ {id n}, t.node? id = some n → (n.properties.map Property.key).Nodup
  written : ∀ {id n p}, t.node? id = some n → p ∈ n.properties → W p

/-- A tree all of which can be written down. -/
abbrev Tidy : ContentTree → Prop := Orderly Key.Grammatical Property.Written

variable {K K' : Key → Prop} {W W' : Property → Prop}

theorem orderly_new : ContentTree.new.Orderly K W := by
  refine ⟨fun hn hne ↦ absurd (eq_of_node?_new hn).1 hne, fun hn ↦ ?_, fun hn ↦ ?_,
    fun hn hp ↦ ?_⟩
  · obtain ⟨-, rfl⟩ := eq_of_node?_new hn
    exact List.Pairwise.nil
  · obtain ⟨-, rfl⟩ := eq_of_node?_new hn
    exact List.nodup_nil
  · obtain ⟨-, rfl⟩ := eq_of_node?_new hn
    exact absurd hp List.not_mem_nil

namespace Orderly

theorem mono (h : t.Orderly K W) (hK : ∀ key, K key → K' key) (hW : ∀ p, W p → W' p) :
    t.Orderly K' W' :=
  ⟨fun hn hne ↦ hK _ (h.label hn hne), h.apart, h.keys, fun hn hp ↦ hW _ (h.written hn hp)⟩

/-- Labels and links alone decide whether children are hidden. -/
theorem congr (h : t.Orderly K W) (hstems : t.SameStems t')
    (hkeys : ∀ {id n}, t'.node? id = some n → (n.properties.map Property.key).Nodup)
    (hwritten : ∀ {id n p}, t'.node? id = some n → p ∈ n.properties → W p) :
    t'.Orderly K W := by
  refine ⟨fun hn' hne ↦ ?_, fun hn' ↦ ?_, hkeys, hwritten⟩
  · obtain ⟨n, hn, hkey, -⟩ := hstems.symm.exists_node? hn'
    exact hkey ▸ h.label hn hne
  · obtain ⟨n, hn, -, -, hchildren⟩ := hstems.symm.exists_node? hn'
    rw [← hchildren]
    refine (h.apart hn).imp fun {a b} hab m' k' hm' hk' ↦ ?_
    obtain ⟨m, hm, hmkey, -⟩ := hstems.symm.exists_node? hm'
    obtain ⟨k, hk, hkkey, -⟩ := hstems.symm.exists_node? hk'
    rw [← hmkey, ← hkkey]
    exact hab m k hm hk

/-- Inserting a property of the kind keeps a tree orderly. -/
theorem insert (h : t.Orderly K W) (hp : W p) :
    (t.modify id fun node ↦ node.insert p).Orderly K W := by
  have hcases : ∀ {j m}, (t.modify id fun node ↦ node.insert p).node? j = some m →
      ∃ n, t.node? j = some n ∧ (m = n ∨ m = n.insert p) := by
    intro j m hm
    rw [node?_modify] at hm
    split at hm
    · obtain ⟨n, hn, rfl⟩ := Option.map_eq_some_iff.1 hm
      exact ⟨n, hn, .inr rfl⟩
    · exact ⟨m, hm, .inl rfl⟩
  refine h.congr (.modify t id fun n ↦ n.stem_insert p) (fun hm ↦ ?_) fun hm hq ↦ ?_
  · obtain ⟨n, hn, rfl | rfl⟩ := hcases hm
    · exact h.keys hn
    · exact Node.nodup_keys_insert (h.keys hn) p
  · obtain ⟨n, hn, rfl | rfl⟩ := hcases hm
    · exact h.written hn hq
    · rcases Node.mem_insert hq with rfl | hq
      · exact hp
      · exact h.written hn hq

/-- Filling slots keeps a tree orderly, if what is in them is of the kind afterwards. -/
theorem of_sameShape (h : t.Orderly K W) (hshape : t.SameShape t')
    (hwritten : ∀ place p, t'.slot? place = some p → W p) : t'.Orderly K W := by
  refine h.congr (.of_sameShape hshape) (fun {id n'} hn' ↦ ?_) fun {id n' p} hn' hp ↦ ?_
  · rcases hshape.node? id with ⟨hnone, -⟩ | ⟨m', n, hm', hn, heq⟩
    · rw [hnone] at hn'
      cases hn'
    · obtain rfl := Option.some.inj (hm'.symm.trans hn')
      have hkeys : m'.properties.map Property.key = n.properties.map Property.key :=
        congrArg NodeShape.propertyKeys heq
      rw [hkeys]
      exact h.keys hn
  · obtain ⟨i, hi⟩ := List.mem_iff_getElem?.1 hp
    exact hwritten (id, i) p (by rw [slot?_eq_bind, hn']; exact hi)

/-- Making a child where none is accepted keeps a tree orderly. -/
theorem sprout (h : t.Orderly K W) (ht : t.Grown) (hlive : t.node? parent = some n) (hkey : K key)
    (hnone : ∀ child ∈ n.children, ∀ node, t.node? child = some node →
      key.accepts node.key = false) : (t.sprout parent key).Orderly K W := by
  -- labels of nodes that were there stay
  have hback : ∀ {j m n i}, t.node? i = some n → j ∈ n.children →
      (t.sprout parent key).node? j = some m → ∃ m', t.node? j = some m' ∧ m'.key = m.key := by
    intro j m n i hn hj hm
    obtain ⟨m', hm', -⟩ := ht.child hn hj
    obtain ⟨m'', hm'', hmkey, -⟩ := exists_node?_sprout hlive key hm'
    obtain rfl := Option.some.inj (hm''.symm.trans hm)
    exact ⟨m', hm', hmkey.symm⟩
  have hold : ∀ {i n}, t.node? i = some n →
      n.children.Pairwise (t.sprout parent key).Apart := by
    intro i n hn
    refine (h.apart hn).imp_of_mem fun {a b} ha hb hab m k hm hk ↦ ?_
    obtain ⟨m', hm', hmkey⟩ := hback hn ha hm
    obtain ⟨k', hk', hkkey⟩ := hback hn hb hk
    rw [← hmkey, ← hkkey]
    exact hab m' k' hm' hk'
  refine ⟨fun {j m} hm hne ↦ ?_, fun {j m} hm ↦ ?_, fun {j m} hm ↦ ?_, fun {j m p} hm hp ↦ ?_⟩ <;>
    rcases node?_sprout_cases hlive hm with ⟨rfl, rfl⟩ | ⟨rfl, rfl⟩ | ⟨hj, hm⟩
  · exact hkey
  · show K n.key
    exact h.label hlive hne
  · exact h.label hm hne
  · exact List.Pairwise.nil
  · refine List.pairwise_append.2 ⟨hold hlive, List.pairwise_singleton .., ?_⟩
    rintro a ha b hb m k hm hk
    obtain rfl := List.mem_singleton.1 hb
    obtain ⟨m', hm', hmkey⟩ := hback hlive ha hm
    rw [node?_sprout hlive, if_pos rfl] at hk
    obtain rfl := Option.some.inj hk
    rw [← hmkey]
    exact hnone a ha m' hm'
  · exact hold hm
  · exact List.nodup_nil
  · show (n.properties.map Property.key).Nodup
    exact h.keys hlive
  · exact h.keys hm
  · exact absurd hp List.not_mem_nil
  · exact h.written hlive hp
  · exact h.written hm hp

/-- A child that is found or made leaves the tree in order, if its key is. -/
theorem childOrCreate (h : t.Orderly K W) (ht : t.Grown) (hlive : t.isLive parent)
    (hkey : K key) : (t.childOrCreate parent key).2.Orderly K W := by
  obtain ⟨n, hn⟩ := isLive_iff.1 hlive
  rcases ht.linked.childOrCreate_cases hn key with ⟨child, node, heq, -⟩ | ⟨heq, hnone⟩
  · rw [heq]
    exact h
  · rw [heq]
    exact h.sprout ht hn hkey hnone

end Orderly

end ContentTree

end ModContent
