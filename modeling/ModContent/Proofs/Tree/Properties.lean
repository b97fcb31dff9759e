import ModContent.Proofs.Property
import ModContent.Proofs.Tree.Tidy

/-!
# Edits of a node's properties

An edit is meant for one property of a node (`Node.Edit.means`): an insertion for the one with
exactly the key of the new property, every other edit for the first that its key accepts. All edits
are described alike. They change or take out the property meant, where it stands, or they add one at
the end if there is none (`Node.Edit.affects`).

The property that is added has a key that the edit is meant for, so no other property has it, and
the one that is changed keeps its key. This is so of all edits but one: whoever looks a property up
to change it may put another property in its place, and that may have a key which is taken
(`Node.Edit.Collides`). Without such a collision no two properties of a node ever have the same key,
whatever edits find their target by a key without a category (`keys_differ_after_edits`). With one
they do (`collision_repeats_key`). The edits of a property cause none.
-/

namespace ModContent.Node

variable {n : Node} {key : Key} {q : Property} {before after : List Property}

/-! ### The first property that a key accepts -/

/-- The properties of a node around the first one that the key accepts. -/
structure Around (n : Node) (key : Key) (before : List Property) (q : Property)
    (after : List Property) : Prop where
  eq : n.properties = before ++ q :: after
  accepts : key.accepts q.key = true
  rejects : ∀ b ∈ before, key.accepts b.key = false

/-- Without a property that a key accepts it finds no slot. -/
theorem slot?_eq_none (h : ∀ q ∈ n.properties, key.accepts q.key = false) : n.slot? key = none :=
  List.findIdx?_eq_none_iff.2 h

theorem property?_eq_none (h : ∀ q ∈ n.properties, key.accepts q.key = false) :
    n.property? key = none :=
  List.find?_eq_none.2 fun q hq ↦ by simp [h q hq]

theorem modifyProperty_eq_self (h : ∀ q ∈ n.properties, key.accepts q.key = false)
    (f : Property → Property) : n.modifyProperty key f = n := by
  rw [modifyProperty, slot?_eq_none h]

theorem properties_modifyOrAdd_new (h : ∀ q ∈ n.properties, key.accepts q.key = false)
    (f : Property → Property) (values : List String) :
    (n.modifyOrAdd key f values).properties = n.properties ++ [.of key values] := by
  rw [modifyOrAdd, slot?_eq_none h]

namespace Around

/-- A key finds the slot of the first property that it accepts. -/
theorem slot?_eq (h : n.Around key before q after) : n.slot? key = some before.length := by
  have hnone : before.findIdx? (fun p ↦ key.accepts p.key) = none :=
    List.findIdx?_eq_none_iff.2 h.rejects
  rw [slot?, h.eq, List.findIdx?_append, hnone, List.findIdx?_cons, if_pos h.accepts]
  simp

/-- It finds that property. -/
theorem property?_eq (h : n.Around key before q after) : n.property? key = some q :=
  List.find?_eq_some_iff_append.2
    ⟨h.accepts, before, after, h.eq, fun b hb ↦ by simp [h.rejects b hb]⟩

/-- A change in the slot leaves the properties around it. -/
theorem properties_modifySlot (h : n.Around key before q after) (f : Property → Property) :
    (n.modifySlot before.length f).properties = before ++ f q :: after := by
  have hlt : before.length < (before ++ q :: after).length := by simp
  rw [modifySlot, h.eq]
  show (before ++ q :: after).modify before.length f = _
  rw [List.modify_eq_take_cons_drop hlt]
  simp

theorem properties_modifyProperty (h : n.Around key before q after) (f : Property → Property) :
    (n.modifyProperty key f).properties = before ++ f q :: after := by
  rw [modifyProperty, h.slot?_eq]
  exact h.properties_modifySlot f

theorem properties_modifyOrAdd (h : n.Around key before q after) (f : Property → Property)
    (values : List String) :
    (n.modifyOrAdd key f values).properties = before ++ f q :: after := by
  rw [modifyOrAdd, h.slot?_eq]
  exact h.properties_modifySlot f

/-- Removing takes the property out from among the others. -/
theorem properties_removeProperty (h : n.Around key before q after) :
    (n.removeProperty key).properties = before ++ after := by
  rw [removeProperty, h.slot?_eq]
  show n.properties.eraseIdx before.length = _
  rw [h.eq, List.eraseIdx_append_of_length_le (Nat.le_refl _), Nat.sub_self]
  rfl

end Around

/-- Changing or adding a property makes it the one that the key finds. -/
theorem property?_modifyOrAdd {f : Property → Property} (hf : ∀ p, (f p).key = p.key)
    (values : List String) :
    (n.modifyOrAdd key f values).property? key =
      some (((n.property? key).map f).getD (.of key values)) := by
  rcases exists_first (fun p ↦ key.accepts p.key) n.properties with
    hnone | ⟨before, q, after, heq, haccepts, hrejects⟩
  · have haround : (n.modifyOrAdd key f values).Around key n.properties (.of key values) [] :=
      ⟨properties_modifyOrAdd_new hnone f values, key.accepts_self, hnone⟩
    rw [haround.property?_eq, property?_eq_none hnone]
    rfl
  · have haround : n.Around key before q after := ⟨heq, haccepts, hrejects⟩
    have hchanged : (n.modifyOrAdd key f values).Around key before (f q) after :=
      ⟨haround.properties_modifyOrAdd f values, (hf q).symm ▸ haccepts, hrejects⟩
    rw [hchanged.property?_eq, haround.property?_eq]
    rfl

/-- After values were given to a key, it finds them, in the property that it found before or in a
new one. -/
theorem property?_setProperty (n : Node) (key : Key) (values : List String) :
    (n.setProperty key values).property? key =
      some (((n.property? key).map fun p ↦ p.assign values).getD (.of key values)) :=
  property?_modifyOrAdd (f := fun p ↦ p.assign values) (fun _ ↦ rfl) values

/-- After a value was added under a key, it finds the value behind the others. -/
theorem property?_appendValue (n : Node) (key : Key) (value : String) :
    (n.appendValue key value).property? key =
      some (((n.property? key).map fun p ↦ p.push value).getD (.of key [value])) :=
  property?_modifyOrAdd (f := fun p ↦ p.push value) (fun _ ↦ rfl) [value]

/-! ### Edits -/

/-- A change of the properties of a node. -/
inductive Edit where
  | insert (p : Property)
  | setProperty (key : Key) (values : List String)
  | appendValue (key : Key) (value : String)
  | removeValue (key : Key) (value : String)
  | removeProperty (key : Key)
  /-- A change of the property that a look-up gives, to whatever property. -/
  | change (key : Key) (f : Property → Property)

namespace Edit

/-- The node after a change. -/
def apply (n : Node) : Edit → Node
  | insert p => n.insert p
  | setProperty key values => n.setProperty key values
  | appendValue key value => n.appendValue key value
  | removeValue key value => n.removeValue key value
  | removeProperty key => n.removeProperty key
  | change key f => n.modifyProperty key f

/-- The node after changes one after the other. -/
def run (n : Node) (edits : List Edit) : Node := edits.foldl apply n

/-- Whether a change may be meant for a property with this label. -/
def means (label : Key) : Edit → Bool
  | insert p => p.key == label
  | setProperty key _ => key.accepts label
  | appendValue key _ => key.accepts label
  | removeValue key _ => key.accepts label
  | removeProperty key => key.accepts label
  | change key _ => key.accepts label

/-- What the property meant becomes; nothing if it is taken out. -/
def changed (q : Property) : Edit → Option Property
  | insert p => some p
  | setProperty _ values => some (q.assign values)
  | appendValue _ value => some (q.push value)
  | removeValue _ value => some (q.removeAll value)
  | removeProperty _ => none
  | change _ f => some (f q)

/-- The property that is added if none is meant. -/
def added : Edit → Option Property
  | insert p => some p
  | setProperty key values => some (.of key values)
  | appendValue key value => some (.of key [value])
  | removeValue _ _ => none
  | removeProperty _ => none
  | change _ _ => none

/-- Whether a change may give the property meant another key. -/
def isChange : Edit → Bool
  | change _ _ => true
  | _ => false

/-- The edit keeps the key of the property meant. -/
def KeepsKey (e : Edit) : Prop :=
  ∀ q p, e.means q.key = true → e.changed q = some p → p.key = q.key

/-- What a change does to a node. The first property meant is changed or taken out and all others
stay, in their order; if none is meant, all stay and one may be added behind them. Nothing but the
properties changes. -/
structure Affects (e : Edit) (n m : Node) : Prop where
  stem : m.stem = n.stem
  key : e.isChange = false → e.KeepsKey
  first : ∀ before q after, n.properties = before ++ q :: after → e.means q.key = true →
    (∀ b ∈ before, e.means b.key = false) →
    m.properties = before ++ (e.changed q).toList ++ after
  none : (∀ q ∈ n.properties, e.means q.key = false) →
    m.properties = n.properties ++ e.added.toList

/-- Only a change to another property may bring in another key. -/
theorem keepsKey_of_not_isChange {e : Edit} (h : e.isChange = false) : e.KeepsKey := by
  intro q p hmeans hp
  cases e with
  | insert p' =>
    obtain rfl := Option.some.inj hp
    exact beq_iff_eq.1 hmeans
  | removeProperty key => cases hp
  | change key f => cases h
  | _ =>
    obtain rfl := Option.some.inj hp
    rfl

/-- A change that keeps the key of every property does so for the one that is meant. -/
theorem keepsKey_change {f : Property → Property} (hf : ∀ q, (f q).key = q.key) :
    (change key f).KeepsKey := by
  intro q p _ hchanged
  obtain rfl := Option.some.inj hchanged
  exact hf q

/-- A property that is added is one that the edit is meant for. -/
theorem means_of_mem_added {e : Edit} {p : Property} (hp : p ∈ e.added) :
    e.means p.key = true := by
  cases e with
  | insert p' =>
    obtain rfl := Option.some.inj hp
    exact beq_self_eq_true _
  | setProperty key values =>
    obtain rfl := Option.some.inj hp
    exact key.accepts_self
  | appendValue key value =>
    obtain rfl := Option.some.inj hp
    exact key.accepts_self
  | _ => cases hp

end Edit

/-! ### What an edit affects -/

/-- An insertion replaces the property with the same key. -/
theorem properties_insert_around {p : Property} (heq : n.properties = before ++ q :: after)
    (hq : p.key = q.key) (hbefore : ∀ b ∈ before, (p.key == b.key) = false) :
    (n.insert p).properties = before ++ p :: after := by
  have hnone : before.findIdx (fun b ↦ b.key == p.key) = before.length :=
    List.findIdx_eq_length.2 fun b hb ↦ by rw [BEq.comm, hbefore b hb]
  have hslot : n.slotFor p.key = before.length := by
    rw [slotFor, heq, List.findIdx_append, hnone, if_neg (Nat.lt_irrefl _), List.findIdx_cons, hq,
      beq_self_eq_true]
    exact Nat.zero_add _
  have hlt : n.slotFor p.key < n.properties.length := by
    rw [hslot, heq]
    simp
  rw [insert]
  simp only [if_pos hlt]
  rw [hslot, heq, List.set_append_right _ _ (Nat.le_refl _), Nat.sub_self]
  rfl

/-- Otherwise it puts the property behind the others. -/
theorem properties_insert_new {p : Property}
    (h : ∀ q ∈ n.properties, (p.key == q.key) = false) :
    (n.insert p).properties = n.properties ++ [p] := by
  have hnew : p.key ∉ n.properties.map Property.key := by
    rw [List.mem_map]
    rintro ⟨q, hq, heq⟩
    exact absurd heq.symm (by simpa using h q hq)
  rw [insert_of_not_mem hnew]

theorem stem_modifyProperty (n : Node) (key : Key) (f : Property → Property) :
    (n.modifyProperty key f).stem = n.stem := by
  rw [modifyProperty]
  split <;> rfl

theorem stem_modifyOrAdd (n : Node) (key : Key) (f : Property → Property) (values : List String) :
    (n.modifyOrAdd key f values).stem = n.stem := by
  rw [modifyOrAdd]
  split <;> rfl

theorem stem_removeProperty (n : Node) (key : Key) : (n.removeProperty key).stem = n.stem := by
  rw [removeProperty]
  split <;> rfl

namespace Edit

/-- No edit of properties touches the links of the node or its key. -/
theorem stem_apply (e : Edit) (n : Node) : (e.apply n).stem = n.stem := by
  cases e with
  | insert p => exact n.stem_insert p
  | setProperty key values => exact n.stem_modifyOrAdd key _ values
  | appendValue key value => exact n.stem_modifyOrAdd key _ [value]
  | removeValue key value => exact n.stem_modifyProperty key _
  | removeProperty key => exact n.stem_removeProperty key
  | change key f => exact n.stem_modifyProperty key f

/-- The first property meant is changed or taken out. -/
theorem properties_apply_around {e : Edit} (heq : n.properties = before ++ q :: after)
    (hmeans : e.means q.key = true) (hbefore : ∀ b ∈ before, e.means b.key = false) :
    (e.apply n).properties = before ++ (e.changed q).toList ++ after := by
  rw [List.append_assoc]
  cases e with
  | insert p => exact properties_insert_around heq (beq_iff_eq.1 hmeans) hbefore
  | setProperty key values => exact (Around.mk heq hmeans hbefore).properties_modifyOrAdd _ values
  | appendValue key value => exact (Around.mk heq hmeans hbefore).properties_modifyOrAdd _ [value]
  | removeValue key value => exact (Around.mk heq hmeans hbefore).properties_modifyProperty _
  | removeProperty key => exact (Around.mk heq hmeans hbefore).properties_removeProperty
  | change key f => exact (Around.mk heq hmeans hbefore).properties_modifyProperty f

/-- If none is meant, the edit adds a property or does nothing. -/
theorem properties_apply_none {e : Edit} (h : ∀ q ∈ n.properties, e.means q.key = false) :
    (e.apply n).properties = n.properties ++ e.added.toList := by
  cases e with
  | insert p => exact properties_insert_new h
  | setProperty key values => exact properties_modifyOrAdd_new h _ values
  | appendValue key value => exact properties_modifyOrAdd_new h _ [value]
  | removeValue key value =>
    rw [apply, Node.removeValue, modifyProperty_eq_self h]
    exact (List.append_nil _).symm
  | removeProperty key =>
    rw [apply, Node.removeProperty, slot?_eq_none h]
    exact (List.append_nil _).symm
  | change key f =>
    rw [apply, modifyProperty_eq_self h]
    exact (List.append_nil _).symm

/-- Every edit affects the property that it is meant for and no other. -/
theorem affects (e : Edit) (n : Node) : e.Affects n (e.apply n) :=
  ⟨e.stem_apply n, keepsKey_of_not_isChange, fun _ _ _ ↦ properties_apply_around,
    properties_apply_none⟩

/-! ### Keys -/

/-- The edit gives the property meant the key of another one. -/
def Collides (e : Edit) (n : Node) : Prop :=
  ∃ before q after p, n.properties = before ++ q :: after ∧ e.means q.key = true ∧
    (∀ b ∈ before, e.means b.key = false) ∧ e.changed q = some p ∧
    p.key ∈ (before ++ after).map Property.key

/-- Where another property takes the place of one, the keys stay different unless its key is that of
a third. -/
theorem nodup_keys_replaced_iff {p : Property}
    (h : ((before ++ q :: after).map Property.key).Nodup) :
    ((before ++ p :: after).map Property.key).Nodup ↔
      p.key ∉ (before ++ after).map Property.key := by
  rw [List.map_append, List.map_cons, List.nodup_middle, List.nodup_cons] at h ⊢
  rw [List.map_append, and_iff_left h.2]

/-- **One edit keeps the keys of the properties different** unless it collides. -/
theorem nodup_keys_apply_iff (h : (n.properties.map Property.key).Nodup) (e : Edit) :
    ((e.apply n).properties.map Property.key).Nodup ↔ ¬ e.Collides n := by
  constructor
  · rintro hnodup ⟨before, q, after, p, heq, hmeans, hbefore, hchanged, hkey⟩
    rw [properties_apply_around heq hmeans hbefore, hchanged, Option.toList_some, List.append_assoc,
      List.singleton_append, nodup_keys_replaced_iff (q := q) (heq ▸ h)] at hnodup
    exact hnodup hkey
  intro hcollides
  rcases exists_first (fun p ↦ e.means p.key) n.properties with
    hnone | ⟨before, q, after, heq, hmeans, hbefore⟩
  · rw [properties_apply_none hnone, List.map_append]
    cases hadded : e.added with
    | none =>
      rw [Option.toList_none, List.map_nil, List.append_nil]
      exact h
    | some p =>
      refine h.append (List.nodup_singleton _) fun key hkey hmem ↦ ?_
      obtain rfl := List.mem_singleton.1 hmem
      obtain ⟨q, hq, hkeys⟩ := List.mem_map.1 hkey
      have hmeant := means_of_mem_added (e := e) hadded
      rw [← hkeys, hnone q hq] at hmeant
      cases hmeant
  · rw [heq] at h
    rw [properties_apply_around heq hmeans hbefore, List.append_assoc]
    cases hchanged : e.changed q with
    | none =>
      exact h.sublist (((List.Sublist.refl before).append (List.sublist_cons_self q after)).map _)
    | some p =>
      rw [Option.toList_some, List.singleton_append, nodup_keys_replaced_iff h]
      exact fun hkey ↦ hcollides ⟨before, q, after, p, heq, hmeans, hbefore, hchanged, hkey⟩

/-- An edit that keeps keys does not collide where they are different. -/
theorem KeepsKey.not_collides {e : Edit} (he : e.KeepsKey)
    (h : (n.properties.map Property.key).Nodup) : ¬ e.Collides n := by
  rintro ⟨before, q, after, p, heq, hmeans, -, hchanged, hkey⟩
  rw [he q p hmeans hchanged] at hkey
  exact (nodup_keys_replaced_iff (heq ▸ h)).1 (heq ▸ h) hkey

/-- No edit of the run collides. -/
def NoneCollides (n : Node) (edits : List Edit) : Prop :=
  ∀ before e after, edits = before ++ e :: after → ¬ e.Collides (run n before)

/-- The first edit of a run is looked at before the others. -/
theorem noneCollides_cons {e : Edit} {edits : List Edit} :
    NoneCollides n (e :: edits) ↔ ¬ e.Collides n ∧ NoneCollides (e.apply n) edits := by
  refine ⟨fun h ↦ ⟨h [] e edits rfl, fun before e' after heq ↦ ?_⟩, ?_⟩
  · exact h (e :: before) e' after (congrArg (e :: ·) heq)
  · rintro ⟨hfirst, hrest⟩ before e' after heq
    cases before with
    | nil =>
      obtain ⟨rfl, -⟩ := List.cons.inj heq
      exact hfirst
    | cons _ before =>
      obtain ⟨rfl, hedits⟩ := List.cons.inj heq
      exact hrest before e' after hedits

/-- Edits that do not collide keep the keys different. -/
theorem nodup_keys_run (h : (n.properties.map Property.key).Nodup) {edits : List Edit}
    (hedits : NoneCollides n edits) : ((run n edits).properties.map Property.key).Nodup := by
  induction edits generalizing n with
  | nil => exact h
  | cons e rest ih =>
    obtain ⟨hfirst, hrest⟩ := noneCollides_cons.1 hedits
    exact ih ((nodup_keys_apply_iff h e).2 hfirst) hrest

/-- Edits that keep keys do not collide. -/
theorem noneCollides_of_keepsKey (h : (n.properties.map Property.key).Nodup) {edits : List Edit}
    (hedits : ∀ e ∈ edits, e.KeepsKey) : NoneCollides n edits := by
  induction edits generalizing n with
  | nil => exact fun before e after heq ↦ absurd heq (by simp)
  | cons e rest ih =>
    obtain ⟨hfirst, hrest⟩ := List.forall_mem_cons.1 hedits
    have hnone := hfirst.not_collides h
    exact noneCollides_cons.2 ⟨hnone, ih ((nodup_keys_apply_iff h e).2 hnone) hrest⟩

/-- **After edits that do not collide the properties of a node have different keys**, if they had at
first, as those of a new node have. The next edit keeps them different exactly if it does not
collide either, and only a change to another property may, not an edit of a property. Giving a key
values makes them those of the property that it finds, with their readings, and a value added under
a key is the last one of the property that it finds. An edit affects one property only: the first
that it is meant for, which keeps its slot and, if not changed to another, its key, or is taken out;
or a new one behind all others. -/
theorem keys_differ_after_edits (h : (n.properties.map Property.key).Nodup) (edits : List Edit)
    (hedits : NoneCollides n edits) :
    let m := run n edits
    (m.properties.map Property.key).Nodup ∧
    (∀ e : Edit, ((e.apply m).properties.map Property.key).Nodup ↔ ¬ e.Collides m) ∧
    (∀ e : Edit, e.isChange = false → ¬ e.Collides m) ∧
    (∀ key (e : Property.Edit), ¬ (change key fun p ↦ e.apply p).Collides m) ∧
    (∀ key values, ∃ p, (m.setProperty key values).property? key = some p ∧ p.values = values ∧
      p.derived = some (Readings.of values)) ∧
    (∀ key value, ∃ p, (m.appendValue key value).property? key = some p ∧
      p.values = ((m.property? key).map Property.values).getD [] ++ [value]) ∧
    ∀ e : Edit, e.Affects m (e.apply m) := by
  intro m
  have hm : (m.properties.map Property.key).Nodup := nodup_keys_run h hedits
  refine ⟨hm, nodup_keys_apply_iff hm, fun e hkind ↦ ?_, fun key e ↦ ?_, fun key values ↦ ?_,
    fun key value ↦ ?_, fun e ↦ e.affects m⟩
  · exact (keepsKey_of_not_isChange hkind).not_collides hm
  · exact (keepsKey_change e.key_apply).not_collides hm
  · refine ⟨_, m.property?_setProperty key values, ?_⟩
    cases m.property? key <;> exact ⟨rfl, rfl⟩
  · refine ⟨_, m.property?_appendValue key value, ?_⟩
    cases m.property? key <;> rfl

/-- A key without a category finds a sword among the weapons, and a property that is inserted with
just this key stands beside it. -/
theorem keys_differ_after_edits_of_sword :
    let sword := Key.named "sword"
    let edits := [.insert (.of ⟨"sword", some "weapon"⟩ ["iron"]), .appendValue sword "sharp",
      .insert (.of sword ["wood"]), .change sword Property.recompute]
    let m := run (.bare (Key.named "soldier")) edits
    ((bare (Key.named "soldier")).properties.map Property.key).Nodup ∧
    NoneCollides (bare (Key.named "soldier")) edits ∧
    m.properties.map Property.key = [⟨"sword", some "weapon"⟩, sword] ∧
    (m.properties.map Property.key).Nodup ∧
    (∃ p, (m.appendValue sword "long").property? sword = some p ∧
      p.values = ["iron", "sharp", "long"]) ∧
    ((Edit.removeProperty sword).apply m).properties = [.of sword ["wood"]] := by
  intro sword edits m
  have hbare : ((bare (Key.named "soldier")).properties.map Property.key).Nodup := List.nodup_nil
  have hedits : NoneCollides (bare (Key.named "soldier")) edits :=
    noneCollides_of_keepsKey hbare <| by
      simp only [edits, List.forall_mem_cons]
      exact ⟨keepsKey_of_not_isChange rfl, keepsKey_of_not_isChange rfl,
        keepsKey_of_not_isChange rfl, keepsKey_change fun _ ↦ rfl, List.forall_mem_nil _⟩
  obtain ⟨hnodup, -, -, -, -, happend, haffects⟩ := keys_differ_after_edits hbare edits hedits
  exact ⟨hbare, hedits, by decide, hnodup, happend sword "long",
    (haffects (.removeProperty sword)).first [] _ _ rfl (by decide) nofun⟩

/-- **A collision repeats a key.** The first of two properties is looked up, and a property with the
key of the second is put in its place. -/
theorem collision_repeats_key :
    let n := run (.bare (Key.named "soldier"))
      [.insert (.of (Key.named "a") []), .insert (.of (Key.named "b") [])]
    let e : Edit := .change (Key.named "a") fun _ ↦ .of (Key.named "b") []
    (n.properties.map Property.key).Nodup ∧
      (e.apply n).properties.map Property.key = [Key.named "b", Key.named "b"] ∧
      ¬ ((e.apply n).properties.map Property.key).Nodup := by
  decide

end Edit

end ModContent.Node
