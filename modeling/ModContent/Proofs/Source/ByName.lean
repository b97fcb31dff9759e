import ModContent.Proofs.Reference.Meaning
import ModContent.Proofs.Source.OuterNames

/-!
# Content name by name

Keys are looked up by name, so what stands under one name is never reached through another one. The
top level of an outline can therefore be taken apart by its names (`Outline.restrict`), and an item
touches the part of its own name only (`Item.restrict_draftAll`).

Outlines with the same parts differ in the order of the parts at most (`Outline.SameByName`). A path
finds the same property in both, so its meaning is the same too, and they are resolved alike
(`SameByName.settled`).
-/

namespace ModContent

/-- A key is looked up among those of its name. -/
theorem find?_filter_name {α : Type} (label : α → Key) (key : Key) (xs : List α) :
    (xs.filter fun a ↦ (label a).name = key.name).find? (fun a ↦ key.accepts (label a)) =
      xs.find? fun a ↦ key.accepts (label a) := by
  rw [List.find?_filter]
  congr 1
  funext a
  by_cases haccepts : key.accepts (label a) = true
  · simp [haccepts, Key.name_eq_of_accepts haccepts]
  · simp [haccepts]

/-- Putting a property changes those of its name only. -/
theorem filter_putProperty (p : Property) (properties : List Property) (name : String) :
    (putProperty p properties).filter (fun q ↦ q.key.name = name) =
      if p.key.name = name then putProperty p (properties.filter fun q ↦ q.key.name = name)
      else properties.filter fun q ↦ q.key.name = name := by
  induction properties with
  | nil => by_cases hp : p.key.name = name <;> simp [putProperty, hp]
  | cons q rest ih =>
    rw [putProperty]
    by_cases hq : q.key = p.key
    · by_cases hp : p.key.name = name <;> simp [putProperty, hq, hp]
    · rw [if_neg hq, List.filter_cons, List.filter_cons, ih]
      by_cases hp : p.key.name = name <;> by_cases hname : q.key.name = name <;>
        simp [putProperty, hq, hp, hname]

namespace Outline

variable {key : Key} {f : Outline → Outline} {o o' : Outline} {name : OuterName}

/-- Entering a child changes those of its name only. -/
theorem filter_enterChild (hf : ∀ o, (f o).key = o.key) (children : List Outline)
    (name : String) :
    (enterChild key f children).filter (fun child ↦ child.key.name = name) =
      if key.name = name
      then enterChild key f (children.filter fun child ↦ child.key.name = name)
      else children.filter fun child ↦ child.key.name = name := by
  have hnew : (f (.node key [] [])).key = key := hf _
  induction children with
  | nil => by_cases hkey : key.name = name <;> simp [enterChild, hnew, hkey]
  | cons child rest ih =>
    rw [enterChild]
    by_cases haccepts : key.accepts child.key = true
    · have hsame := Key.name_eq_of_accepts haccepts
      by_cases hkey : key.name = name <;> simp [enterChild, haccepts, hsame, hf, hkey]
    · rw [if_neg haccepts, List.filter_cons, List.filter_cons, ih]
      by_cases hkey : key.name = name <;> by_cases hname : child.key.name = name <;>
        simp [enterChild, haccepts, hkey, hname]

/-! ### Parts of an outline -/

/-- The properties, or the children, of one name. -/
def restrict : OuterName → Outline → Outline
  | .property name, o => .node o.key (o.properties.filter fun p ↦ p.key.name = name) []
  | .block name, o => .node o.key [] (o.children.filter fun child ↦ child.key.name = name)

/-- Seen by one name, putting a property is putting it if it has this name, and nothing else
otherwise. -/
theorem restrict_put (o : Outline) (p : Property) (name : OuterName) :
    (o.put p).restrict name =
      if .property p.key.name = name then (o.restrict name).put p else o.restrict name := by
  cases name with
  | property name =>
    show Outline.node o.key ((putProperty p o.properties).filter _) [] = _
    rw [filter_putProperty]
    by_cases hp : p.key.name = name
    · rw [if_pos hp, if_pos (congrArg _ hp)]
      rfl
    · rw [if_neg hp, if_neg fun h ↦ hp (OuterName.property.inj h)]
      rfl
  | block name =>
    rw [if_neg fun h ↦ nomatch h]
    rfl

theorem restrict_enter (hf : ∀ o, (f o).key = o.key) (o : Outline) (name : OuterName) :
    (o.enter key f).restrict name =
      if .block key.name = name then (o.restrict name).enter key f else o.restrict name := by
  cases name with
  | property name =>
    rw [if_neg fun h ↦ nomatch h]
    rfl
  | block name =>
    show Outline.node o.key [] ((enterChild key f o.children).filter _) = _
    rw [filter_enterChild hf]
    by_cases hkey : key.name = name
    · rw [if_pos hkey, if_pos (congrArg _ hkey)]
      rfl
    · rw [if_neg hkey, if_neg fun h ↦ hkey (OuterName.block.inj h)]
      rfl

/-- A change of all properties that keeps keys can be seen by each name. -/
theorem restrict_mapProperties {f : Property → Property} (hf : ∀ p, (f p).key = p.key)
    (o : Outline) (name : OuterName) :
    (o.mapProperties f).restrict name = (o.restrict name).mapProperties f := by
  rw [mapProperties_eq, mapProperties_eq]
  cases name with
  | property name =>
    show Outline.node o.key ((o.properties.map f).filter _) [] = _
    rw [List.filter_map]
    simp only [Function.comp_def, hf]
    rfl
  | block name =>
    show Outline.node o.key [] ((o.children.map (mapProperties f)).filter _) = _
    rw [List.filter_map]
    simp only [Function.comp_def, key_mapProperties]
    rfl

/-! ### Outlines with the same parts -/

/-- Under each name stand the same properties and the same children, in the same order. -/
def SameByName (o o' : Outline) : Prop := ∀ name, o'.restrict name = o.restrict name

namespace SameByName

theorem symm (h : SameByName o o') : SameByName o' o := fun name ↦ (h name).symm

theorem properties_eq (h : SameByName o o') (name : String) :
    o'.properties.filter (fun p ↦ p.key.name = name) =
      o.properties.filter fun p ↦ p.key.name = name :=
  congrArg properties (h (.property name))

theorem children_eq (h : SameByName o o') (name : String) :
    o'.children.filter (fun child ↦ child.key.name = name) =
      o.children.filter fun child ↦ child.key.name = name :=
  congrArg children (h (.block name))

/-- A property of any key is found on both sides. -/
theorem named?_eq (h : SameByName o o') (key : Key) : o'.named? key = o.named? key := by
  rw [named?, ← find?_filter_name Property.key, h.properties_eq, find?_filter_name Property.key,
    named?]

theorem child?_eq (h : SameByName o o') (key : Key) : o'.child? key = o.child? key := by
  rw [child?, ← find?_filter_name Outline.key, h.children_eq, find?_filter_name Outline.key,
    child?]

/-- **A path finds the same property** in outlines with the same parts. -/
theorem property?_eq (h : SameByName o o') : o'.property? = o.property? := by
  funext path
  rw [property?, property?]
  refine congrArg _ (funext fun path ↦ ?_)
  cases hnodes : path.nodes with
  | nil => exact h.named?_eq path.last
  | cons key keys =>
    rw [follow?, follow?, List.foldlM_cons, List.foldlM_cons, h.child?_eq]

/-- What is a property somewhere below is one on the other side. -/
theorem has (h : SameByName o o') {p : Property} (hp : o.Has p) : o'.Has p := by
  cases hp with
  | here mem =>
    have hpart : p ∈ o.properties.filter fun q ↦ q.key.name = p.key.name :=
      List.mem_filter.2 ⟨mem, decide_eq_true rfl⟩
    rw [← h.properties_eq] at hpart
    exact .here (List.mem_filter.1 hpart).1
  | @inside _ child _ mem below =>
    have hpart : child ∈ o.children.filter fun c ↦ c.key.name = child.key.name :=
      List.mem_filter.2 ⟨mem, decide_eq_true rfl⟩
    rw [← h.children_eq] at hpart
    exact .inside (List.mem_filter.1 hpart).1 below

theorem resolvable (h : SameByName o o') (hresolvable : o.Resolvable) : o'.Resolvable := by
  intro p hp hwaits
  rw [h.property?_eq]
  exact hresolvable p (h.symm.has hp) hwaits

/-- The values are filled in alike. -/
theorem settled (h : SameByName o o') : SameByName o.settled o'.settled := by
  intro name
  have hkey := Property.key_settle o.property?
  rw [Outline.settled, h.property?_eq, Outline.settled, restrict_mapProperties hkey, h,
    restrict_mapProperties hkey]

end SameByName

end Outline

/-! ### Items and names -/

namespace Item

theorem key_foldl_put (properties : List Property) (o : Outline) :
    (properties.foldl Outline.put o).key = o.key := by
  induction properties generalizing o with
  | nil => rfl
  | cons p rest ih => exact ih (o.put p)

theorem key_draft (item : Item) (o : Outline) : (item.draft o).key = o.key := by
  cases item <;> rfl

theorem key_draftAll (items : List Item) (o : Outline) : (draftAll items o).key = o.key := by
  induction items generalizing o with
  | nil => rfl
  | cons item rest ih => exact (ih _).trans (key_draft item o)

/-- An item changes what stands under its name. -/
theorem restrict_draft (item : Item) (o : Outline) (name : OuterName) :
    (item.draft o).restrict name =
      if item.outerName = name then item.draft (o.restrict name) else o.restrict name := by
  cases item with
  | statement offset s =>
    rw [draft, Outline.restrict_put, Content.key_draftProperty]
    rfl
  | block offset header items =>
    rw [draft, Outline.restrict_enter]
    · rfl
    · intro child
      rw [key_draftAll, key_foldl_put]

/-- **What stands under a name** is made by the items of that name. -/
theorem restrict_draftAll (items : List Item) (o : Outline) (name : OuterName) :
    (draftAll items o).restrict name =
      draftAll (items.filter fun item ↦ item.outerName = name) (o.restrict name) := by
  induction items generalizing o with
  | nil => rfl
  | cons item rest ih =>
    rw [draftAll, ih, restrict_draft, List.filter_cons]
    by_cases hname : item.outerName = name
    · rw [if_pos hname, if_pos (decide_eq_true hname)]
      rfl
    · rw [if_neg hname, if_neg (by simpa using hname)]

end Item

end ModContent
