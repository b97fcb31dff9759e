import ModContent.Tree.Node

/-!
# The arena of a tree

Nodes are kept by handle. A handle is given out once: the next one is the number of handles given
so far, and a handle whose node is erased stays dead. Each operation is described by what
`Arena.get?` sees after it.
-/

namespace ModContent

/-- The nodes by handle; a dead handle has none. -/
structure Arena where
  slots : Array (Option Node)
  deriving DecidableEq, Repr

namespace Arena

/-- The arena without slots. -/
def empty : Arena := ⟨#[]⟩

/-- The node of a live handle. -/
def get? (a : Arena) (id : NodeId) : Option Node := a.slots[id.index]?.join

/-- The handle that the next new node gets. -/
def nextId (a : Arena) : NodeId := ⟨a.slots.size⟩

/-- Adds a node under `nextId`. -/
def push (a : Arena) (node : Node) : Arena := ⟨a.slots.push (some node)⟩

/-- Changes the node of a live handle. -/
def modify (a : Arena) (id : NodeId) (f : Node → Node) : Arena :=
  ⟨a.slots.modify id.index fun slot ↦ slot.map f⟩

/-- Makes a handle dead. -/
def erase (a : Arena) (id : NodeId) : Arena := ⟨a.slots.modify id.index fun _ ↦ none⟩

/-- The number of live handles. -/
def size (a : Arena) : Nat := a.slots.countP Option.isSome

/-- A bound on the number of handles, live and dead. -/
def capacity (a : Arena) : Nat := a.slots.size

@[simp] theorem get?_empty (id : NodeId) : empty.get? id = none := by simp [empty, get?]

/-- A new node takes the next handle, and the others stay where they are. -/
@[simp] theorem get?_push (a : Arena) (node : Node) (id : NodeId) :
    (a.push node).get? id = if id = a.nextId then some node else a.get? id := by
  rcases id with ⟨i⟩
  simp only [push, get?, nextId, NodeId.mk.injEq, Array.getElem?_push]
  split <;> rfl

/-- A change under a handle is seen under this one only. -/
@[simp] theorem get?_modify (a : Arena) (id j : NodeId) (f : Node → Node) :
    (a.modify id f).get? j = if j = id then (a.get? j).map f else a.get? j := by
  rcases id with ⟨i⟩
  rcases j with ⟨j⟩
  simp only [modify, get?, NodeId.mk.injEq, Array.getElem?_modify]
  by_cases h : i = j
  · subst h
    cases a.slots[i]? with
    | none => simp
    | some slot => cases slot <;> simp
  · simp [h, Ne.symm h]

/-- Erasing makes one handle dead and no other. -/
@[simp] theorem get?_erase (a : Arena) (id j : NodeId) :
    (a.erase id).get? j = if j = id then none else a.get? j := by
  rcases id with ⟨i⟩
  rcases j with ⟨j⟩
  simp only [erase, get?, NodeId.mk.injEq, Array.getElem?_modify]
  by_cases h : i = j
  · subst h
    cases a.slots[i]? <;> simp
  · simp [h, Ne.symm h]

end Arena

end ModContent
