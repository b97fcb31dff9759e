import ModContent.Error
import ModContent.Tree.Path

/-!
# References

A statement `name = @path` leaves a property without values behind and queues a reference: the slot
that waits, the path of the property to copy, and the place of the statement. `ReferenceFault` says
why a reference cannot be resolved.
-/

namespace ModContent

/-- A property slot that waits for the values at a path. -/
structure Reference where
  node : NodeId
  slot : Nat
  path : String
  location : Location
  deriving DecidableEq, Repr

namespace Reference

/-- The node and the slot that wait for the value. -/
def place (r : Reference) : NodeId × Nat := (r.node, r.slot)

/-- The queue without the references of one slot. -/
def cancel (queue : List Reference) (place : NodeId × Nat) : List Reference :=
  queue.filter fun r ↦ r.place != place

end Reference

/-! ### Faults -/

/-- Why a reference cannot be resolved. -/
inductive ReferenceFault where
  | malformedPath
  | noNode (key : Key)
  | noTopLevelProperty (key : Key)
  | noProperty (owner key : Key)
  | refersToItself
  | cycle (paths : List String)
  deriving DecidableEq, Repr

namespace ReferenceFault

/-- What a fault says. -/
def message : ReferenceFault → String
  | malformedPath => "malformed path"
  | noNode key => s!"no node '{key.text}'"
  | noTopLevelProperty key => s!"no top-level property '{key.text}'"
  | noProperty owner key => s!"node '{owner.text}' has no property '{key.text}'"
  | refersToItself => "the property refers to itself"
  | cycle paths =>
    "reference cycle " ++ String.intercalate " -> " (paths.map fun path ↦ "@" ++ path)

/-- What may be done about a fault. Only a cycle calls for a change of the properties in it. -/
def help : ReferenceFault → String
  | refersToItself | cycle _ => "Give one property in the cycle a literal value"
  | _ => "References see everything in the same package and in packages loaded before it"

end ReferenceFault

/-- A reference that cannot be resolved, and why. -/
structure ReferenceFailure where
  reference : Reference
  fault : ReferenceFault
  deriving DecidableEq, Repr

/-- The error that names the reference, its line and its fault. -/
def ReferenceFailure.toError (failure : ReferenceFailure) : ContentError :=
  .reference failure.reference.location failure.reference.path
    ⟨failure.fault.message, some failure.fault.help⟩

namespace ContentTree

/-- Why nothing is found at a path: its first key that leads nowhere. -/
def missingAt (t : ContentTree) (path : String) : ReferenceFault :=
  match DottedPath.parse path with
  | none => .malformedPath
  | some path => go root path.nodes path.last
where
  go (scope : NodeId) : List Key → Key → ReferenceFault
  | [], last =>
    if scope = root then .noTopLevelProperty last
    else .noProperty (((t.node? scope).map Node.key).getD (Key.named "")) last
  | key :: keys, last =>
    match t.child? scope key with
    | some child => go child keys last
    | none => .noNode key

end ContentTree

end ModContent
