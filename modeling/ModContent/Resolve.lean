import ModContent.Reference

/-!
# Resolving references

Each queued reference is followed: to the property at its path, and on from there as long as that
property is itself queued and not yet filled. The chain so found ends in a property with settled
values, and they are copied back along it. Every link of a chain is a queue entry of its own, so a
chain is at most as long as the queue; a link met twice is a cycle. Copies made before a failure
stay.
-/

namespace ModContent

namespace Resolve

/-- A queued reference with its number in the queue. -/
structure Link where
  number : Nat
  reference : Reference
  deriving DecidableEq, Repr

/-- The links of a queue, the latest first. -/
def links (queue : List Reference) : List Link :=
  (queue.zipIdx.map fun (r, i) ↦ ⟨i, r⟩).reverse

/-- The link that waits in a slot; the latest one counts. -/
def linkAt? (links : List Link) (place : NodeId × Nat) : Option Link :=
  links.find? fun link ↦ link.reference.place == place

/-- The slot that a reference points at. -/
def target (t : ContentTree) (r : Reference) : Except ReferenceFailure (NodeId × Nat) :=
  match t.locate? r.path with
  | some place => .ok place
  | none => .error ⟨r, t.missingAt r.path⟩

/-- The failure of a chain that leads back to one of its links, reported for its first reference.
The chain is given with its latest link in front. -/
def cycleFailure (chain : List Link) (back : Link) : ReferenceFailure :=
  let first := chain.getLast?.getD back
  let loop := chain.reverse.dropWhile (· ≠ back) ++ [back]
  { reference := first.reference
    fault :=
      if chain.length = 1 ∧ first = back then .refersToItself
      else .cycle (loop.map fun link ↦ link.reference.path) }

/-- Follows a chain on from the slot that its latest link points at. Gives the whole chain and the
settled slot at its end. The fuel bounds the number of links to come. -/
def follow (t : ContentTree) (links : List Link) (done : List Nat) :
    Nat → List Link → NodeId × Nat → Except ReferenceFailure (List Link × (NodeId × Nat))
  | 0, chain, place => .ok (chain, place)
  | fuel + 1, chain, place =>
    match linkAt? links place with
    | none => .ok (chain, place)
    | some next =>
      if next.number ∈ done then .ok (chain, place)
      else if next ∈ chain then .error (cycleFailure chain next)
      else do follow t links done fuel (next :: chain) (← target t next.reference)

/-- The values in a slot; none if there is no such slot. -/
def valuesAt (t : ContentTree) (place : NodeId × Nat) : List String :=
  ((t.slot? place).map Property.values).getD []

/-- Copies values back along a chain: from the settled slot into its latest link, from there into
the one before, and so on. -/
def copyBack (t : ContentTree) (settled : NodeId × Nat) : List Link → ContentTree
  | [] => t
  | link :: chain =>
    copyBack (t.assignSlot link.reference.place (valuesAt t settled)) link.reference.place chain

/-- Resolves the links to come, given in queue order, after those already done. -/
def run (links : List Link) :
    List Link → List Nat → ContentTree → ContentTree × Except ReferenceFailure Unit
  | [], _, t => (t, .ok ())
  | link :: rest, done, t =>
    if link.number ∈ done then run links rest done t
    else
      match target t link.reference >>= follow t links done links.length [link] with
      | .error failure => (t, .error failure)
      | .ok (chain, settled) =>
        run links rest (chain.map Link.number ++ done) (copyBack t settled chain)

end Resolve

/-- Resolves a queue against a tree: the tree as far as it got, and the number of references
resolved or the first failure. -/
def resolve (t : ContentTree) (queue : List Reference) :
    ContentTree × Except ReferenceFailure Nat :=
  let links := Resolve.links queue
  let (resolved, outcome) := Resolve.run links links.reverse [] t
  (resolved, outcome.map fun _ ↦ queue.length)

end ModContent
