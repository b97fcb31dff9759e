import ModContent.Package
import ModContent.Registry.Rebuild

/-!
# Stores of trees

A store keeps trees under handles. A reload loads packages into a new tree and rebuilds registries
against it; only when both succeed does the tree replace the one under its handle.
-/

namespace ModContent

universe u

/-- Trees by handle, each handle at most once. -/
structure ContentStore where
  trees : List (String × ContentTree)
  deriving DecidableEq, Repr

/-- What a reload did. -/
structure ReloadReport where
  stats : LoadStats
  diagnostics : List Diagnostic
  registries : List RebuildReport
  deriving DecidableEq, Repr

namespace ContentStore

/-- The handle that packages load into. -/
def documentRoot : String := "definition_root"

/-- The store without trees. -/
def empty : ContentStore := ⟨[]⟩

/-- The tree under a handle. -/
def get? (s : ContentStore) (handle : String) : Option ContentTree := s.trees.lookup handle

/-- Whether there is a tree under a handle. -/
def contains (s : ContentStore) (handle : String) : Bool := (s.get? handle).isSome

/-- Takes away the tree under a handle. -/
def remove (s : ContentStore) (handle : String) : ContentStore :=
  ⟨s.trees.filter fun entry ↦ entry.1 ≠ handle⟩

/-- Puts a tree under a handle, in place of the one that was there. -/
def register (s : ContentStore) (handle : String) (t : ContentTree) : ContentStore :=
  ⟨(handle, t) :: (s.remove handle).trees⟩

/-- Loads packages under a handle and rebuilds registries against the new tree. A failure leaves
the trees as they were, and what the registries show. -/
def reload {ρ : Type u} [Rebuildable ρ] (s : ContentStore) (handle : String)
    (packages : List Package) (registries : List ρ) :
    ContentStore × List ρ × Except ContentError ReloadReport :=
  match load packages with
  | .error error => (s, registries, .error error)
  | .ok loaded =>
    match rebuildAll loaded.tree registries with
    | (kept, .error error) => (s, kept, .error error)
    | (rebuilt, .ok reports) =>
      (s.register handle loaded.tree, rebuilt, .ok ⟨loaded.stats, loaded.diagnostics, reports⟩)

end ContentStore

end ModContent
