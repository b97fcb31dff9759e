import ModContent.Diagnostic
import ModContent.Tree.Outline

/-!
# Checks of a tree

Top-level nodes that define nothing or have no category are worth a warning; a property whose
values are not read is an error. The last check looks at the nodes below the root in preorder,
detached ones left out.
-/

namespace ModContent

namespace ContentTree

/-- The top-level nodes in tree order. -/
def topLevel (t : ContentTree) : List (NodeId × Node) := t.children root

/-- Top-level nodes with neither properties nor children. -/
def checkEmpty (t : ContentTree) : List Diagnostic :=
  (t.topLevel.filter fun (id, node) ↦ node.properties.isEmpty && (t.children id).isEmpty).map
    fun (_, node) ↦
      .warning "moddef::check::empty-node" s!"'{node.key.text}' defines nothing"
        (some "Add properties to the block or remove it")

/-- Top-level nodes without a category, which no registry takes up. -/
def checkUncategorised (t : ContentTree) : List Diagnostic :=
  (t.topLevel.filter fun (_, node) ↦ node.key.category.isNone).map fun (_, node) ↦
    .warning "moddef::check::uncategorised" s!"top-level node '{node.key.name}' has no category"
      (some s!"Write the header as `category:{node.key.name}`")

/-- The finding for a property without readings, in the node that the keys lead to. -/
def staleFinding (keys : List Key) (p : Property) : Diagnostic :=
  let owner := String.intercalate "." (keys.map Key.text)
  .error "moddef::check::stale-values" s!"'{owner}.{p.key.text}' has no computed values"
    (some "Call `Property::recompute` after editing values")

/-- Properties below the root whose values are not read. -/
def checkStale (t : ContentTree) : List Diagnostic :=
  (Outline.addressedAll [] t.outline.children).flatMap fun (keys, outline) ↦
    (outline.properties.filter fun p ↦ !p.isComputed).map (staleFinding keys)

/-- All checks of a tree, one after the other. -/
def validate (t : ContentTree) : List Diagnostic :=
  t.checkEmpty ++ t.checkUncategorised ++ t.checkStale

end ContentTree

end ModContent
