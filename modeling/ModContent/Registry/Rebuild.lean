import ModContent.Registry.Basic

/-!
# Rebuilding several registries

Registries of different definition types are rebuilt against one tree together: all are staged, in
order, before any is committed, and if one fails all are discarded.
-/

namespace ModContent

universe u

/-- Something that is rebuilt in two steps. -/
class Rebuildable (ρ : Type u) where
  unlock : ρ → ρ
  stage : ρ → ContentTree → ρ × Except ContentError RebuildReport
  commit : ρ → ρ
  discard : ρ → ρ

instance {α : Type} [Definition α] : Rebuildable (Registry α) where
  unlock := Registry.unlock
  stage := Registry.stage
  commit := Registry.commit
  discard := Registry.discard

/-- A registry of any definition type. -/
structure AnyRegistry where
  {α : Type}
  [definition : Definition α]
  registry : Registry α

attribute [instance] AnyRegistry.definition

instance : Rebuildable AnyRegistry where
  unlock r := { r with registry := r.registry.unlock }
  stage r t :=
    let (staged, outcome) := r.registry.stage t
    ({ r with registry := staged }, outcome)
  commit r := { r with registry := r.registry.commit }
  discard r := { r with registry := r.registry.discard }

variable {ρ : Type u} [Rebuildable ρ]

/-- Stages registries in order, up to the first that fails. -/
def stageAll (t : ContentTree) : List ρ → List ρ × Except ContentError (List RebuildReport)
  | [] => ([], .ok [])
  | r :: rest =>
    match Rebuildable.stage r t with
    | (same, .error error) => (same :: rest, .error error)
    | (staged, .ok report) =>
      let (others, outcome) := stageAll t rest
      (staged :: others, outcome.map fun reports ↦ report :: reports)

/-- Rebuilds all registries or none. -/
def rebuildAll (t : ContentTree) (registries : List ρ) :
    List ρ × Except ContentError (List RebuildReport) :=
  match stageAll t (registries.map Rebuildable.unlock) with
  | (staged, .ok reports) => (staged.map Rebuildable.commit, .ok reports)
  | (reached, .error error) => (reached.map Rebuildable.discard, .error error)

end ModContent
