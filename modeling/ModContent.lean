import ModContent.Main
import ModContent.Proofs.Command.Check
import ModContent.Proofs.Reference.Settled
import ModContent.Proofs.Registry.Run
import ModContent.Proofs.Registry.Session
import ModContent.Proofs.Source.DocumentTexts
import ModContent.Proofs.Source.Evaluation
import ModContent.Proofs.Source.Lines
import ModContent.Proofs.Source.Log
import ModContent.Proofs.Source.Waiting
import ModContent.Proofs.Package.Layers
import ModContent.Proofs.Package.Again
import ModContent.Proofs.Source.Draft
import ModContent.Proofs.Reference.Meaning
import ModContent.Proofs.Source.ByName
import ModContent.Proofs.Package.Order
import ModContent.Proofs.Registry.Calls
import ModContent.Proofs.Registry.AllOrNothing
import ModContent.Proofs.Source.Split
import ModContent.Proofs.Package.Warnings
import ModContent.Proofs.Registry.Staged
import ModContent.Proofs.Registry.Repeated
import ModContent.Proofs.Tree.Calls
import ModContent.Proofs.Command.Ids
import ModContent.Proofs.Registry.Assignment
import ModContent.Proofs.Registry.SlotPolicy
import ModContent.Proofs.Registry.Contents
import ModContent.Proofs.Tree.Moves
import ModContent.Proofs.Package.Reached
import ModContent.Proofs.Package.Sourced
import ModContent.Proofs.Tree.Paths
import ModContent.Proofs.Source.Normal
import ModContent.Proofs.Source.Offsets
import ModContent.Proofs.Reference.Failure
import ModContent.Proofs.Tree.Properties
import ModContent.Proofs.Colour
import ModContent.Proofs.Project.LoadOrder
import ModContent.Proofs.Project.Exclusion
import ModContent.Proofs.Registry.Record
import ModContent.Proofs.Command.Init
import ModContent.Proofs.Package.Referred
