import AllocScript.Files.Folder
import AllocScript.Main
import AllocScript.Proofs.Allocation.Accuracy
import AllocScript.Proofs.Allocation.Order
import AllocScript.Proofs.Allocation.Positivity
import AllocScript.Proofs.Allocation.Report
import AllocScript.Proofs.Allocation.Symbols
import AllocScript.Proofs.Allocation.Total
import AllocScript.Proofs.Allocation.Weighting
import AllocScript.Proofs.Command.Evaluate
import AllocScript.Proofs.Config.RunPlan
import AllocScript.Proofs.Decimal.Text
import AllocScript.Proofs.Eval.BlankSymbols
import AllocScript.Proofs.Eval.Cache
import AllocScript.Proofs.Eval.Conservation
import AllocScript.Proofs.Eval.Context
import AllocScript.Proofs.Eval.DepthLimit
import AllocScript.Proofs.Eval.EqualWeights
import AllocScript.Proofs.Eval.ErrorPlaces
import AllocScript.Proofs.Eval.Grouping
import AllocScript.Proofs.Eval.Metadata
import AllocScript.Proofs.Eval.Positions
import AllocScript.Proofs.Eval.Provenance
import AllocScript.Proofs.Eval.Ranking
import AllocScript.Proofs.Eval.Refusal
import AllocScript.Proofs.Eval.Reordering
import AllocScript.Proofs.Eval.Requests
import AllocScript.Proofs.Eval.Simulation
import AllocScript.Proofs.Eval.Texts
import AllocScript.Proofs.Eval.Unreached
import AllocScript.Proofs.Eval.Visits
import AllocScript.Proofs.Eval.WeightSyntax
import AllocScript.Proofs.Node.Completion
import AllocScript.Proofs.Node.Descent
import AllocScript.Proofs.Node.Excerpt
import AllocScript.Proofs.Node.FaultPlaces
import AllocScript.Proofs.Node.Numerals
import AllocScript.Proofs.Node.Relocation
import AllocScript.Proofs.Node.RoundTrip
import AllocScript.Proofs.Snapshot.Lines
import AllocScript.Proofs.Snapshot.Loading
import AllocScript.Proofs.Snapshot.RowNumbers
import AllocScript.Proofs.Text.ByteOrder
import AllocScript.Proofs.Text.Position
import AllocScript.Proofs.Text.Trim
import AllocScript.Proofs.Token.Spelling
import AllocScript.Proofs.Token.Tiling
