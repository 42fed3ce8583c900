import Interaction.Address
import Interaction.Build.Basic
import Interaction.Build.ConfigText
import Interaction.Chain.Snapshot
import Interaction.Digest
import Interaction.Failure
import Interaction.Json.Decoder
import Interaction.Json.Outline
import Interaction.Json.Printer
import Interaction.Kind
import Interaction.Pinning.Engine
import Interaction.Placeholder
import Interaction.Proofs.Build.Dependencies
import Interaction.Proofs.Build.Numbers
import Interaction.Proofs.Build.Pipeline
import Interaction.Proofs.Build.RoundTrip
import Interaction.Proofs.Pinning.Commitment
import Interaction.Proofs.Pinning.Identity
import Interaction.Proofs.Registry
import Interaction.Proofs.Source.Count
import Interaction.Proofs.Source.Substitution
import Interaction.Proofs.Table
import Interaction.Proofs.Template.Canonical
import Interaction.Proofs.Template.Depth
import Interaction.Proofs.Template.Executable
import Interaction.Proofs.Template.RoundTrip
import Interaction.Proofs.Text.Utf8
import Interaction.Proofs.Traversal
import Interaction.Service.Basic
import Interaction.Source.Chunk
import Interaction.Source.Program
import Interaction.Source.Substitution
import Interaction.Stage
import Interaction.Table
import Interaction.Template.Executable
import Interaction.Template.Read
import Interaction.Template.Written
import Interaction.Text.Uppercase
import Interaction.Proofs.Pinning.Trail
import Interaction.Proofs.Pinning.Sharing
import Interaction.Proofs.Pinning.Fetches
import Interaction.Proofs.Source.Segment
import Interaction.Proofs.Build.Cancellation
import Interaction.Proofs.Template.Placements
import Interaction.Proofs.Source.Header
import Interaction.Proofs.Build.Formats
import Interaction.Proofs.Build.Spelling
import Interaction.Proofs.Pinning.Repeated
import Interaction.Proofs.Template.Spread
import Interaction.Proofs.Build.Targets
import Interaction.Proofs.Template.Layout
import Interaction.Proofs.Template.Localisation
import Interaction.Proofs.Pinning.Cycle
import Interaction.Proofs.Service.Traffic
import Interaction.Proofs.Service.Verification
import Interaction.Proofs.Template.Obstacle
import Interaction.Proofs.Template.Restatement
import Interaction.Proofs.Source.Signature
import Interaction.Proofs.Source.Pragma
import Interaction.Proofs.Source.Block
import Interaction.Proofs.Chain.Snapshot
import Interaction.Proofs.Registry.Changes
import Interaction.Proofs.Build.Parameters
import Interaction.Proofs.Build.Unlocated
import Interaction.Proofs.Registry.Agreement
import Interaction.Proofs.Build.Need
import Interaction.Proofs.Pinning.Bounds
import Interaction.Proofs.Pinning.Closure
import Interaction.Proofs.Address.Spelling
