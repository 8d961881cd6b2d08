import ImageGateway.Archive.Batch
import ImageGateway.Archive.Locks
import ImageGateway.Gateway.Router
import ImageGateway.Main
import ImageGateway.Startup
import ImageGateway.Proofs.Text.Scalars
import ImageGateway.Proofs.Seeds
import ImageGateway.Proofs.Json.Numbers
import ImageGateway.Proofs.Json.Spacing
import ImageGateway.Proofs.Json.Strings
import ImageGateway.Proofs.Json.Canonical
import ImageGateway.Proofs.Record.Documents
import ImageGateway.Proofs.Record.Layouts
import ImageGateway.Proofs.Storage.Paths
import ImageGateway.Proofs.Storage.Trees
import ImageGateway.Proofs.Storage.Directories
import ImageGateway.Proofs.Archive.Places
import ImageGateway.Proofs.Archive.Footprints
import ImageGateway.Proofs.Archive.Confinement
import ImageGateway.Proofs.Archive.Ledgers
import ImageGateway.Proofs.Archive.Changes
import ImageGateway.Proofs.Archive.Operations
import ImageGateway.Proofs.Archive.SeenLedgers
import ImageGateway.Proofs.Archive.UniqueIds
import ImageGateway.Proofs.Archive.Batches
import ImageGateway.Proofs.Archive.Readback
import ImageGateway.Proofs.Gateway.Isolation
import ImageGateway.Proofs.Archive.Shelves
import ImageGateway.Proofs.Gateway.Histories
import ImageGateway.Proofs.Storage.Rerouting
import ImageGateway.Proofs.Archive.Numbers
import ImageGateway.Proofs.Archive.FailedUpdates
import ImageGateway.Proofs.Archive.Rewriting
import ImageGateway.Proofs.Archive.Likeness
import ImageGateway.Proofs.Archive.Locality
import ImageGateway.Proofs.Archive.Commuting
import ImageGateway.Proofs.Archive.Unfailing
import ImageGateway.Proofs.Archive.ListedImages
import ImageGateway.Proofs.Gateway.Rewriting
import ImageGateway.Proofs.Storage.Overwriting
import ImageGateway.Proofs.Storage.Removing
import ImageGateway.Proofs.Archive.FailedDeletions
import ImageGateway.Proofs.Archive.FailedBatches
import ImageGateway.Proofs.Archive.SetAside
import ImageGateway.Proofs.Archive.Moves
import ImageGateway.Proofs.Archive.Reordering
import ImageGateway.Proofs.Archive.Clearing
import ImageGateway.Proofs.Archive.Splicing
import ImageGateway.Proofs.Archive.EncodedImages
import ImageGateway.Proofs.Archive.RecordedBatches
import ImageGateway.Proofs.Archive.ForeignLedgers
import ImageGateway.Proofs.Gateway.Redirects
import ImageGateway.Proofs.Gateway.Relaying
import ImageGateway.Proofs.Gateway.Converters
import ImageGateway.Proofs.Gateway.References
import ImageGateway.Proofs.Preliminaries
import ImageGateway.Proofs.Toml.DistinctKeys
import ImageGateway.Proofs.CommandLine.Spellings
import ImageGateway.Proofs.CommandLine.Gathering
import ImageGateway.Proofs.Config.Documents
import ImageGateway.Proofs.Config.Precedence
import ImageGateway.Proofs.Json.SpelledStrings
import ImageGateway.Proofs.ProjectNames
import ImageGateway.Proofs.Storage.Extending
import ImageGateway.Proofs.Preparation
import ImageGateway.Proofs.CommandLine.Dashes
import ImageGateway.Proofs.Decimal.Words
import ImageGateway.Proofs.Text.Blanks
import ImageGateway.Proofs.Gateway.RecordNumbers
import ImageGateway.Proofs.Archive.DistinctPaths
import ImageGateway.Proofs.Archive.Locks
