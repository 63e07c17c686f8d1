import TieredStore.Binary64
import TieredStore.Bytes
import TieredStore.Compression
import TieredStore.Container
import TieredStore.Container.Positions
import TieredStore.Decimal
import TieredStore.DeviceObject
import TieredStore.Error
import TieredStore.Eviction
import TieredStore.Failure
import TieredStore.Frame
import TieredStore.Frame.Json
import TieredStore.Gzip
import TieredStore.Gzip.BitReader
import TieredStore.Gzip.Checksum
import TieredStore.Gzip.CodeLengths
import TieredStore.Gzip.Deflate
import TieredStore.Gzip.Inflate
import TieredStore.Gzip.PrefixCode
import TieredStore.Gzip.Repetition
import TieredStore.Gzip.Token
import TieredStore.Id
import TieredStore.Json
import TieredStore.Json.Decode
import TieredStore.Json.Parser
import TieredStore.Manager
import TieredStore.Memory
import TieredStore.Memory.Access
import TieredStore.Memory.Demotion
import TieredStore.Memory.Inspection
import TieredStore.Memory.Release
import TieredStore.Path
import TieredStore.Proxy
import TieredStore.Proxy.Object
import TieredStore.Proxy.Scripted
import TieredStore.Proxy.Spillable
import TieredStore.Registration
import TieredStore.Registry
import TieredStore.Settings
import TieredStore.Settings.Environment
import TieredStore.Settings.Layering
import TieredStore.Settings.Load
import TieredStore.Settings.RawValue
import TieredStore.Settings.Toml
import TieredStore.Settings.Toml.Item
import TieredStore.Settings.Toml.Moment
import TieredStore.Settings.Toml.Number
import TieredStore.Settings.Toml.Quoted
import TieredStore.SpillDirectory
import TieredStore.Store
import TieredStore.Table
import TieredStore.Tier
import TieredStore.Value
import TieredStore.Volume
import TieredStore.Proofs.Ledger
import TieredStore.Proofs.Registry
import TieredStore.Proofs.Tracking
import TieredStore.Proofs.Bookkeeping
import TieredStore.Proofs.Outcome
import TieredStore.Proofs.Commutes
import TieredStore.Proofs.Container
import TieredStore.Proofs.Gzip.Bits
import TieredStore.Proofs.Gzip.PrefixCode
import TieredStore.Proofs.Gzip.CodeLengths
import TieredStore.Proofs.Gzip.GivenCodes
import TieredStore.Proofs.Gzip.Repetition
import TieredStore.Proofs.Gzip.Blocks
import TieredStore.Proofs.Gzip
import TieredStore.Proofs.SpillFile
import TieredStore.Proofs.Content
import TieredStore.Proofs.Memory.Sound
import TieredStore.Proofs.Memory.Steps
import TieredStore.Proofs.Memory.Demotion
import TieredStore.Proofs.Memory.Units
import TieredStore.Proofs.Memory.Access
import TieredStore.Proofs.Memory.Lifetime
import TieredStore.Proofs.Memory.Listing
import TieredStore.Proofs.Memory.Wrapping
import TieredStore.Proofs.Memory.Lasting
import TieredStore.Proofs.Memory.Enlisting
import TieredStore.Proofs.Store
import TieredStore.Proofs.Memory.Operations
import TieredStore.Proofs.Memory.Compression
import TieredStore.Proofs.Run
import TieredStore.Proofs.Replies
import TieredStore.Proofs.Moves
import TieredStore.Proofs.Forms
import TieredStore.Proofs.Coherence
import TieredStore.Proofs.Eviction
import TieredStore.Proofs.Selection
import TieredStore.Proofs.Memory.Tallies
import TieredStore.Proofs.Memory.Settled
import TieredStore.Proofs.Memory.Transfer
import TieredStore.Proofs.Memory.Budgets
import TieredStore.Proofs.Accounting
import TieredStore.Proofs.Relief
import TieredStore.Proofs.Files
import TieredStore.Proofs.Spilling
import TieredStore.Proofs.Interruption
import TieredStore.Proofs.Holding
import TieredStore.Proofs.Ownership
import TieredStore.Proofs.Compression
import TieredStore.Proofs.Transparency
import TieredStore.Proofs.Reordering
import TieredStore.Proofs.PartialEviction
import TieredStore.Proofs.Withdrawal
import TieredStore.Proofs.Serialization
import TieredStore.Proofs.Versions
import TieredStore.Proofs.Acceptance
import TieredStore.Proofs.Memory.Vanishing
import TieredStore.Proofs.Memory.Room
import TieredStore.Proofs.Loss
import TieredStore.Proofs.Damage
import TieredStore.Proofs.SpillOnDemand
import TieredStore.Proofs.Memory.Walks
import TieredStore.Proofs.Memory.Keeping
import TieredStore.Proofs.Unwrapping
import TieredStore.Proofs.Adoption
import TieredStore.Proofs.RoundTrips
import TieredStore.Proofs.ArrayFrames
import TieredStore.Proofs.Registration
import TieredStore.Proofs.Sources
import TieredStore.Proofs.Precedence
import TieredStore.Proofs.Draining
