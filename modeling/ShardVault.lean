import ShardVault.Chunk.Directory
import ShardVault.Chunk.Impaired
import ShardVault.Chunk.Memory
import ShardVault.Chunk.Service
import ShardVault.Digest.Reader
import ShardVault.Json.Writer
import ShardVault.Node
import ShardVault.Proofs.Bytes
import ShardVault.Proofs.Chunk.Directory
import ShardVault.Proofs.Chunk.Service
import ShardVault.Proofs.Chunk.Store
import ShardVault.Proofs.Code.Padding
import ShardVault.Proofs.Code.Interpolation
import ShardVault.Proofs.Code.Shard
import ShardVault.Proofs.Code.Matrix
import ShardVault.Proofs.Code.Recovery
import ShardVault.Proofs.Digest
import ShardVault.Proofs.Digest.Incremental
import ShardVault.Proofs.Digest.Forks
import ShardVault.Proofs.Digest.Reader
import ShardVault.Proofs.Digest.Spelling
import ShardVault.Proofs.Documents
import ShardVault.Proofs.Documents.Change
import ShardVault.Proofs.Documents.Run
import ShardVault.Proofs.FileTree
import ShardVault.Proofs.FileTree.Change
import ShardVault.Proofs.FileTree.Path
import ShardVault.Proofs.Instant
import ShardVault.Proofs.Json.Codec
import ShardVault.Proofs.Json.Grammar
import ShardVault.Proofs.Json.Text
import ShardVault.Proofs.Json.RoundTrip
import ShardVault.Proofs.Json.Soundness
import ShardVault.Proofs.Message
import ShardVault.Proofs.Node.Site
import ShardVault.Proofs.Node.Session
import ShardVault.Proofs.Node.Ready
import ShardVault.Proofs.Node.Recovery
import ShardVault.Proofs.Record
import ShardVault.Proofs.Registry
import ShardVault.Proofs.Reconstruct.Complete
import ShardVault.Proofs.Reconstruct.Crash
import ShardVault.Proofs.Reconstruct.Fetch
import ShardVault.Proofs.Reconstruct.Length
import ShardVault.Proofs.Reconstruct.Soundness
import ShardVault.Proofs.Schedule
import ShardVault.Proofs.Settings
import ShardVault.Proofs.Stripe
import ShardVault.Proofs.Split.Entries
import ShardVault.Proofs.Split.Failures
import ShardVault.Proofs.Split.HashTree
import ShardVault.Proofs.Split.Retry
import ShardVault.Proofs.Split.Series
import ShardVault.Proofs.Split.Stored
import ShardVault.Proofs.Split.Whole
import ShardVault.Proofs.Split.Words
import ShardVault.Proofs.Vault.Order
import ShardVault.Proofs.Vault.Run
import ShardVault.Proofs.Vault.Recovery
import ShardVault.Proofs.Reconstruct.Search
import ShardVault.Proofs.Code.Preimage
import ShardVault.Proofs.Reconstruct.Mixed
import ShardVault.Proofs.Chunk.Mirror
import ShardVault.Proofs.Code.Codec
import ShardVault.Proofs.Reconstruct.Settling
import ShardVault.Proofs.FileTree.Making
import ShardVault.Proofs.Chunk.Atomic
