import ShardVault.Error
import ShardVault.FileTree

/-!
Where chunks are kept.  A backend puts bytes under a digest and gets them back, and asks nothing
about them: it is the chunk store that checks digests.  A backend works on the chunks in its
keeping and on the files of the machine, which it shares with others.
-/

namespace ShardVault

/-- Chunks in the keeping of a backend, and the files of the machine. -/
structure Storage (κ : Type) where
  chunks : κ
  files : FileTree

/-- A way to keep chunks. -/
class ChunkBackend (κ : Type) where
  /-- Keeps bytes under a digest, in place of what was there. -/
  put : Storage κ → Digest → Bytes → Except StorageError Unit × Storage κ
  /-- The bytes under a digest, if there are any. -/
  get? : Storage κ → Digest → Except StorageError (Option Bytes)
  /-- Whether there is something under a digest. -/
  contains : Storage κ → Digest → Except StorageError Bool
  /-- How many milliseconds a put takes. -/
  putTime : κ → Nat
  /-- How many milliseconds a get takes. -/
  getTime : κ → Nat

end ShardVault
