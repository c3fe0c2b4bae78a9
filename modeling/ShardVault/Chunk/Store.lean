import ShardVault.Chunk.Backend
import ShardVault.Message

/-!
The chunk store.  A chunk is kept only under the digest of its bytes, given in the one spelling
that a digest has; any other claim is answered with a refusal, and nothing changes.  A chunk is
given out only if its bytes still have the digest asked for.
-/

namespace ShardVault.Storage

variable {κ : Type} [ChunkBackend κ]

/-- Keeps a chunk if the claim spells its digest. -/
def storeChunk (storage : Storage κ) (data : Bytes) (claim : String) :
    Except StorageError StoreStatus × Storage κ :=
  match Digest.parse claim with
  | .error _ => (.ok .failure, storage)
  | .ok claimed =>
    if claimed.verifies data then
      match ChunkBackend.put storage claimed data with
      | (.ok (), storage) => (.ok .success, storage)
      | (.error e, storage) => (.error e, storage)
    else (.ok .failure, storage)

/-- The chunk of a digest, if it is kept. -/
def retrieveChunk (storage : Storage κ) (hash : String) : Except StorageError (Option Bytes) :=
  match Digest.parse hash with
  | .error e => .error (.ofSpelling e)
  | .ok digest =>
    match ChunkBackend.get? storage digest with
    | .error e => .error e
    | .ok none => .ok none
    | .ok (some data) =>
      if digest.verifies data then .ok (some data)
      else .error (.integrity digest.hex (Digest.of data).hex)

/-- Whether there is a chunk under a digest. -/
def containsChunk (storage : Storage κ) (hash : String) : Except StorageError Bool :=
  match Digest.parse hash with
  | .error e => .error (.ofSpelling e)
  | .ok digest => ChunkBackend.contains storage digest

end ShardVault.Storage
