import ShardVault.Chunk.Backend

/-!
Chunks in memory: a map from digests to bytes.  Every operation succeeds at once, and no file is
touched.
-/

namespace ShardVault

/-- The chunks in memory. -/
structure MemoryChunks where
  map : Std.ExtTreeMap Digest Bytes

namespace MemoryChunks

/-- No chunks. -/
def empty : MemoryChunks :=
  ⟨∅⟩

/-- The bytes under a digest. -/
def get? (chunks : MemoryChunks) (digest : Digest) : Option Bytes :=
  chunks.map[digest]?

/-- The chunks with these bytes under a digest, whatever digest the bytes have. -/
def insert (chunks : MemoryChunks) (digest : Digest) (data : Bytes) : MemoryChunks :=
  ⟨chunks.map.insert digest data⟩

/-- The chunks without the one under a digest. -/
def erase (chunks : MemoryChunks) (digest : Digest) : MemoryChunks :=
  ⟨chunks.map.erase digest⟩

/-- The number of chunks. -/
def size (chunks : MemoryChunks) : Nat :=
  chunks.map.size

end MemoryChunks

instance : ChunkBackend MemoryChunks where
  put storage digest data :=
    (.ok (), { storage with chunks := storage.chunks.insert digest data })
  get? storage digest := .ok (storage.chunks.get? digest)
  contains storage digest := .ok (storage.chunks.get? digest).isSome
  putTime _ := 0
  getTime _ := 0

end ShardVault
