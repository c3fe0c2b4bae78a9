import ShardVault.Chunk.Backend
import ShardVault.Message

/-!
The caller's side of chunk storage.  The calls for the chunks of one stripe are made together, and
each of them ends in its own way and at its own time.  Nothing more is assumed of a client than
that every call ends.
-/

namespace ShardVault

/-- How a call to store a chunk ended. -/
inductive StoreOutcome
  | answered (response : StoreChunkResponse)
  | failed (cause : ServiceError)
  | timedOut
deriving DecidableEq, Repr

/-- Why the chunk was not stored, if it was not. -/
def StoreOutcome.failure? : StoreOutcome → Option ChunkFailure.Reason
  | .answered ⟨.success⟩ => none
  | .answered ⟨.failure⟩ => some .rejected
  | .failed cause => some (.storage cause.message)
  | .timedOut => some .timedOut

/-- What a splitter and a reconstructor can ask of chunk storage. -/
structure ChunkClient (κ : Type) where
  /-- Stores the chunks of the stripe at a position: how each call ended, in their order. -/
  store : Storage κ → Nat → List StoreChunkRequest → List StoreOutcome × Storage κ
  /-- Fetches the chunks of the stripe at a position: the positions of the calls with what they
      gave, in the order in which they ended. -/
  fetch : Storage κ → Nat → List GetChunkRequest → List (Nat × Option Bytes)
  length_store : ∀ storage stripe requests,
    (store storage stripe requests).1.length = requests.length
  fetch_perm : ∀ storage stripe requests,
    ((fetch storage stripe requests).map Prod.fst).Perm (List.range requests.length)

end ShardVault
