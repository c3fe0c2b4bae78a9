import ShardVault.Code.Shard
import ShardVault.Digest
import ShardVault.Failure
import ShardVault.Json.Codec

/-!
Messages: what the services are asked and what they answer, with their JSON forms, and the JSON
forms of what a message may hold.
-/

namespace ShardVault

/-- A chunk store's answer to a chunk that it was given. -/
inductive StoreStatus
  | success
  | failure
deriving DecidableEq, Repr

/-- The name of a status. -/
def StoreStatus.name : StoreStatus → String
  | .success => "SUCCESS"
  | .failure => "FAILURE"

/-- Split this content. -/
structure SplitFileRequest where
  content : Bytes
deriving DecidableEq, Repr

/-- How the split went, in words. -/
structure SplitFileResponse where
  message : String
deriving DecidableEq, Repr

/-- Keep this chunk, which has this digest. -/
structure StoreChunkRequest where
  chunkData : Bytes
  chunkHash : String
deriving DecidableEq, Repr

/-- Whether the chunk is kept. -/
structure StoreChunkResponse where
  status : StoreStatus
deriving DecidableEq, Repr

/-- Give the chunk of this digest. -/
structure GetChunkRequest where
  chunkHash : String
deriving DecidableEq, Repr

/-- The chunk, if it is kept. -/
structure GetChunkResponse where
  chunkData : Option Bytes
deriving DecidableEq, Repr

instance : Json.Codec StoreStatus where
  encode status := Json.encode status.name
  decode? j :=
    match Json.choice? j with
    | some ("SUCCESS", rest) => if Json.isBare rest then some .success else none
    | some ("FAILURE", rest) => if Json.isBare rest then some .failure else none
    | _ => none

instance : Json.Codec SplitFileRequest where
  encode request := Json.record [("content", Json.encode request.content)]
  decode? j := do
    let [content] ← Json.fields? ["content"] j | none
    return ⟨← Json.required content⟩

instance : Json.Codec SplitFileResponse where
  encode response := Json.record [("message", Json.encode response.message)]
  decode? j := do
    let [message] ← Json.fields? ["message"] j | none
    return ⟨← Json.required message⟩

instance : Json.Codec StoreChunkRequest where
  encode request := Json.record
    [("chunk_data", Json.encode request.chunkData), ("chunk_hash", Json.encode request.chunkHash)]
  decode? j := do
    let [chunkData, chunkHash] ← Json.fields? ["chunk_data", "chunk_hash"] j | none
    return ⟨← Json.required chunkData, ← Json.required chunkHash⟩

instance : Json.Codec StoreChunkResponse where
  encode response := Json.record [("status", Json.encode response.status)]
  decode? j := do
    let [status] ← Json.fields? ["status"] j | none
    return ⟨← Json.required status⟩

instance : Json.Codec GetChunkRequest where
  encode request := Json.record [("chunk_hash", Json.encode request.chunkHash)]
  decode? j := do
    let [chunkHash] ← Json.fields? ["chunk_hash"] j | none
    return ⟨← Json.required chunkHash⟩

instance : Json.Codec GetChunkResponse where
  encode response := Json.record [("chunk_data", Json.encode response.chunkData)]
  decode? j := do
    let [chunkData] ← Json.fields? ["chunk_data"] j | none
    return ⟨← Json.defaulting none chunkData⟩

instance : Json.Codec Digest where
  encode digest := Json.encode digest.bytes.toList
  decode? j := do
    let bytes : Bytes ← Json.decode? j
    if h : bytes.length = 32 then some ⟨⟨bytes.toArray, h⟩⟩ else none

instance : Json.Codec Redundancy where
  encode r := Json.record [("k", Json.encode r.k), ("n", Json.encode r.n)]
  decode? j := do
    let [k, n] ← Json.fields? ["k", "n"] j | none
    return ⟨← Json.required k, ← Json.required n⟩

instance : Json.Codec Shard where
  encode shard := Json.record
    [("index", Json.encode shard.index), ("data", Json.encode shard.data),
      ("is_parity", Json.encode shard.isParity)]
  decode? j := do
    let [index, data, isParity] ← Json.fields? ["index", "data", "is_parity"] j | none
    return ⟨← Json.required index, ← Json.required data, ← Json.required isParity⟩

instance : Json.Codec ChunkFailure.Reason where
  encode
    | .rejected => Json.encode "Rejected"
    | .storage text => Json.record [("Storage", Json.encode text)]
    | .timedOut => Json.encode "Timeout"
  decode? j :=
    match Json.choice? j with
    | some ("Rejected", rest) => if Json.isBare rest then some .rejected else none
    | some ("Storage", rest) => (Json.required rest).map .storage
    | some ("Timeout", rest) => if Json.isBare rest then some .timedOut else none
    | _ => none

instance : Json.Codec ChunkFailure where
  encode failure := Json.record
    [("chunk_index", Json.encode failure.chunkIndex),
      ("chunk_hash", Json.encode failure.chunkHash), ("reason", Json.encode failure.reason)]
  decode? j := do
    let [index, hash, reason] ← Json.fields? ["chunk_index", "chunk_hash", "reason"] j | none
    return ⟨← Json.required index, ← Json.required hash, ← Json.required reason⟩

instance : Json.Codec StripeFailure where
  encode failure := Json.record
    [("stripe_index", Json.encode failure.stripeIndex),
      ("stripe_hash", Json.encode failure.stripeHash), ("chunks", Json.encode failure.chunks)]
  decode? j := do
    let [index, hash, chunks] ← Json.fields? ["stripe_index", "stripe_hash", "chunks"] j | none
    return ⟨← Json.required index, ← Json.required hash, ← Json.required chunks⟩

end ShardVault
