import ShardVault.Chunk.Client
import ShardVault.Documents
import ShardVault.Registry
import ShardVault.Stop
import ShardVault.Stripe

/-!
Splitting.  A content is cut into stripes, every stripe is encoded into shards, and every shard is
stored as a chunk under its digest.  All stripes are tried, also after one has failed.  If every
chunk was stored the file gets its document and its entry in the registry; otherwise it gets
neither, and every chunk that was not stored is reported.
-/

namespace ShardVault

/-- How files are split. -/
structure Splitter where
  stripeSize : Nat
  scheme : Scheme
  documents : Documents
  stripeSize_pos : 0 < stripeSize
deriving DecidableEq, Repr

/-- What a split has made. -/
structure SplitReport where
  fileHash : String
  size : Nat
  stripeCount : Nat
  chunkCount : Nat
  documentPath : Path
  /-- Whether the document was there before. -/
  alreadyStored : Bool
  record : FileRecord
deriving DecidableEq, Repr

/-- The call that stores a shard as a chunk. -/
def StoreChunkRequest.ofShard (shard : Shard) : StoreChunkRequest :=
  ⟨shard.data, (Digest.of shard.data).hex⟩

namespace Splitter

/-- The splitter with these parameters. -/
def new (stripeSize : Nat) (redundancy : Redundancy) (documents : Documents) :
    Except StorageError Splitter :=
  if h : stripeSize = 0 then .error .invalidStripeSize
  else
    match redundancy.scheme with
    | .error e => .error (.ofScheme e)
    | .ok scheme => .ok ⟨stripeSize, scheme, documents, Nat.pos_of_ne_zero h⟩

/-- The chunks that were not stored. -/
def chunkFailures (requests : List StoreChunkRequest) (outcomes : List StoreOutcome) :
    List ChunkFailure :=
  (requests.zip outcomes).zipIdx.filterMap fun ((request, outcome), index) =>
    outcome.failure?.map fun reason => ⟨index, request.chunkHash, reason⟩

/-- The record of a stripe whose chunks these are. -/
def recordOf (stripe : Bytes) (requests : List StoreChunkRequest) : StripeRecord :=
  ⟨(Digest.of stripe).hex, requests.map fun request => ⟨request.chunkHash⟩⟩

variable {κ : Type}

/-- Stores the shards of one stripe, the one at a position: its record, or what failed. -/
def storeShards (client : ChunkClient κ) (storage : Storage κ) (index : Nat) (stripe : Bytes)
    (shards : List Shard) : Except StripeFailure StripeRecord × Storage κ :=
  let requests := shards.map StoreChunkRequest.ofShard
  let (outcomes, storage) := client.store storage index requests
  match chunkFailures requests outcomes with
  | [] => (.ok (recordOf stripe requests), storage)
  | failures => (.error ⟨index, (Digest.of stripe).hex, failures⟩, storage)

/-- Encodes and stores stripes, the first of them at a position.  It breaks off at a stripe that
    has no shards. -/
def storeStripes? (splitter : Splitter) (client : ChunkClient κ) :
    Storage κ → Nat → List Bytes → Option (List (Except StripeFailure StripeRecord)) × Storage κ
  | storage, _, [] => (some [], storage)
  | storage, index, stripe :: rest =>
    match splitter.scheme.encode? stripe with
    | none => (none, storage)
    | some shards =>
      let (result, storage) := storeShards client storage index stripe shards
      let (results, storage) := storeStripes? splitter client storage (index + 1) rest
      (results.map (result :: ·), storage)

/-- The failures among results, in order. -/
def failuresOf (results : List (Except StripeFailure StripeRecord)) : List StripeFailure :=
  results.filterMap fun result =>
    match result with
    | .error failure => some failure
    | .ok _ => none

/-- The records among results, in order. -/
def recordsOf (results : List (Except StripeFailure StripeRecord)) : List StripeRecord :=
  results.filterMap Except.toOption

/-- The entry of a file in the registry. -/
def entry (record : FileRecord) (size : Nat) (now : Instant) : RegisteredFile :=
  ⟨record.fileHash, size, record.stripes.length, record.chunkCount, now⟩

/-- Makes the document and the entry of a file whose chunks are all stored. -/
def publish (splitter : Splitter) (now : Instant) (storage : Storage κ) (registry : Registry)
    (record : FileRecord) (size : Nat) :
    Except StorageError SplitReport × Storage κ × Registry :=
  let (result, files) := splitter.documents.persist storage.files record
  let storage := { storage with files }
  match result with
  | .error e => (.error e, storage, registry)
  | .ok (path, existed) =>
    let (_, registry) := registry.register (entry record size now)
    (.ok ⟨record.fileHash, size, record.stripes.length, record.chunkCount, path, existed, record⟩,
      storage, registry)

/-- Makes the document and the entry of a content whose stripes are stored, or reports those that
    are not. -/
def conclude (splitter : Splitter) (now : Instant) (storage : Storage κ) (registry : Registry)
    (content : Bytes) (results : List (Except StripeFailure StripeRecord)) :
    Except StorageError SplitReport × Storage κ × Registry :=
  match failuresOf results with
  | [] =>
    splitter.publish now storage registry
      (FileRecord.new (Digest.of content) (recordsOf results)) content.length
  | failures => (.error (.splitFailed failures), storage, registry)

/-- Splits a content and stores it; `now` is the time of its entry in the registry.  It breaks off
    if there are no stripes of the size that is set, or no shards of a stripe. -/
def split (splitter : Splitter) (client : ChunkClient κ) (now : Instant)
    (storage : Storage κ) (registry : Registry) (content : Bytes) :
    Except (Stop StorageError) SplitReport × Storage κ × Registry :=
  match Stripe.segment? splitter.stripeSize content with
  | none => (.error .crash, storage, registry)
  | some stripes =>
    match splitter.storeStripes? client storage 0 stripes with
    | (none, storage) => (.error .crash, storage, registry)
    | (some results, storage) =>
      let (result, storage, registry) :=
        splitter.conclude now storage registry content results
      (result.mapError .refused, storage, registry)

end Splitter

/-- How a split went, in words; there are none if it broke off. -/
def SplitFileResponse.of? :
    Except (Stop StorageError) SplitReport → Option SplitFileResponse
  | .ok report => some ⟨"File split and stored successfully: " ++ report.fileHash⟩
  | .error .crash => none
  | .error (.refused (.splitFailed failures)) =>
    let indexes := failures.map fun failure => Decimal.text failure.stripeIndex
    some ⟨"File split failed for stripe(s) " ++ ", ".intercalate indexes ++ ": " ++
      (StorageError.splitFailed failures).message⟩
  | .error (.refused e) => some ⟨"File split failed: " ++ (ServiceError.storage e).message⟩

end ShardVault
