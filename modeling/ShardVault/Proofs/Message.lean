import ShardVault.Message
import ShardVault.Proofs.Instant
import ShardVault.Proofs.Record
import ShardVault.Proofs.Settings
import ShardVault.Registry

/-!
Messages and records in texts.  Every type that has a JSON form is read back from it, as long as its
numbers are below the bound for numbers; and so each is read back from its compact text
(`RecordKind.round_trip`).
-/

namespace ShardVault

open Json (Fits decode?_encode decode_record numberBound)

/-! ## JSON forms of choices -/

instance : Json.LawfulCodec StoreStatus where
  decode?_encode status _ := by
    cases status <;> rfl

instance : Json.LawfulCodec ChunkFailure.Reason where
  decode?_encode reason _ := by
    cases reason <;> rfl

/-! ## JSON forms of records -/

instance : Json.LawfulCodec Digest where
  decode?_encode digest _ := by
    have hbytes := decode?_encode digest.bytes.toList fun _ _ => trivial
    have hlength : digest.bytes.toList.length = 32 := Vector.length_toList
    change (Json.decode? (Json.encode digest.bytes.toList)).bind _ = some digest
    rw [hbytes, Option.bind_some, dif_pos hlength]
    rfl

instance : Json.LawfulCodec Instant where
  decode?_encode instant _ := by
    change (some instant.text).bind Instant.ofText? = some instant
    rw [Option.bind_some, instant.ofText?_text]

instance : Json.LawfulCodec SplitFileRequest where
  decode?_encode request _ := by
    have hcontent := decode?_encode request.content fun _ _ => trivial
    exact decode_record rfl (by decide) (by simp [Json.required, hcontent])

instance : Json.LawfulCodec SplitFileResponse where
  decode?_encode _ _ := decode_record rfl (by decide) rfl

instance : Json.LawfulCodec StoreChunkRequest where
  decode?_encode request _ := by
    have hdata := decode?_encode request.chunkData fun _ _ => trivial
    have hhash := decode?_encode request.chunkHash trivial
    exact decode_record rfl (by decide) (by simp [Json.required, hdata, hhash])

instance : Json.LawfulCodec StoreChunkResponse where
  decode?_encode response _ := by
    have hstatus := decode?_encode response.status trivial
    exact decode_record rfl (by decide) (by simp [Json.required, hstatus])

instance : Json.LawfulCodec GetChunkRequest where
  decode?_encode _ _ := decode_record rfl (by decide) rfl

instance : Json.LawfulCodec GetChunkResponse where
  decode?_encode response _ := by
    have hdata := decode?_encode response.chunkData fun _ _ _ _ => trivial
    exact decode_record rfl (by decide) (by simp [Json.defaulting, hdata])

instance : Json.LawfulCodec Redundancy where
  Fits r := r.k < numberBound ∧ r.n < numberBound
  decode?_encode r h := by
    have hk := decode?_encode r.k h.1
    have hn := decode?_encode r.n h.2
    exact decode_record rfl (by decide) (by simp [Json.required, hk, hn])

instance : Json.LawfulCodec Shard where
  Fits shard := shard.index < numberBound
  decode?_encode shard h := by
    have hindex := decode?_encode shard.index h
    have hdata := decode?_encode shard.data fun _ _ => trivial
    have hparity := decode?_encode shard.isParity trivial
    exact decode_record rfl (by decide) (by simp [Json.required, hindex, hdata, hparity])

instance : Json.LawfulCodec ChunkFailure where
  Fits failure := failure.chunkIndex < numberBound
  decode?_encode failure h := by
    have hindex := decode?_encode failure.chunkIndex h
    have hhash := decode?_encode failure.chunkHash trivial
    have hreason := decode?_encode failure.reason trivial
    exact decode_record rfl (by decide) (by simp [Json.required, hindex, hhash, hreason])

instance : Json.LawfulCodec StripeFailure where
  Fits failure := failure.stripeIndex < numberBound ∧
    ∀ chunk ∈ failure.chunks, chunk.chunkIndex < numberBound
  decode?_encode failure h := by
    have hindex := decode?_encode failure.stripeIndex h.1
    have hhash := decode?_encode failure.stripeHash trivial
    have hchunks := decode?_encode failure.chunks h.2
    exact decode_record rfl (by decide) (by simp [Json.required, hindex, hhash, hchunks])

instance : Json.LawfulCodec RegisteredFile where
  Fits file := file.size < numberBound ∧ file.stripeCount < numberBound ∧
    file.chunkCount < numberBound
  decode?_encode file h := by
    have hhash := decode?_encode file.fileHash trivial
    have hsize := decode?_encode file.size h.1
    have hstripes := decode?_encode file.stripeCount h.2.1
    have hchunks := decode?_encode file.chunkCount h.2.2
    have hstored := decode?_encode file.storedAt trivial
    exact decode_record rfl (by decide)
      (by simp [Json.required, hhash, hsize, hstripes, hchunks, hstored])

/-! ## Texts -/

/-- The types of messages and records. -/
inductive RecordKind
  | digest
  | chunkRecord
  | stripeRecord
  | redundancy
  | shard
  | storeStatus
  | failureReason
  | chunkFailure
  | stripeFailure
  | registeredFile
  | splitFileRequest
  | splitFileResponse
  | storeChunkRequest
  | storeChunkResponse
  | getChunkRequest
  | getChunkResponse
  | settings
deriving DecidableEq, Repr

namespace RecordKind

/-- The values of a type. -/
abbrev Value : RecordKind → Type
  | digest => Digest
  | chunkRecord => ChunkRecord
  | stripeRecord => StripeRecord
  | redundancy => Redundancy
  | shard => Shard
  | storeStatus => StoreStatus
  | failureReason => ChunkFailure.Reason
  | chunkFailure => ChunkFailure
  | stripeFailure => StripeFailure
  | registeredFile => RegisteredFile
  | splitFileRequest => SplitFileRequest
  | splitFileResponse => SplitFileResponse
  | storeChunkRequest => StoreChunkRequest
  | storeChunkResponse => StoreChunkResponse
  | getChunkRequest => GetChunkRequest
  | getChunkResponse => GetChunkResponse
  | settings => Settings

instance : (kind : RecordKind) → Json.Codec kind.Value
  | digest | chunkRecord | stripeRecord | redundancy | shard | storeStatus | failureReason
  | chunkFailure | stripeFailure | registeredFile | splitFileRequest | splitFileResponse
  | storeChunkRequest | storeChunkResponse | getChunkRequest | getChunkResponse | settings =>
    inferInstance

instance : (kind : RecordKind) → Json.LawfulCodec kind.Value
  | digest | chunkRecord | stripeRecord | redundancy | shard | storeStatus | failureReason
  | chunkFailure | stripeFailure | registeredFile | splitFileRequest | splitFileResponse
  | storeChunkRequest | storeChunkResponse | getChunkRequest | getChunkResponse | settings =>
    inferInstance

/-- The compact text of a value. -/
def text (kind : RecordKind) (value : kind.Value) : String :=
  Json.render .compact (Json.encode value)

/-- The value that a text holds. -/
def ofText? (kind : RecordKind) (text : String) : Option kind.Value :=
  (Json.parse text).bind Json.decode?

/-- A value of any type is read back from its text, as long as its numbers are below the bound. -/
theorem round_trip (kind : RecordKind) (value : kind.Value) (h : Fits value) :
    kind.ofText? (kind.text value) = some value := by
  rw [ofText?, text, Json.parse_render Json.Layout.blank_compact, Option.bind_some,
    decode?_encode value h]

/-- The largest number, characters that are escaped, and every reason. -/
def sampleFailure : StripeFailure :=
  ⟨18446744073709551615, "\"\\/\n\x01é",
    [⟨0, "", .storage "disk\tfull"⟩, ⟨1, "a", .timedOut⟩, ⟨2, "b", .rejected⟩]⟩

theorem round_trip_sample :
    stripeFailure.ofText? (stripeFailure.text sampleFailure) = some sampleFailure :=
  round_trip stripeFailure sampleFailure ⟨by decide, by decide⟩

end RecordKind

end ShardVault
