import ShardVault.Digest
import ShardVault.Json.Codec
import ShardVault.Json.Reader
import ShardVault.Json.Writer

/-!
Records.  The record of a file is its hash tree: the digests of its chunks under the digests of
its stripes, in order, under the digest of the file.  The digests are kept as texts, since a record
may come from outside.  The document of a record holds everything but the file's own digest, which
names the document.
-/

namespace ShardVault

/-- One chunk of a stripe. -/
structure ChunkRecord where
  chunkHash : String
deriving DecidableEq, Repr

/-- One stripe of a file, with its chunks in the order of their shards. -/
structure StripeRecord where
  stripeHash : String
  chunks : List ChunkRecord
deriving DecidableEq, Repr

/-- A file, with its stripes in order. -/
structure FileRecord where
  fileHash : String
  stripes : List StripeRecord
deriving DecidableEq, Repr

namespace StripeRecord

/-- The record of a stripe with these digests. -/
def new (stripe : Digest) (chunks : List Digest) : StripeRecord :=
  ⟨stripe.hex, chunks.map fun chunk => ⟨chunk.hex⟩⟩

/-- The digests of the chunks. -/
def chunkHashes (stripe : StripeRecord) : List String :=
  stripe.chunks.map ChunkRecord.chunkHash

end StripeRecord

instance : Json.Codec ChunkRecord where
  encode chunk := Json.record [("chunkHash", Json.encode chunk.chunkHash)]
  decode? j := do
    let [chunkHash] ← Json.fields? ["chunkHash"] j | none
    return ⟨← Json.required chunkHash⟩

instance : Json.Codec StripeRecord where
  encode stripe := Json.record
    [("stripeHash", Json.encode stripe.stripeHash), ("chunkHashes", Json.encode stripe.chunks)]
  decode? j := do
    let [stripeHash, chunks] ← Json.fields? ["stripeHash", "chunkHashes"] j | none
    return ⟨← Json.required stripeHash, ← Json.required chunks⟩

namespace FileRecord

/-- The record of a file with this digest. -/
def new (file : Digest) (stripes : List StripeRecord) : FileRecord :=
  ⟨file.hex, stripes⟩

/-- The number of chunks of all stripes. -/
def chunkCount (record : FileRecord) : Nat :=
  (record.stripes.flatMap fun stripe => stripe.chunks).length

/-- The document of a record. -/
def document (record : FileRecord) : String :=
  Json.render .indented (Json.record [("stripeHashes", Json.encode record.stripes)])

/-- The record that a document holds for the file of a name. -/
def ofDocument? (fileHash document : String) : Option FileRecord := do
  let [stripes] ← Json.fields? ["stripeHashes"] (← Json.parse document) | none
  return ⟨fileHash, ← Json.required stripes⟩

end FileRecord

end ShardVault
