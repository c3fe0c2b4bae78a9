import ShardVault.Chunk.Client
import ShardVault.Digest.Incremental
import ShardVault.Documents
import ShardVault.Stop

/-!
Reconstruction.  The record of a file tells which chunks its stripes were made of.  The chunks of a
stripe are fetched until `k` of them have the digests recorded, and the stripe recovered from them
has to have its digest too.  A record holds no length, so the zeros that fill the last stripe are
stripped by searching for the length at which the content has the file's digest.
-/

namespace ShardVault

/-- How files are rebuilt. -/
structure Reconstructor where
  scheme : Scheme
  documents : Documents
deriving DecidableEq, Repr

namespace Reconstructor

/-- The reconstructor with these parameters. -/
def new (redundancy : Redundancy) (documents : Documents) : Except StorageError Reconstructor :=
  match redundancy.scheme with
  | .error e => .error (.ofScheme e)
  | .ok scheme => .ok ⟨scheme, documents⟩

/-- The slots with those emptied whose bytes do not have the digest recorded. -/
def verified (record : StripeRecord) (slots : List (Option Bytes)) : List (Option Bytes) :=
  (slots.zip record.chunkHashes).map fun (slot, expected) =>
    slot.filter fun data => decide ((Digest.of data).hex = expected)

/-- The stripe that slots determine, one slot for each chunk recorded. -/
def reconstructStripe (reconstructor : Reconstructor) (record : StripeRecord)
    (slots : List (Option Bytes)) : Except StorageError Bytes :=
  if slots.length ≠ record.chunks.length then
    .error (.shardCountMismatch record.chunks.length slots.length)
  else
    match reconstructor.scheme.decode (verified record slots) with
    | .error e => .error (.ofRecovery e)
    | .ok stripe =>
      let actual := (Digest.of stripe).hex
      if actual = record.stripeHash then .ok stripe
      else .error (.integrity record.stripeHash actual)

/-- Fills slots with what calls have given, as long as chunks are needed.  What does not have the
    digest recorded is left out. -/
def collect (hashes : List String) :
    Nat → List (Nat × Option Bytes) → List (Option Bytes) → List (Option Bytes)
  | 0, _, slots => slots
  | _ + 1, [], slots => slots
  | needed + 1, (_, none) :: rest, slots => collect hashes (needed + 1) rest slots
  | needed + 1, (index, some data) :: rest, slots =>
    if hashes[index]? = some (Digest.of data).hex then
      collect hashes needed rest (slots.set index (some data))
    else collect hashes (needed + 1) rest slots

variable {κ : Type}

/-- Fetches chunks of the stripe at a position until there are enough. -/
def fetchShards (reconstructor : Reconstructor) (client : ChunkClient κ) (storage : Storage κ)
    (index : Nat) (record : StripeRecord) : List (Option Bytes) :=
  let hashes := record.chunkHashes
  let replies := client.fetch storage index (hashes.map fun hash => ⟨hash⟩)
  collect hashes reconstructor.scheme.k replies (List.replicate hashes.length none)

/-- Recovers stripes, the first of them at a position. -/
def recoverStripes (reconstructor : Reconstructor) (client : ChunkClient κ) (storage : Storage κ) :
    Nat → List StripeRecord → Except StorageError (List Bytes)
  | _, [] => .ok []
  | index, record :: rest =>
    let slots := reconstructor.fetchShards client storage index record
    match reconstructor.reconstructStripe record slots with
    | .error e => .error (.stripeUnrecoverable index e.message)
    | .ok stripe =>
      match recoverStripes reconstructor client storage (index + 1) rest with
      | .error e => .error e
      | .ok stripes => .ok (stripe :: stripes)

/-- The first length, from the one that a hasher has read on, at which a content has a digest; the
    bytes are what the hasher has not read. -/
def searchLength (expected : Digest) (hasher : Hasher) (length : Nat) : Bytes → Option Nat
  | [] => if hasher.finish = expected then some length else none
  | byte :: rest =>
    if hasher.finish = expected then some length
    else searchLength expected (hasher.update [byte]) (length + 1) rest

/-- The content without the zeros that fill its last stripe, of `lastLength` bytes: the shortest
    with the file's digest that keeps a byte of that stripe and drops zeros only.  With a last
    stripe of no bytes the search begins past the end of the content. -/
def stripPadding (content : Bytes) (lastLength : Nat) (expected : Digest) :
    Except (Stop StorageError) Bytes :=
  let mismatch := Stop.refused (.integrity expected.hex (Digest.of content).hex)
  if content = [] then
    if Digest.of content = expected then .ok content else .error mismatch
  else
    let lowest := content.length - lastLength + 1
    let start := max lowest content.lengthWithoutZeros
    if content.length < start then .error .crash
    else
      let hasher := Hasher.new.update (content.take start)
      match searchLength expected hasher start (content.drop start) with
      | some length => .ok (content.take length)
      | none => .error mismatch

/-- Rebuilds a file. -/
def reconstruct (reconstructor : Reconstructor) (client : ChunkClient κ) (storage : Storage κ)
    (fileHash : String) : Except (Stop StorageError) Bytes :=
  match Digest.parse fileHash with
  | .error e => .error (.refused (.ofSpelling e))
  | .ok expected =>
    match reconstructor.documents.load storage.files fileHash with
    | .error e => .error (.refused e)
    | .ok record =>
      match reconstructor.recoverStripes client storage 0 record.stripes with
      | .error e => .error (.refused e)
      | .ok stripes =>
        stripPadding stripes.flatten ((stripes.getLast?.map List.length).getD 0) expected

end Reconstructor

end ShardVault
