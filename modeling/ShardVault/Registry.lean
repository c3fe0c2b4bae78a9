import Std.Data.ExtTreeMap
import ShardVault.Instant.Text
import ShardVault.Json.Codec

/-!
The registry: what a node knows of the files split since it was opened.  There is one entry for a
file, and it is the first that was made.
-/

namespace ShardVault

/-- The entry of a file. -/
structure RegisteredFile where
  fileHash : String
  size : Nat
  stripeCount : Nat
  chunkCount : Nat
  storedAt : Instant
deriving DecidableEq, Repr

/-- The entries by file. -/
structure Registry where
  files : Std.ExtTreeMap String RegisteredFile

namespace Registry

/-- No entries. -/
def empty : Registry :=
  ⟨∅⟩

/-- Adds the entry of a file, unless it has one, and tells whether it was added. -/
def register (registry : Registry) (file : RegisteredFile) : Bool × Registry :=
  if registry.files.contains file.fileHash then (false, registry)
  else (true, ⟨registry.files.insert file.fileHash file⟩)

/-- The entry of a file. -/
def get? (registry : Registry) (fileHash : String) : Option RegisteredFile :=
  registry.files[fileHash]?

/-- Whether a file has an entry. -/
def contains (registry : Registry) (fileHash : String) : Bool :=
  registry.files.contains fileHash

/-- The number of entries. -/
def size (registry : Registry) : Nat :=
  registry.files.size

/-- Whether there is no entry. -/
def isEmpty (registry : Registry) : Bool :=
  registry.files.isEmpty

/-- The entries in the order of their files. -/
def list (registry : Registry) : List RegisteredFile :=
  registry.files.toList.map Prod.snd

end Registry

instance : Json.Codec Instant where
  encode instant := Json.encode instant.text
  decode? j := (Json.decode? j).bind Instant.ofText?

instance : Json.Codec RegisteredFile where
  encode file := Json.record
    [("file_hash", Json.encode file.fileHash), ("size", Json.encode file.size),
      ("stripe_count", Json.encode file.stripeCount),
      ("chunk_count", Json.encode file.chunkCount), ("stored_at", Json.encode file.storedAt)]
  decode? j := do
    let [fileHash, size, stripeCount, chunkCount, storedAt] ←
      Json.fields? ["file_hash", "size", "stripe_count", "chunk_count", "stored_at"] j | none
    return ⟨← Json.required fileHash, ← Json.required size, ← Json.required stripeCount,
      ← Json.required chunkCount, ← Json.required storedAt⟩

end ShardVault
