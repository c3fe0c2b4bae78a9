import ShardVault.Error
import ShardVault.FileTree
import ShardVault.Json.Codec
import ShardVault.Json.Reader

/-!
Settings of a node, and the document that they are read from.  A setting that the document leaves
out keeps its default; settings that ask for something that cannot be had are refused.
-/

namespace ShardVault

/-- What can be set. -/
structure Settings where
  /-- How many bytes a stripe has before it is encoded. -/
  stripeSize : Nat
  k : Nat
  n : Nat
  /-- The directory of the chunks. -/
  storagePath : String
  /-- The directory of the documents. -/
  metadataPath : String
  /-- How many milliseconds a call to store or fetch a chunk may take. -/
  timeout : Nat
  /-- How many calls a service works on at once. -/
  maxConcurrent : Nat
deriving DecidableEq, Repr

namespace Settings

/-- The settings if nothing is set. -/
def standard : Settings where
  stripeSize := 12288
  k := Redundancy.standard.k
  n := Redundancy.standard.n
  storagePath := "./stripestore_data/chunks"
  metadataPath := "./stripestore_data/metadata"
  timeout := 5000
  maxConcurrent := 10

/-- The redundancy that is set. -/
def redundancy (settings : Settings) : Redundancy :=
  ⟨settings.k, settings.n⟩

/-- The names of the settings, in order. -/
def names : List String :=
  ["stripe_size", "k", "n", "storage_path", "metadata_path", "store_timeout_ms",
    "max_concurrent_requests"]

instance : Json.Codec Settings where
  encode settings := Json.record
    [("stripe_size", Json.encode settings.stripeSize), ("k", Json.encode settings.k),
      ("n", Json.encode settings.n), ("storage_path", Json.encode settings.storagePath),
      ("metadata_path", Json.encode settings.metadataPath),
      ("store_timeout_ms", Json.encode settings.timeout),
      ("max_concurrent_requests", Json.encode settings.maxConcurrent)]
  decode? j := do
    let [stripeSize, k, n, storagePath, metadataPath, timeout, maxConcurrent] ←
      Json.optionalFields? names j | none
    return {
      stripeSize := ← Json.defaulting standard.stripeSize stripeSize
      k := ← Json.defaulting standard.k k
      n := ← Json.defaulting standard.n n
      storagePath := ← Json.defaulting standard.storagePath storagePath
      metadataPath := ← Json.defaulting standard.metadataPath metadataPath
      timeout := ← Json.defaulting standard.timeout timeout
      maxConcurrent := ← Json.defaulting standard.maxConcurrent maxConcurrent }

/-- Why settings cannot be had, if they cannot. -/
def fault? (settings : Settings) : Option ConfigFault :=
  if settings.stripeSize = 0 then some (.invalid "stripe_size must be positive")
  else
    match settings.redundancy.scheme with
    | .error e => some (.invalid (StorageError.ofScheme e).message)
    | .ok _ =>
      if settings.timeout = 0 then some (.invalid "store_timeout_ms must be positive")
      else if settings.maxConcurrent = 0 then
        some (.invalid "max_concurrent_requests must be positive")
      else none

/-- The settings that a text holds. -/
def parse? (text : String) : Option Settings := do
  Json.decode? (← Json.parse text)

/-- The settings in a file. -/
def load (files : FileTree) (path : Path) : Except NodeError Settings :=
  match files.readText path with
  | .error fault => .error (.io fault.reason)
  | .ok text =>
    match parse? text with
    | none => .error (.config .malformed)
    | some settings =>
      match settings.fault? with
      | some fault => .error (.config fault)
      | none => .ok settings

end Settings

end ShardVault
