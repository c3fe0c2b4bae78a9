import ShardVault.Code.Recovery
import ShardVault.Digest
import ShardVault.Failure
import ShardVault.FileTree.Fault

/-!
Errors.  A storage error is a cause met in splitting, keeping or recovering files.  The chunk
service adds one of its own, and a node wraps the errors of its parts.  `message` is the wording
of each.
-/

namespace ShardVault

/-- What can go wrong with stored files. -/
inductive StorageError
  | fileNotFound (fileHash : String)
  | invalidScheme (reason : String)
  | invalidStripeSize
  | coding (reason : String)
  | shardCountMismatch (expected got : Nat)
  | insufficientShards (available needed : Nat)
  | paddingCorrupt (reason : String)
  | invalidHash (reason : String)
  | integrity (expected actual : String)
  | stripeUnrecoverable (stripeIndex : Nat) (reason : String)
  | splitFailed (failures : List StripeFailure)
  | io (reason : String)
  | serialization (reason : String)
deriving DecidableEq, Repr

/-- What can go wrong in a call to a service. -/
inductive ServiceError
  | unavailable (reason : String)
  | storage (cause : StorageError)
deriving DecidableEq, Repr

/-- Why settings cannot be used. -/
inductive ConfigFault
  /-- The text is no settings document. -/
  | malformed
  /-- The settings ask for something that cannot be had. -/
  | invalid (reason : String)
deriving DecidableEq, Repr

/-- What can go wrong at a node. -/
inductive NodeError
  | crypto (reason : String)
  | service (cause : ServiceError)
  | storage (cause : StorageError)
  | config (fault : ConfigFault)
  | io (reason : String)
deriving DecidableEq, Repr

/-- The wording of a text that spells no digest. -/
def Digest.SpellingError.message (e : Digest.SpellingError) : String :=
  "Invalid hash: " ++ e.reason

namespace StorageError

/-- The wording of a storage error. -/
def message : StorageError → String
  | fileNotFound fileHash => "File not found: " ++ fileHash
  | invalidScheme reason => "Invalid erasure parameters: " ++ reason
  | invalidStripeSize => "Stripe size must be at least one byte"
  | coding reason => "Erasure coding error: " ++ reason
  | shardCountMismatch expected got =>
    "Expected " ++ Decimal.text expected ++ " shard slots, got " ++ Decimal.text got
  | insufficientShards available needed =>
    "Not enough shards available: have " ++ Decimal.text available ++ ", need " ++
      Decimal.text needed
  | paddingCorrupt reason => "Padding inconsistent with recovered data: " ++ reason
  | invalidHash reason => "Invalid hash: " ++ reason
  | integrity expected actual =>
    "Integrity check failed: expected " ++ expected ++ ", got " ++ actual
  | stripeUnrecoverable stripeIndex reason =>
    "Stripe " ++ Decimal.text stripeIndex ++ " unrecoverable: " ++ reason
  | splitFailed failures =>
    "Split failed on " ++ Decimal.text failures.length ++ " stripe(s): " ++
      StripeFailure.report failures
  | io reason => "IO error: " ++ reason
  | serialization reason => "Serialization error: " ++ reason

/-- A text given as a digest spells none. -/
def ofSpelling (e : Digest.SpellingError) : StorageError :=
  .invalidHash e.message

/-- A redundancy that no code has. -/
def ofScheme (e : SchemeError) : StorageError :=
  .invalidScheme e.reason

/-- Slots that give no block. -/
def ofRecovery : RecoveryError → StorageError
  | .slotCount expected got => .shardCountMismatch expected got
  | .tooFew present needed => .insufficientShards present needed
  | .coding fault => .coding fault.reason
  | .padding fault => .paddingCorrupt fault.reason

/-- An operation on files that failed. -/
def ofFile (fault : FileFault) : StorageError :=
  .io fault.reason

end StorageError

/-- The wording of a service error. -/
def ServiceError.message : ServiceError → String
  | .unavailable reason => "Service unavailable: " ++ reason
  | .storage cause => "Storage error: " ++ cause.message

/-- The wording of a config fault. -/
def ConfigFault.reason : ConfigFault → String
  | .malformed => "malformed settings"
  | .invalid reason => reason

/-- The wording of a node error. -/
def NodeError.message : NodeError → String
  | .crypto reason => "Cryptographic error: Invalid hash: " ++ reason
  | .service cause => "Service error: " ++ cause.message
  | .storage cause => "Storage error: " ++ cause.message
  | .config fault => "Configuration error: " ++ fault.reason
  | .io reason => "IO error: " ++ reason

end ShardVault
