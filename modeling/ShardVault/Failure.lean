import ShardVault.Text.Decimal

/-!
What went wrong in storing a file.  Every chunk that was not stored is reported with its reason,
under the stripe that it belongs to.
-/

namespace ShardVault

/-- Why a chunk was not stored. -/
inductive ChunkFailure.Reason
  /-- The chunk service answered, and refused the chunk. -/
  | rejected
  /-- The call failed with an error of this wording. -/
  | storage (text : String)
  /-- The call was cut off. -/
  | timedOut
deriving DecidableEq, Repr

/-- A chunk that was not stored. -/
structure ChunkFailure where
  chunkIndex : Nat
  chunkHash : String
  reason : ChunkFailure.Reason
deriving DecidableEq, Repr

/-- A stripe with chunks that were not stored. -/
structure StripeFailure where
  stripeIndex : Nat
  stripeHash : String
  chunks : List ChunkFailure
deriving DecidableEq, Repr

/-- The wording of a reason. -/
def ChunkFailure.Reason.text : ChunkFailure.Reason → String
  | .rejected => "rejected by chunk storage"
  | .storage text => "storage error: " ++ text
  | .timedOut => "timed out"

/-- One chunk of a report. -/
def ChunkFailure.text (failure : ChunkFailure) : String :=
  "chunk " ++ Decimal.text failure.chunkIndex ++ " " ++ failure.reason.text

/-- One stripe of a report: its position, then its chunks. -/
def StripeFailure.text (failure : StripeFailure) : String :=
  "stripe " ++ Decimal.text failure.stripeIndex ++ " [" ++
    ", ".intercalate (failure.chunks.map ChunkFailure.text) ++ "]"

/-- A whole report. -/
def StripeFailure.report (failures : List StripeFailure) : String :=
  "; ".intercalate (failures.map StripeFailure.text)

end ShardVault
