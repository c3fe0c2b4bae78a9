import ShardVault.Code.Shard

/-!
Decoding.  A slot for every shard of a block holds the shard's bytes or nothing.  The first `k`
shards present decide, and shards after them are not looked at; with fewer than `k` there is no
answer.
-/

namespace ShardVault

/-- Why shards cannot be put together. -/
inductive CodingFault
  | unequalLengths
  | noBytes
deriving DecidableEq, Repr

/-- The wording of a coding fault. -/
def CodingFault.reason : CodingFault → String
  | .unequalLengths => "shards have inconsistent lengths"
  | .noBytes => "The first shard provided is of zero length"

/-- Why slots give no block. -/
inductive RecoveryError
  | slotCount (expected got : Nat)
  | tooFew (present needed : Nat)
  | coding (fault : CodingFault)
  | padding (fault : Padding.Fault)
deriving DecidableEq, Repr

namespace Scheme

/-- The shards present, with the points of their slots. -/
def present (slots : List (Option Bytes)) : List (GF256 × Bytes) :=
  slots.zipIdx.filterMap fun (slot, index) => slot.map (GF256.ofIndex index, ·)

/-- The padded block that slots determine. -/
def decodePadded (s : Scheme) (slots : List (Option Bytes)) : Except RecoveryError Bytes :=
  let found := present slots
  if slots.length ≠ s.n then .error (.slotCount s.n slots.length)
  else if found.length < s.k then .error (.tooFew found.length s.k)
  else
    let chosen := found.take s.k
    let length := (chosen.head?.map (·.2.length)).getD 0
    if chosen.any (·.2.length ≠ length) then .error (.coding .unequalLengths)
    else if s.k < s.n ∧ length = 0 then .error (.coding .noBytes)
    else .ok <| (List.range s.k).flatMap fun index =>
      Interpolation.valueAt length chosen (GF256.ofIndex index)

/-- The block that slots determine. -/
def decode (s : Scheme) (slots : List (Option Bytes)) : Except RecoveryError Bytes :=
  match s.decodePadded slots with
  | .error e => .error e
  | .ok padded =>
    match Padding.unpad s.k padded with
    | .error fault => .error (.padding fault)
    | .ok block => .ok block

end Scheme

end ShardVault
