import ShardVault.Bytes
import ShardVault.Text.Decimal

/-!
Padding of blocks to whole multiples of the number of data shards.  A block grows by one byte at
least and `k` at most, and every byte added is `k` less the number of bytes added, cut to eight
bits.  The last byte of a padded block therefore tells how much to strip, as long as `k` is at
most 256.
-/

namespace ShardVault.Padding

/-- How many bytes a block of `length` bytes grows by. -/
def amount (length k : Nat) : Nat :=
  k - length % k

/-- The block, extended to the next multiple of `k`; meant for a positive `k`. -/
def pad (k : Nat) (block : Bytes) : Bytes :=
  let added := amount block.length k
  block ++ List.replicate added (UInt8.ofNat (k - added))

/-- The padded block; there is none to a multiple of zero, and none above `Bytes.maxSize`. -/
def pad? (k : Nat) (block : Bytes) : Option Bytes :=
  if k = 0 ∨ Bytes.maxSize < block.length + amount block.length k then none
  else some (pad k block)

/-- Why a buffer is no padded block. -/
inductive Fault
  | emptyBuffer
  | marker (last : UInt8) (k : Nat)
  | excess (padding length : Nat)
deriving DecidableEq, Repr

/-- The wording of a padding fault. -/
def Fault.reason : Fault → String
  | .emptyBuffer => "recovered buffer is empty"
  | .marker last k =>
    "pad marker " ++ Decimal.text last.toNat ++ " is not below k (" ++ Decimal.text k ++ ")"
  | .excess padding length =>
    "pad length " ++ Decimal.text padding ++ " exceeds buffer length " ++ Decimal.text length

/-- The buffer without the padding that its last byte tells of. -/
def unpad (k : Nat) (buffer : Bytes) : Except Fault Bytes :=
  match buffer.getLast? with
  | none => .error .emptyBuffer
  | some last =>
    if k ≤ last.toNat then .error (.marker last k)
    else
      let padding := k - last.toNat
      if buffer.length < padding then .error (.excess padding buffer.length)
      else .ok (buffer.take (buffer.length - padding))

end ShardVault.Padding
