import ShardVault.Digest

/-!
Digests of content that arrives in pieces.  A `Hasher` is a value, so a copy of it goes its own
way and what happens to one leaves the other alone.
-/

namespace ShardVault

/-- A digest in progress, with the number of bytes read so far as a 64-bit count. -/
structure Hasher where
  state : Sha256.State
  bytesProcessed : UInt64
deriving DecidableEq, Repr

namespace Hasher

/-- Nothing read yet. -/
def new : Hasher :=
  ⟨.initial, 0⟩

/-- Reads one more piece. -/
def update (hasher : Hasher) (piece : Bytes) : Hasher :=
  ⟨hasher.state.absorb piece, hasher.bytesProcessed + UInt64.ofNat piece.length⟩

/-- The digest of everything read. -/
def finish (hasher : Hasher) : Digest :=
  ⟨hasher.state.finish⟩

end Hasher

end ShardVault
