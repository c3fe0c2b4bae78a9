import ShardVault.Code.Interpolation
import ShardVault.Code.Padding
import ShardVault.Code.Scheme

/-!
Encoding.  A block is padded and cut into `k` data shards of one size.  Data shard `i` is the value
at point `i` of the polynomials through the data shards, and the parity shards are their values at
the points from `k` on, so any `k` shards determine all.
-/

namespace ShardVault

/-- One shard of an encoded block. -/
structure Shard where
  index : Nat
  data : Bytes
  isParity : Bool
deriving DecidableEq, Repr

namespace Scheme

/-- The data shards that a padded block is cut into, in order. -/
def cut (s : Scheme) (padded : Bytes) : List Bytes :=
  Bytes.windows (padded.length / s.k) padded

/-- Shards with the points of their positions. -/
def located (shards : List Bytes) : List (GF256 × Bytes) :=
  shards.zipIdx.map fun (shard, index) => (GF256.ofIndex index, shard)

/-- The bytes of all shards of a padded block, data first. -/
def extend (s : Scheme) (padded : Bytes) : List Bytes :=
  let data := s.cut padded
  data ++ (List.range' s.k (s.n - s.k)).map fun index =>
    Interpolation.valueAt (padded.length / s.k) (located data) (GF256.ofIndex index)

/-- All shards of a padded block. -/
def shards (s : Scheme) (padded : Bytes) : List Shard :=
  (s.extend padded).zipIdx.map fun (data, index) => ⟨index, data, decide (s.k ≤ index)⟩

/-- All shards of a block; there are none if the block cannot be padded. -/
def encode? (s : Scheme) (block : Bytes) : Option (List Shard) :=
  (Padding.pad? s.k block).map s.shards

/-- All shards of a block that can be padded. -/
def encode (s : Scheme) (block : Bytes) : List Shard :=
  s.shards (Padding.pad s.k block)

end Scheme

end ShardVault
