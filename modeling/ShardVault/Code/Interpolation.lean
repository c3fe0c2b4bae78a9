import ShardVault.Bytes
import ShardVault.Galois

/-!
Interpolation.  Bytes at the same place of several shards are the values of one polynomial at the
shards' points, of degree below the number of shards.  `valueAt` takes shards known at some points
to the shard at another point.  It works on all places at once, with one coefficient for each
known shard, and the coefficient depends on the points alone.
-/

namespace ShardVault.Interpolation

/-- The product of `x - p` over the points `p` other than `own`. -/
def gap : List GF256 → GF256 → GF256 → GF256
  | [], _, _ => 1
  | p :: rest, own, x => if p = own then gap rest own x else (x + p) * gap rest own x

/-- What the value at `own` contributes to the value at `x`: the polynomial that is one at `own`
    and zero at the other points. -/
def coefficient (points : List GF256) (own x : GF256) : GF256 :=
  gap points own x * (gap points own own).inverse

/-- The sum of shards of `length` bytes, each times its coefficient. -/
def combine (length : Nat) : List (GF256 × Bytes) → Bytes
  | [] => List.replicate length 0
  | (c, shard) :: rest =>
    List.zipWith (fun byte total => (c * ⟨byte⟩ + ⟨total⟩).byte) shard (combine length rest)

/-- The shard at `x` of the polynomials through the known shards, all of `length` bytes. -/
def valueAt (length : Nat) (known : List (GF256 × Bytes)) (x : GF256) : Bytes :=
  let points := known.map Prod.fst
  combine length (known.map fun (own, shard) => (coefficient points own x, shard))

end ShardVault.Interpolation
