import ShardVault.Text.Decimal

/-!
Redundancy: how many shards carry data, and how many shards there are in all.  `Redundancy` holds
any two numbers, as a setting does; `Scheme` is a redundancy that a code exists for, and
`Redundancy.scheme` tells which are.
-/

namespace ShardVault

/-- The most shards that one block can have, one for each element of the field. -/
def maxShards : Nat := 256

/-- A wanted redundancy: `k` shards are enough to recover a block out of `n`. -/
structure Redundancy where
  k : Nat
  n : Nat
deriving DecidableEq, Repr

/-- Three shards out of six are enough, if nothing else is asked for. -/
def Redundancy.standard : Redundancy :=
  ⟨3, 6⟩

/-- A redundancy that a code exists for. -/
structure Scheme where
  k : Nat
  n : Nat
  one_le_k : 1 ≤ k
  k_le_n : k ≤ n
  n_le : n ≤ maxShards
deriving DecidableEq, Repr

/-- Why no code has a redundancy. -/
inductive SchemeError
  | noData
  | moreDataThanShards (k n : Nat)
  | tooManyShards (n : Nat)
deriving DecidableEq, Repr

/-- The wording of a scheme error. -/
def SchemeError.reason : SchemeError → String
  | .noData => "k must be at least 1"
  | .moreDataThanShards k n =>
    "k (" ++ Decimal.text k ++ ") must not exceed n (" ++ Decimal.text n ++ ")"
  | .tooManyShards n =>
    "n (" ++ Decimal.text n ++ ") exceeds the " ++ Decimal.text maxShards ++ " shard limit"

/-- The scheme of a redundancy. -/
def Redundancy.scheme (r : Redundancy) : Except SchemeError Scheme :=
  if hk : r.k = 0 then .error .noData
  else if hkn : r.n < r.k then .error (.moreDataThanShards r.k r.n)
  else if hn : maxShards < r.n then .error (.tooManyShards r.n)
  else .ok ⟨r.k, r.n, by omega, by omega, by omega⟩

namespace Scheme

/-- The redundancy of a scheme. -/
def redundancy (s : Scheme) : Redundancy :=
  ⟨s.k, s.n⟩

/-- The shards beyond those that carry data, which is also how many may be lost. -/
def parityShards (s : Scheme) : Nat :=
  s.n - s.k

end Scheme

end ShardVault
