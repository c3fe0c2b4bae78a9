import ShardVault.Bytes

/-!
Stripes.  A content is cut into windows of one size, and the last window is filled up with zeros,
so every stripe has that size; an empty content has no stripe.
-/

namespace ShardVault.Stripe

/-- The stripes of a content, in order; meant for a positive size. -/
def segment (size : Nat) (content : Bytes) : List Bytes :=
  (Bytes.windows size content).map fun window => window.rightpad size 0

/-- The stripes of a content; there are none of size zero, and none above `Bytes.maxSize`. -/
def segment? (size : Nat) (content : Bytes) : Option (List Bytes) :=
  if size = 0 ∨ (Bytes.maxSize < size ∧ content ≠ []) then none else some (segment size content)

end ShardVault.Stripe
