/-!
How an operation stops without a result.  Besides the errors that it reports, it may come to a
point where it cannot go on at all.
-/

namespace ShardVault

/-- Why there is no result. -/
inductive Stop (ε : Type)
  /-- The operation reports an error. -/
  | refused (cause : ε)
  /-- The operation breaks off and reports nothing. -/
  | crash
deriving DecidableEq, Repr

/-- The same stop with its cause seen from elsewhere. -/
def Stop.map {ε δ : Type} (see : ε → δ) : Stop ε → Stop δ
  | .refused cause => .refused (see cause)
  | .crash => .crash

end ShardVault
