import ShardVault.Proofs.Documents
import ShardVault.Proofs.Reconstruct.Complete

/-!
Stripes from slots with anything in them.  Slots whose bytes do not have the digest recorded for
their position do not count, whatever they hold, so a stripe comes back from `k` that have, and
otherwise they are told by their number (`reconstructStripe_mixed`).
-/

namespace ShardVault.Reconstructor

/-! ## Verified slots -/

/-- The number of slots whose bytes have the digest recorded for their position. -/
def genuine (record : StripeRecord) (slots : List (Option Bytes)) : Nat :=
  (slots.zip record.chunkHashes).countP fun (slot, expected) =>
    slot.any fun data => decide ((Digest.of data).hex = expected)

variable {record : StripeRecord} {slots : List (Option Bytes)}

theorem countP_verified (record : StripeRecord) (slots : List (Option Bytes)) :
    (verified record slots).countP Option.isSome = genuine record slots := by
  rw [verified, List.countP_map, genuine]
  congr 1
  funext entry
  simp [Option.isSome_filter]

theorem length_verified (h : slots.length = record.chunkHashes.length) :
    (verified record slots).length = slots.length := by
  rw [verified, List.length_map, List.length_zip, ← h, Nat.min_self]

/-- A verified slot has the bytes of the slot, and they have the digest recorded. -/
theorem of_getElem?_verified {position : Nat} {data : Bytes}
    (h : (verified record slots)[position]? = some (some data)) :
    slots[position]? = some (some data) ∧
      record.chunkHashes[position]? = some (Digest.of data).hex := by
  rw [verified, List.getElem?_map] at h
  obtain ⟨⟨slot, expected⟩, hentry, hslot⟩ := Option.map_eq_some_iff.mp h
  obtain ⟨hget, hexpected⟩ := List.getElem?_zip_eq_some.mp hentry
  obtain ⟨rfl, hdigest⟩ := Option.filter_eq_some_iff.mp hslot
  rw [hget, hexpected, of_decide_eq_true hdigest]
  exact ⟨rfl, rfl⟩

/-- A stripe is rebuilt from the verified slots alone. -/
theorem reconstructStripe_verified (reconstructor : Reconstructor)
    (h : slots.length = record.chunkHashes.length) :
    reconstructor.reconstructStripe record (verified record slots) =
      reconstructor.reconstructStripe record slots := by
  have hlength := length_verified h
  have hagain : verified record (verified record slots) = verified record slots :=
    verified_eq_self (hlength.trans h) fun _ _ hslot => (of_getElem?_verified hslot).2
  rw [reconstructStripe, reconstructStripe, hlength, hagain]

/-! ## Slots of a stripe -/

/-- Verified slots hold the shards of the stripe recorded, if no bytes in the slots have the digest
    of a shard that they are not. -/
theorem holdShards_verified {scheme : Scheme} {stripe : Bytes}
    (hlength : slots.length = scheme.n)
    (hdistinct : ∀ data, some data ∈ slots → ∀ shard ∈ scheme.encode stripe,
      Digest.of data = Digest.of shard.data → data = shard.data) :
    scheme.HoldShards stripe (verified (scheme.stripeRecord stripe) slots) where
  length := by
    rw [length_verified, hlength]
    rw [hlength, Scheme.length_chunkHashes_stripeRecord]
  shard position data hslot := by
    obtain ⟨hget, hhash⟩ := of_getElem?_verified hslot
    rw [Scheme.chunkHashes_stripeRecord, List.getElem?_map] at hhash
    obtain ⟨shard, hshard, hhex⟩ := Option.map_eq_some_iff.mp hhash
    have hdata := hdistinct data (List.mem_of_getElem? hget) shard (List.mem_of_getElem? hshard)
      (Digest.hex_injective hhex.symm)
    rw [hdata]
    exact scheme.getElem?_shardBytes_of_encode stripe hshard

/-- Whatever is in the slots of a stripe, lost, damaged or in another's place: the stripe comes back
    if `k` of them have the digests recorded for their positions, and otherwise the number of those
    that have is reported.  Another number of slots is refused. -/
theorem reconstructStripe_mixed (reconstructor : Reconstructor) (stripe : Bytes)
    (slots : List (Option Bytes)) :
    let scheme := reconstructor.scheme
    let record := scheme.stripeRecord stripe
    (slots.length ≠ scheme.n → reconstructor.reconstructStripe record slots =
      .error (.shardCountMismatch scheme.n slots.length)) ∧
    (slots.length = scheme.n →
      (∀ data, some data ∈ slots → ∀ shard ∈ scheme.encode stripe,
        Digest.of data = Digest.of shard.data → data = shard.data) →
      reconstructor.reconstructStripe record slots =
        if scheme.k ≤ genuine record slots then .ok stripe
        else .error (.insufficientShards (genuine record slots) scheme.k)) := by
  intro scheme record
  have hchunks : record.chunks.length = scheme.n := by
    rw [← scheme.length_chunkHashes_stripeRecord stripe, StripeRecord.chunkHashes, List.length_map]
  refine ⟨fun hlength => ?_, fun hlength hdistinct => ?_⟩
  · rw [reconstructStripe, hchunks, if_pos hlength]
  · have hhashes : slots.length = record.chunkHashes.length :=
      hlength.trans (scheme.length_chunkHashes_stripeRecord stripe).symm
    rw [← reconstructStripe_verified reconstructor hhashes,
      reconstructStripe_of_shards rfl (scheme.length_chunkHashes_stripeRecord stripe)
        (holdShards_verified hlength hdistinct)
        fun _ _ hslot => (of_getElem?_verified hslot).2,
      countP_verified]
    by_cases hfew : genuine record slots < scheme.k
    · rw [if_pos hfew, if_neg (Nat.not_le.mpr hfew)]
    · rw [if_neg hfew, if_pos (Nat.not_lt.mp hfew)]

/-! ## Three shards -/

/-- The slots of three shards, with the second also in the place of the first. -/
def misplaced : List (Option Bytes) :=
  [some [1], some [1], some [11]]

theorem reconstructStripe_mixed_sample :
    misplaced.length = Scheme.twoOfThree.n ∧
      (∀ data, some data ∈ misplaced → ∀ shard ∈ Scheme.twoOfThree.encode [7],
        Digest.of data = Digest.of shard.data → data = shard.data) ∧
      reconstructStripe ⟨.twoOfThree, .sample⟩ (Scheme.twoOfThree.stripeRecord [7]) misplaced =
        .ok [7] := by
  have hfirst : Digest.of [1] ≠ Digest.of [7] := Digest.of_ne_of_finish (by decide +kernel)
  have hthird : Digest.of [1] ≠ Digest.of [11] := Digest.of_ne_of_finish (by decide +kernel)
  have hother : Digest.of [11] ≠ Digest.of [7] := Digest.of_ne_of_finish (by decide +kernel)
  have hdistinct : ∀ data, some data ∈ misplaced → ∀ shard ∈ Scheme.twoOfThree.encode [7],
      Digest.of data = Digest.of shard.data → data = shard.data := by
    rw [Scheme.encode_twoOfThree]
    intro data hdata shard hshard
    simp only [misplaced, List.mem_cons, List.not_mem_nil, Option.some.injEq, or_false] at hdata
    simp only [List.mem_cons, List.not_mem_nil, or_false] at hshard
    rcases hdata with rfl | rfl | rfl <;> rcases hshard with rfl | rfl | rfl <;>
      simp [hfirst, hthird, hthird.symm, hother]
  have hgenuine : genuine (Scheme.twoOfThree.stripeRecord [7]) misplaced = 2 := by
    rw [genuine, Scheme.chunkHashes_stripeRecord, Scheme.encode_twoOfThree]
    simp [misplaced, hfirst]
  have hstripe := (reconstructStripe_mixed ⟨.twoOfThree, .sample⟩ [7] misplaced).2 rfl hdistinct
  simp only [hgenuine] at hstripe
  exact ⟨rfl, hdistinct, hstripe⟩

end ShardVault.Reconstructor
