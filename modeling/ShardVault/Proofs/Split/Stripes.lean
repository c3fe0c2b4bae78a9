import ShardVault.Proofs.Code.Shard
import ShardVault.Proofs.Stripe
import ShardVault.Split

/-!
The stripes of a content that can be split.  All stripes have one size, so either each of them has
shards or none has.  A split of a content that has none breaks off before its first call
(`split_of_not_fits`); any other split goes through its stripes to the last one (`split_of_fits`).
-/

namespace ShardVault.Splitter

variable (splitter : Splitter) {content : Bytes}

/-! ## Contents that fit -/

/-- A content has stripes and each of them has shards: a stripe with its padding is not above the
    largest size, or there is no stripe. -/
def Fits (content : Bytes) : Prop :=
  ¬ (Bytes.maxSize < (splitter.stripeSize / splitter.scheme.k + 1) * splitter.scheme.k ∧
    content ≠ [])

instance (content : Bytes) : Decidable (splitter.Fits content) :=
  inferInstanceAs (Decidable (¬ _))

theorem fits_nil : splitter.Fits [] :=
  fun h => h.2 rfl

/-- The padding makes a stripe longer. -/
theorem stripeSize_lt :
    splitter.stripeSize < (splitter.stripeSize / splitter.scheme.k + 1) * splitter.scheme.k := by
  rw [Nat.mul_comm]
  exact Nat.lt_mul_div_succ _ splitter.scheme.k_pos

variable {splitter} in
theorem Fits.segment?_eq (h : splitter.Fits content) :
    Stripe.segment? splitter.stripeSize content =
      some (Stripe.segment splitter.stripeSize content) := by
  apply Stripe.segment?_eq_some splitter.stripeSize_pos
  rintro ⟨hlarge, hne⟩
  exact h ⟨hlarge.trans splitter.stripeSize_lt, hne⟩

variable {splitter} in
theorem Fits.encode?_eq (h : splitter.Fits content) {stripe : Bytes}
    (hstripe : stripe ∈ Stripe.segment splitter.stripeSize content) :
    splitter.scheme.encode? stripe = some (splitter.scheme.encode stripe) := by
  have hcontent : content ≠ [] := by
    rintro rfl
    rw [Stripe.segment_nil] at hstripe
    cases hstripe
  rw [Scheme.encode?_eq, Stripe.length_of_mem_segment hstripe, if_neg fun hlarge =>
    h ⟨hlarge, hcontent⟩]

/-- A content that does not fit has no stripes, or its first stripe has no shards. -/
theorem segment?_of_not_fits (h : ¬ splitter.Fits content) :
    Stripe.segment? splitter.stripeSize content = none ∨
      ∃ stripe rest, Stripe.segment? splitter.stripeSize content = some (stripe :: rest) ∧
        splitter.scheme.encode? stripe = none := by
  obtain ⟨hlarge, hcontent⟩ := Decidable.not_not.mp h
  cases hsegment : Stripe.segment? splitter.stripeSize content with
  | none => exact .inl rfl
  | some stripes =>
    obtain rfl := Stripe.eq_segment_of_segment? hsegment
    have hstripes := Stripe.segment_of_ne_nil (Nat.pos_iff_ne_zero.mp splitter.stripeSize_pos)
      hcontent
    refine .inr ⟨_, _, congrArg some hstripes, ?_⟩
    have hlength := Stripe.length_of_mem_segment (hstripes ▸ List.mem_cons_self)
    rw [Scheme.encode?_eq, hlength, if_pos hlarge]

/-! ## Stripes with shards -/

/-- The calls that store the shards of a stripe. -/
def requests (stripe : Bytes) : List StoreChunkRequest :=
  (splitter.scheme.encode stripe).map .ofShard

variable {κ : Type} (client : ChunkClient κ)

/-- Encodes and stores one stripe that has shards. -/
def storeStripe (storage : Storage κ) (index : Nat) (stripe : Bytes) :
    Except StripeFailure StripeRecord × Storage κ :=
  storeShards client storage index stripe (splitter.scheme.encode stripe)

/-- Encodes and stores stripes that have shards, the first of them at a position. -/
def storeStripes : Storage κ → Nat → List Bytes →
    List (Except StripeFailure StripeRecord) × Storage κ
  | storage, _, [] => ([], storage)
  | storage, index, stripe :: rest =>
    let (result, storage) := splitter.storeStripe client storage index stripe
    let (results, storage) := storeStripes storage (index + 1) rest
    (result :: results, storage)

theorem storeStripe_eq (storage : Storage κ) (index : Nat) (stripe : Bytes) :
    splitter.storeStripe client storage index stripe =
      let (outcomes, storage) := client.store storage index (splitter.requests stripe)
      match chunkFailures (splitter.requests stripe) outcomes with
      | [] => (.ok (recordOf stripe (splitter.requests stripe)), storage)
      | failures => (.error ⟨index, (Digest.of stripe).hex, failures⟩, storage) :=
  rfl

/-- A run over stripes that have shards does not break off. -/
theorem storeStripes?_eq {stripes : List Bytes}
    (h : ∀ stripe ∈ stripes,
      splitter.scheme.encode? stripe = some (splitter.scheme.encode stripe))
    (storage : Storage κ) (index : Nat) :
    splitter.storeStripes? client storage index stripes =
      (some (splitter.storeStripes client storage index stripes).1,
        (splitter.storeStripes client storage index stripes).2) := by
  induction stripes generalizing storage index with
  | nil => rfl
  | cons stripe rest ih =>
    rw [List.forall_mem_cons] at h
    simp only [storeStripes?, h.1, ih h.2, Option.map_some]
    rfl

/-! ## Splits -/

/-- Stores stripes that have shards, and makes the document and the entry of their content. -/
def storeContent (now : Instant) (storage : Storage κ) (registry : Registry) (content : Bytes)
    (stripes : List Bytes) : Except StorageError SplitReport × Storage κ × Registry :=
  let (results, storage) := splitter.storeStripes client storage 0 stripes
  splitter.conclude now storage registry content results

/-- A content that fits is stored stripe by stripe. -/
theorem split_of_fits (now : Instant) (storage : Storage κ) (registry : Registry)
    (h : splitter.Fits content) :
    splitter.split client now storage registry content =
      let (result, storage, registry) := splitter.storeContent client now storage registry content
        (Stripe.segment splitter.stripeSize content)
      (result.mapError .refused, storage, registry) := by
  have hstored := splitter.storeStripes?_eq client (fun _ => h.encode?_eq) storage 0
  simp only [split, h.segment?_eq, hstored]
  rfl

/-- A content that does not fit leaves everything as it is. -/
theorem split_of_not_fits (now : Instant) (storage : Storage κ) (registry : Registry)
    (h : ¬ splitter.Fits content) :
    splitter.split client now storage registry content = (.error .crash, storage, registry) := by
  rcases splitter.segment?_of_not_fits h with hnone | ⟨stripe, rest, hstripes, hfirst⟩
  · simp only [split, hnone]
  · simp only [split, hstripes, storeStripes?, hfirst]

end ShardVault.Splitter
