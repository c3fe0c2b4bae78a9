import ShardVault.Proofs.Split.Whole

/-!
How the calls of a split end.  Whatever chunk storage does, the stripes that a split reports are
those with calls that did not end in success, in the order of their positions; and it reports none
only if there are none (`split_endings`).
-/

namespace ShardVault

namespace Splitter

variable {κ : Type} (splitter : Splitter) (client : ChunkClient κ)

/-- How the calls for the shards of stripes end, stripe by stripe, the first being at a position.
    From a stripe that has no shards on there are no calls. -/
def outcomes : Storage κ → Nat → List Bytes → List (List StoreOutcome)
  | _, _, [] => []
  | storage, index, stripe :: rest =>
    match splitter.scheme.encode? stripe with
    | none => []
    | some shards =>
      let (ended, after) := client.store storage index (shards.map .ofShard)
      ended :: outcomes after (index + 1) rest

theorem outcomes_cons {stripe : Bytes}
    (h : splitter.scheme.encode? stripe = some (splitter.scheme.encode stripe))
    (storage : Storage κ) (index : Nat) (rest : List Bytes) :
    splitter.outcomes client storage index (stripe :: rest) =
      (client.store storage index (splitter.requests stripe)).1 ::
        splitter.outcomes client (client.store storage index (splitter.requests stripe)).2
          (index + 1) rest := by
  simp only [outcomes, h]
  rfl

/-- How the calls end that a split of a content makes, stripe by stripe. -/
def endings (storage : Storage κ) (content : Bytes) : List (List StoreOutcome) :=
  match Stripe.segment? splitter.stripeSize content with
  | none => []
  | some stripes => splitter.outcomes client storage 0 stripes

/-- A content that does not fit has no calls. -/
theorem endings_of_not_fits (storage : Storage κ) {content : Bytes}
    (h : ¬ splitter.Fits content) : splitter.endings client storage content = [] := by
  rcases splitter.segment?_of_not_fits h with hnone | ⟨stripe, rest, hstripes, hfirst⟩
  · simp only [endings, hnone]
  · simp only [endings, hstripes, outcomes, hfirst]

/-- The position of a stripe if one of its calls failed. -/
def failedStripe? : List StoreOutcome × Nat → Option Nat
  | (ended, index) => if ∀ outcome ∈ ended, outcome = .success then none else some index

/-- The positions of the stripes with calls that failed. -/
def failedStripes (endings : List (List StoreOutcome)) : List Nat :=
  endings.zipIdx.filterMap failedStripe?

theorem failedStripe?_eq_some_iff {entry : List StoreOutcome × Nat} {index : Nat} :
    failedStripe? entry = some index ↔
      entry.2 = index ∧ ∃ outcome ∈ entry.1, outcome ≠ .success := by
  obtain ⟨ended, number⟩ := entry
  rw [failedStripe?]
  split
  · rename_i hall
    constructor
    · intro h
      cases h
    · rintro ⟨-, outcome, hmem, hne⟩
      exact absurd (hall outcome hmem) hne
  · rename_i hnot
    push Not at hnot
    simp [hnot]

theorem mem_failedStripes {endings : List (List StoreOutcome)} {index : Nat} :
    index ∈ failedStripes endings ↔
      ∃ ended, endings[index]? = some ended ∧ ∃ outcome ∈ ended, outcome ≠ .success := by
  rw [failedStripes, mem_filterMap_zipIdx]
  simp only [failedStripe?_eq_some_iff]
  constructor
  · rintro ⟨ended, _, hget, rfl, hfails⟩
    exact ⟨ended, hget, hfails⟩
  · rintro ⟨ended, hget, hfails⟩
    exact ⟨ended, index, hget, rfl, hfails⟩

theorem failedStripes_ne_nil_iff {endings : List (List StoreOutcome)} :
    failedStripes endings ≠ [] ↔ ∃ ended ∈ endings, ∃ outcome ∈ ended, outcome ≠ .success := by
  constructor
  · intro hne
    obtain ⟨index, hindex⟩ := List.exists_mem_of_ne_nil _ hne
    obtain ⟨ended, hget, hfails⟩ := mem_failedStripes.mp hindex
    exact ⟨ended, List.mem_of_getElem? hget, hfails⟩
  · rintro ⟨ended, hmem, hfails⟩
    obtain ⟨index, hget⟩ := List.getElem?_of_mem hmem
    exact List.ne_nil_of_mem (mem_failedStripes.mpr ⟨ended, hget, hfails⟩)

theorem ascending_failedStripes (endings : List (List StoreOutcome)) :
    (failedStripes endings).Pairwise (· < ·) := by
  have hascending : ((endings.zipIdx.filterMap failedStripe?).map id).Pairwise (· < ·) := by
    apply ascending_filterMap_zipIdx
    intro entry index h
    exact (failedStripe?_eq_some_iff.mp h).1.symm
  rwa [List.map_id] at hascending

theorem storeStripe_snd (storage : Storage κ) (index : Nat) (stripe : Bytes) :
    (splitter.storeStripe client storage index stripe).2 =
      (client.store storage index (splitter.requests stripe)).2 := by
  simp only [storeStripe_eq]
  split <;> rfl

/-- A stripe fails exactly if one of its calls does. -/
theorem storeStripe_outcomes (storage : Storage κ) (index : Nat) (stripe : Bytes) :
    match failedStripe? ((client.store storage index (splitter.requests stripe)).1, index) with
    | none => ∃ record, (splitter.storeStripe client storage index stripe).1 = .ok record
    | some number => ∃ failure, (splitter.storeStripe client storage index stripe).1 =
        .error failure ∧ failure.stripeIndex = number := by
  have hnil := chunkFailures_eq_nil_iff
    (client.length_store storage index (splitter.requests stripe))
  by_cases hall : ∀ outcome ∈ (client.store storage index (splitter.requests stripe)).1,
      outcome = .success
  · simp only [failedStripe?, if_pos hall, storeStripe_eq, hnil.mpr hall]
    exact ⟨_, rfl⟩
  · simp only [failedStripe?, if_neg hall, storeStripe_eq]
    cases hfailures : chunkFailures (splitter.requests stripe)
        (client.store storage index (splitter.requests stripe)).1 with
    | nil => exact absurd (hnil.mp hfailures) hall
    | cons first rest => exact ⟨_, rfl, rfl⟩

/-- The failures of stripes are those of their calls. -/
theorem stripeIndex_failuresOf {stripes : List Bytes}
    (h : ∀ stripe ∈ stripes,
      splitter.scheme.encode? stripe = some (splitter.scheme.encode stripe))
    (storage : Storage κ) (index : Nat) :
    (failuresOf (splitter.storeStripes client storage index stripes).1).map
        StripeFailure.stripeIndex =
      ((splitter.outcomes client storage index stripes).zipIdx index).filterMap failedStripe? := by
  induction stripes generalizing storage index with
  | nil => rfl
  | cons stripe rest ih =>
    have hstripe := splitter.storeStripe_outcomes client storage index stripe
    rw [List.forall_mem_cons] at h
    have hrest := ih h.2 (splitter.storeStripe client storage index stripe).2 (index + 1)
    rw [storeStripe_snd] at hrest
    simp only [storeStripes, splitter.outcomes_cons client h.1, List.zipIdx_cons,
      List.filterMap_cons, storeStripe_snd]
    rw [← hrest]
    cases hfailed : failedStripe?
        ((client.store storage index (splitter.requests stripe)).1, index) with
    | none =>
      rw [hfailed] at hstripe
      obtain ⟨record, hrecord⟩ := hstripe
      rw [hrecord]
      rfl
    | some number =>
      rw [hfailed] at hstripe
      obtain ⟨failure, hfailure, rfl⟩ := hstripe
      rw [hfailure]
      rfl

/-- A record is published under its digest, or something goes wrong that is no failed call. -/
theorem publish_result (now : Instant) (storage : Storage κ) (registry : Registry)
    (record : FileRecord) (size : Nat) :
    (∃ report, (splitter.publish now storage registry record size).1 = .ok report ∧
        report.fileHash = record.fileHash) ∨
      ∃ cause, (splitter.publish now storage registry record size).1 = .error cause ∧
        ∀ failures, cause ≠ .splitFailed failures := by
  cases hpublish : (splitter.publish now storage registry record size).1 with
  | ok report =>
    refine .inl ⟨report, rfl, ?_⟩
    simp only [publish] at hpublish
    split at hpublish
    · cases hpublish
    · cases hpublish
      rfl
  | error cause =>
    refine .inr ⟨cause, rfl, fun failures hcause => ?_⟩
    rw [hcause] at hpublish
    exact splitter.publish_ne_splitFailed now storage registry record size failures hpublish

/-- A split either has stripes with calls that failed, and reports just these, or it has none, and
    then it is reported as stored, or something else went wrong. -/
theorem split_endings (now : Instant) (storage : Storage κ) (registry : Registry)
    (content : Bytes) :
    let result := (splitter.split client now storage registry content).1
    let failed := failedStripes (splitter.endings client storage content)
    (failed ≠ [] ∧ ∃ failures, result = .error (.refused (.splitFailed failures)) ∧
        failures.map StripeFailure.stripeIndex = failed) ∨
      (failed = [] ∧ ((∃ report, result = .ok report ∧ report.fileHash = (Digest.of content).hex) ∨
        ∃ stop, result = .error stop ∧ ∀ failures, stop ≠ .refused (.splitFailed failures))) := by
  intro result failed
  by_cases hfits : splitter.Fits content
  · have hcases := splitter.split_cases client now storage registry hfits
    have hindexes := splitter.stripeIndex_failuresOf client (fun _ => hfits.encode?_eq) storage 0
    have hfailed : (splitter.outcomes client storage 0
        (Stripe.segment splitter.stripeSize content)).zipIdx.filterMap failedStripe? = failed := by
      simp only [failed, failedStripes, endings, hfits.segment?_eq]
    rw [hfailed] at hindexes
    generalize splitter.storeStripes client storage 0
      (Stripe.segment splitter.stripeSize content) = stored at hcases hindexes
    obtain ⟨results, after⟩ := stored
    rcases hcases with ⟨hne, hrun⟩ | ⟨hnone, hrun⟩
    · refine .inl ⟨?_, failuresOf results, congrArg Prod.fst hrun, hindexes⟩
      rw [← hindexes, ne_eq, List.map_eq_nil_iff]
      exact hne
    · have hpublished := splitter.publish_result now after registry (splitter.record content)
        content.length
      generalize splitter.publish now after registry (splitter.record content)
        content.length = published at hrun hpublished
      obtain ⟨answer, written⟩ := published
      have hresult : result = answer.mapError .refused := congrArg Prod.fst hrun
      refine .inr ⟨by rw [← hindexes, hnone, List.map_nil], ?_⟩
      rcases hpublished with ⟨report, rfl, hhash⟩ | ⟨cause, rfl, hne⟩
      · exact .inl ⟨report, hresult, hhash⟩
      · exact .inr ⟨.refused cause, hresult,
          fun failures hstop => hne failures (Stop.refused.inj hstop)⟩
  · have hresult : result = .error .crash :=
      congrArg Prod.fst (splitter.split_of_not_fits client now storage registry hfits)
    have hnone : failed = [] := by
      simp only [failed, splitter.endings_of_not_fits client storage hfits]
      rfl
    exact .inr ⟨hnone, .inr ⟨.crash, hresult, fun failures h => nomatch h⟩⟩

end Splitter

end ShardVault
