import ShardVault.Split

/-!
The failures of a split.  Both lists of failures, the chunks of a stripe and the stripes of a file,
are got by going through numbered entries and leaving out those in which nothing failed, so their
numbers ascend and every failure is that of its own entry.
-/

namespace ShardVault

/-- What a call that did not store its chunk is reported as. -/
inductive StoreOutcome.FailsWith : StoreOutcome → ChunkFailure.Reason → Prop
  | rejected : FailsWith (.answered ⟨.failure⟩) .rejected
  | storage (cause : ServiceError) : FailsWith (.failed cause) (.storage cause.message)
  | timedOut : FailsWith .timedOut .timedOut

namespace StoreOutcome

/-- The outcome of a call that stored its chunk. -/
def success : StoreOutcome :=
  .answered ⟨.success⟩

theorem failure?_eq_some_iff {outcome : StoreOutcome} {reason : ChunkFailure.Reason} :
    outcome.failure? = some reason ↔ outcome.FailsWith reason := by
  constructor
  · intro h
    cases outcome with
    | answered response =>
      obtain ⟨status⟩ := response
      cases status with
      | success => simp [failure?] at h
      | failure =>
        cases h
        exact .rejected
    | failed cause =>
      cases h
      exact .storage cause
    | timedOut =>
      cases h
      exact .timedOut
  · intro h
    cases h <;> rfl

theorem failure?_eq_none_iff {outcome : StoreOutcome} :
    outcome.failure? = none ↔ outcome = success := by
  constructor
  · intro h
    cases outcome with
    | answered response =>
      obtain ⟨status⟩ := response
      cases status with
      | success => rfl
      | failure => simp [failure?] at h
    | failed cause => simp [failure?] at h
    | timedOut => simp [failure?] at h
  · rintro rfl
    rfl

end StoreOutcome

/-! ## Numbered entries -/

section Numbered

variable {α β : Type} {entries : List α} {report : α × Nat → Option β} {number : β → Nat}

/-- Reports that bear the numbers of their entries come in the order of the numbers. -/
theorem ascending_filterMap_zipIdx
    (h : ∀ entry reported, report entry = some reported → number reported = entry.2) :
    ((entries.zipIdx.filterMap report).map number).Pairwise (· < ·) := by
  have hsublist : ∀ pairs : List (α × Nat),
      ((pairs.filterMap report).map number).Sublist (pairs.map Prod.snd) := by
    intro pairs
    induction pairs with
    | nil => exact .slnil
    | cons entry rest ih =>
      cases hreport : report entry with
      | none =>
        rw [List.filterMap_cons_none hreport]
        exact ih.cons _
      | some reported =>
        rw [List.filterMap_cons_some hreport, List.map_cons, h entry reported hreport]
        exact ih.cons_cons _
  have hnumbers := hsublist entries.zipIdx
  rw [List.zipIdx_map_snd, ← List.range_eq_range'] at hnumbers
  exact List.pairwise_lt_range.sublist hnumbers

theorem mem_filterMap_zipIdx {reported : β} :
    reported ∈ entries.zipIdx.filterMap report ↔
      ∃ entry index, entries[index]? = some entry ∧ report (entry, index) = some reported := by
  rw [List.mem_filterMap]
  constructor
  · rintro ⟨⟨entry, index⟩, hmem, hreport⟩
    exact ⟨entry, index, List.mem_zipIdx_iff_getElem?.mp hmem, hreport⟩
  · rintro ⟨entry, index, hget, hreport⟩
    exact ⟨(entry, index), List.mem_zipIdx_iff_getElem?.mpr hget, hreport⟩

end Numbered

namespace Splitter

/-! ## Chunks of a stripe -/

variable {requests : List StoreChunkRequest} {outcomes : List StoreOutcome}

theorem ascending_chunkFailures :
    ((chunkFailures requests outcomes).map ChunkFailure.chunkIndex).Pairwise (· < ·) := by
  apply ascending_filterMap_zipIdx
  rintro ⟨⟨request, outcome⟩, index⟩ failure h
  obtain ⟨reason, -, rfl⟩ := Option.map_eq_some_iff.mp h
  rfl

/-- A chunk is reported exactly if its call failed, with its own digest and what its own call
    ended with. -/
theorem mem_chunkFailures {failure : ChunkFailure} :
    failure ∈ chunkFailures requests outcomes ↔
      ∃ request outcome, requests[failure.chunkIndex]? = some request ∧
        outcomes[failure.chunkIndex]? = some outcome ∧
        failure.chunkHash = request.chunkHash ∧ outcome.FailsWith failure.reason := by
  rw [chunkFailures, mem_filterMap_zipIdx]
  constructor
  · rintro ⟨⟨request, outcome⟩, index, hget, hreport⟩
    obtain ⟨reason, hreason, rfl⟩ := Option.map_eq_some_iff.mp hreport
    obtain ⟨hrequest, houtcome⟩ := List.getElem?_zip_eq_some.mp hget
    exact ⟨request, outcome, hrequest, houtcome, rfl,
      StoreOutcome.failure?_eq_some_iff.mp hreason⟩
  · rintro ⟨request, outcome, hrequest, houtcome, hhash, hfails⟩
    refine ⟨(request, outcome), failure.chunkIndex,
      List.getElem?_zip_eq_some.mpr ⟨hrequest, houtcome⟩, ?_⟩
    simp only [StoreOutcome.failure?_eq_some_iff.mpr hfails, Option.map_some, ← hhash]

/-- No chunk is reported exactly if all calls succeed. -/
theorem chunkFailures_eq_nil_iff (hlength : outcomes.length = requests.length) :
    chunkFailures requests outcomes = [] ↔ ∀ outcome ∈ outcomes, outcome = .success := by
  rw [List.eq_nil_iff_forall_not_mem]
  constructor
  · intro hnone outcome hmem
    obtain ⟨index, hindex, rfl⟩ := List.mem_iff_getElem.mp hmem
    rw [← StoreOutcome.failure?_eq_none_iff]
    cases hfailure : outcomes[index].failure? with
    | none => rfl
    | some reason =>
      have hrequest : requests[index]? = some requests[index] :=
        List.getElem?_eq_getElem (hlength ▸ hindex)
      exact absurd (mem_chunkFailures.mpr ⟨_, _, hrequest, List.getElem?_eq_getElem hindex, rfl,
        StoreOutcome.failure?_eq_some_iff.mp hfailure⟩)
        (hnone ⟨index, requests[index].chunkHash, reason⟩)
  · intro hall failure hmem
    obtain ⟨_, outcome, -, houtcome, -, hfails⟩ := mem_chunkFailures.mp hmem
    rw [hall outcome (List.mem_of_getElem? houtcome)] at hfails
    cases hfails

end Splitter

end ShardVault
