import ShardVault.Proofs.Code.Shard
import ShardVault.Proofs.Split.Stored
import Mathlib.Data.List.ProdSigma

/-!
Failing whole.  A split makes every call, whatever becomes of the others, and if any of them fails
it reports all that failed and makes neither document nor entry (`split_scripted`).  Chunk storage
is one that writes the calls down and ends each of them as a script tells.
-/

namespace ShardVault

/-! ## Scripted storage -/

/-- One call to store a chunk: the stripe and the shard that it is made for. -/
structure StoreCall where
  stripe : Nat
  shard : Nat
  request : StoreChunkRequest
deriving DecidableEq, Repr

/-- The calls with these requests for the stripe at a position. -/
def StoreCall.list (stripe : Nat) (requests : List StoreChunkRequest) : List StoreCall :=
  requests.zipIdx.map fun (request, shard) => ⟨stripe, shard, request⟩

theorem StoreCall.length_list (stripe : Nat) (requests : List StoreChunkRequest) :
    (StoreCall.list stripe requests).length = requests.length := by
  rw [StoreCall.list, List.length_map, List.length_zipIdx]

/-- Chunk storage that keeps a log of the calls, each of which ends as the script has it. -/
def ChunkClient.scripted (script : Nat → Nat → StoreOutcome) : ChunkClient (List StoreCall) where
  store storage stripe requests :=
    let calls := StoreCall.list stripe requests
    (calls.map fun call => script call.stripe call.shard,
      { storage with chunks := storage.chunks ++ calls })
  fetch _ _ requests := (List.range requests.length).map fun number => (number, none)
  length_store storage stripe requests := by
    rw [List.length_map, StoreCall.length_list]
  fetch_perm storage stripe requests := by
    simp [Function.comp_def]

namespace Splitter

/-! ## What is reported -/

/-- The chunks listed for a stripe are those whose calls failed, in order, each with its own digest
    and its own reason. -/
structure ReportsStripe (scheme : Scheme) (stripe : Bytes) (script : Nat → StoreOutcome)
    (chunks : List ChunkFailure) : Prop where
  ascending : (chunks.map ChunkFailure.chunkIndex).Pairwise (· < ·)
  mem_iff : ∀ failure, failure ∈ chunks ↔ ∃ shard ∈ scheme.encode stripe,
    failure.chunkIndex = shard.index ∧ failure.chunkHash = (Digest.of shard.data).hex ∧
      (script shard.index).FailsWith failure.reason

/-- The stripes listed are those with calls that failed, in order, each with its own digest and
    its own chunks. -/
structure ReportsSplit (scheme : Scheme) (stripes : List Bytes)
    (script : Nat → Nat → StoreOutcome) (failures : List StripeFailure) : Prop where
  ascending : (failures.map StripeFailure.stripeIndex).Pairwise (· < ·)
  mem_indexes_iff : ∀ index, index ∈ failures.map StripeFailure.stripeIndex ↔
    index < stripes.length ∧ ∃ shard < scheme.n, script index shard ≠ .success
  stripe : ∀ failure ∈ failures, ∃ stripe, stripes[failure.stripeIndex]? = some stripe ∧
    failure.stripeHash = (Digest.of stripe).hex ∧
      ReportsStripe scheme stripe (script failure.stripeIndex) failure.chunks

/-- The chunks of a stripe that are not stored under a script. -/
def unstored (splitter : Splitter) (stripe : Bytes) (script : Nat → StoreOutcome) :
    List ChunkFailure :=
  chunkFailures (splitter.requests stripe) ((List.range splitter.scheme.n).map script)

/-- The failure of an entry of the numbered stripes, if it has one. -/
def failureOf? (splitter : Splitter) (script : Nat → Nat → StoreOutcome) (entry : Bytes × Nat) :
    Option StripeFailure :=
  match splitter.unstored entry.1 (script entry.2) with
  | [] => none
  | failures => some ⟨entry.2, (Digest.of entry.1).hex, failures⟩

variable (splitter : Splitter) (script : Nat → Nat → StoreOutcome)

theorem length_requests (stripe : Bytes) :
    (splitter.requests stripe).length = splitter.scheme.n := by
  rw [requests, List.length_map, Scheme.length_encode]

theorem reportsStripe_unstored (stripe : Bytes) (script : Nat → StoreOutcome) :
    ReportsStripe splitter.scheme stripe script (splitter.unstored stripe script) where
  ascending := ascending_chunkFailures
  mem_iff failure := by
    rw [unstored, mem_chunkFailures]
    constructor
    · rintro ⟨request, outcome, hrequest, houtcome, hhash, hfails⟩
      rw [requests, List.getElem?_map] at hrequest
      obtain ⟨shard, hshard, rfl⟩ := Option.map_eq_some_iff.mp hrequest
      have hindex := splitter.scheme.index_of_getElem?_encode stripe hshard
      rw [List.getElem?_map] at houtcome
      obtain ⟨number, hnumber, rfl⟩ := Option.map_eq_some_iff.mp houtcome
      obtain ⟨_, hown⟩ := List.getElem?_eq_some_iff.mp hnumber
      rw [List.getElem_range] at hown
      refine ⟨shard, List.mem_of_getElem? hshard, hindex.symm, hhash, ?_⟩
      rwa [hindex, hown]
    · rintro ⟨shard, hshard, hindex, hhash, hfails⟩
      have hget := (splitter.scheme.mem_encode stripe).mp hshard
      have hlt : shard.index < splitter.scheme.n := by
        rw [← splitter.scheme.length_encode stripe]
        exact (List.getElem?_eq_some_iff.mp hget).1
      refine ⟨.ofShard shard, script shard.index, ?_, ?_, hhash, hfails⟩
      · rw [hindex, requests, List.getElem?_map, hget, Option.map_some]
      · rw [hindex, List.getElem?_map, List.getElem?_range hlt, Option.map_some]

/-- Nothing of a stripe is left unstored exactly if all its calls succeed. -/
theorem unstored_eq_nil_iff (stripe : Bytes) (script : Nat → StoreOutcome) :
    splitter.unstored stripe script = [] ↔
      ∀ shard < splitter.scheme.n, script shard = .success := by
  rw [unstored, chunkFailures_eq_nil_iff (by simp [length_requests])]
  simp

variable {splitter script}

theorem failureOf?_eq_some_iff {entry : Bytes × Nat} {failure : StripeFailure} :
    splitter.failureOf? script entry = some failure ↔
      splitter.unstored entry.1 (script entry.2) ≠ [] ∧
        failure = ⟨entry.2, (Digest.of entry.1).hex,
          splitter.unstored entry.1 (script entry.2)⟩ := by
  rw [failureOf?]
  cases splitter.unstored entry.1 (script entry.2) with
  | nil => simp
  | cons first rest => simp [eq_comm]

variable (splitter script)

theorem reportsSplit_filterMap (stripes : List Bytes) :
    ReportsSplit splitter.scheme stripes script
      (stripes.zipIdx.filterMap (splitter.failureOf? script)) where
  ascending := by
    apply ascending_filterMap_zipIdx
    intro entry failure h
    rw [(failureOf?_eq_some_iff.mp h).2]
  mem_indexes_iff index := by
    have hfails (stripe : Bytes) : splitter.unstored stripe (script index) ≠ [] ↔
        ∃ shard < splitter.scheme.n, script index shard ≠ .success := by
      rw [ne_eq, unstored_eq_nil_iff]
      push Not
      rfl
    rw [List.mem_map]
    constructor
    · rintro ⟨failure, hmem, rfl⟩
      obtain ⟨stripe, own, hget, hfailure⟩ := mem_filterMap_zipIdx.mp hmem
      obtain ⟨hne, rfl⟩ := failureOf?_eq_some_iff.mp hfailure
      exact ⟨(List.getElem?_eq_some_iff.mp hget).1, (hfails stripe).mp hne⟩
    · rintro ⟨hlt, hexists⟩
      refine ⟨_, mem_filterMap_zipIdx.mpr ⟨stripes[index], index,
        List.getElem?_eq_getElem hlt, failureOf?_eq_some_iff.mpr ⟨?_, rfl⟩⟩, rfl⟩
      exact (hfails stripes[index]).mpr hexists
  stripe failure hmem := by
    obtain ⟨stripe, own, hget, hfailure⟩ := mem_filterMap_zipIdx.mp hmem
    obtain ⟨-, rfl⟩ := failureOf?_eq_some_iff.mp hfailure
    exact ⟨stripe, hget, rfl, splitter.reportsStripe_unstored stripe _⟩

/-! ## The run -/

/-- The calls for stripes with their positions, stripe after stripe. -/
def calls (splitter : Splitter) (entries : List (Bytes × Nat)) : List StoreCall :=
  entries.flatMap fun (stripe, index) => StoreCall.list index (splitter.requests stripe)

theorem map_list_requests (index : Nat) (stripe : Bytes) :
    (StoreCall.list index (splitter.requests stripe)).map
        (fun call => (call.stripe, call.shard)) =
      (List.range splitter.scheme.n).map (index, ·) := by
  have hnumbers : (splitter.requests stripe).zipIdx.map Prod.snd =
      List.range splitter.scheme.n := by
    rw [List.zipIdx_map_snd, length_requests, List.range_eq_range']
  rw [StoreCall.list, List.map_map, ← hnumbers, List.map_map]
  rfl

/-- There is one call for each stripe and shard. -/
theorem map_calls (stripes : List Bytes) :
    (splitter.calls stripes.zipIdx).map (fun call => (call.stripe, call.shard)) =
      List.range stripes.length ×ˢ List.range splitter.scheme.n := by
  have hnumbers : List.range stripes.length = stripes.zipIdx.map Prod.snd := by
    rw [List.zipIdx_map_snd, List.range_eq_range']
  rw [calls, List.map_flatMap, hnumbers]
  simp only [map_list_requests, SProd.sprod, List.product, List.flatMap_map]

/-- Every call asks to store its own shard under the shard's digest. -/
theorem exists_shard_of_mem_calls {stripes : List Bytes} {call : StoreCall}
    (h : call ∈ splitter.calls stripes.zipIdx) :
    ∃ stripe shard, stripes[call.stripe]? = some stripe ∧
      (splitter.scheme.encode stripe)[call.shard]? = some shard ∧
      call.request = ⟨shard.data, (Digest.of shard.data).hex⟩ := by
  obtain ⟨⟨stripe, index⟩, hentry, hcall⟩ := List.mem_flatMap.mp h
  obtain ⟨⟨request, number⟩, hrequest, rfl⟩ := List.mem_map.mp hcall
  have hget := List.mem_zipIdx_iff_getElem?.mp hrequest
  rw [requests, List.getElem?_map] at hget
  obtain ⟨shard, hshard, heq⟩ := Option.map_eq_some_iff.mp hget
  exact ⟨stripe, shard, List.mem_zipIdx_iff_getElem?.mp hentry, hshard, heq.symm⟩

/-- One stripe under a script: its calls are made, and it fails if one of them does. -/
theorem storeStripe_scripted (storage : Storage (List StoreCall)) (index : Nat) (stripe : Bytes) :
    splitter.storeStripe (.scripted script) storage index stripe =
      ((match splitter.failureOf? script (stripe, index) with
        | none => .ok (recordOf stripe (splitter.requests stripe))
        | some failure => .error failure),
        { storage with
          chunks := storage.chunks ++ StoreCall.list index (splitter.requests stripe) }) := by
  have houtcomes : (StoreCall.list index (splitter.requests stripe)).map
      (fun call => script call.stripe call.shard) =
        (List.range splitter.scheme.n).map (script index) := by
    have hpairs := congrArg (List.map fun pair => script pair.1 pair.2)
      (splitter.map_list_requests index stripe)
    rwa [List.map_map, List.map_map] at hpairs
  simp only [storeStripe_eq, ChunkClient.scripted, houtcomes, failureOf?, unstored]
  cases chunkFailures (splitter.requests stripe) ((List.range splitter.scheme.n).map (script index))
    <;> rfl

/-- All stripes under a script: every call is made, and the failures are those of the entries. -/
theorem storeStripes_scripted (stripes : List Bytes) (storage : Storage (List StoreCall))
    (index : Nat) :
    (splitter.storeStripes (.scripted script) storage index stripes).2 =
        { storage with chunks := storage.chunks ++ splitter.calls (stripes.zipIdx index) } ∧
      failuresOf (splitter.storeStripes (.scripted script) storage index stripes).1 =
        (stripes.zipIdx index).filterMap (splitter.failureOf? script) := by
  induction stripes generalizing storage index with
  | nil => simp [storeStripes, calls, failuresOf]
  | cons stripe rest ih =>
    simp only [storeStripes, storeStripe_scripted, List.zipIdx_cons]
    obtain ⟨hstorage, hfailures⟩ := ih
      { storage with chunks := storage.chunks ++ StoreCall.list index (splitter.requests stripe) }
      (index + 1)
    constructor
    · rw [hstorage]
      simp only [calls, List.flatMap_cons, List.append_assoc]
    · rw [List.filterMap_cons, ← hfailures]
      cases splitter.failureOf? script (stripe, index) <;> rfl

/-- What goes wrong in publishing a file is an operation on files. -/
theorem publish_ne_splitFailed {κ : Type} (now : Instant) (storage : Storage κ)
    (registry : Registry) (record : FileRecord) (size : Nat) (reported : List StripeFailure) :
    (splitter.publish now storage registry record size).1 ≠ .error (.splitFailed reported) := by
  simp only [publish]
  cases hpersist : splitter.documents.persist storage.files record with
  | mk result files =>
    cases result with
    | ok done => simp
    | error e =>
      simp only [Documents.persist] at hpersist
      intro hfailed
      obtain rfl := Except.error.inj hfailed
      split at hpersist
      · cases hpersist
      · cases hpersist
      · split at hpersist <;> cases hpersist

private theorem eq_error_of_mapError_refused {ε α : Type} {result : Except ε α} {cause : ε}
    (h : result.mapError Stop.refused = .error (.refused cause)) : result = .error cause := by
  cases result with
  | error own =>
    cases h
    rfl
  | ok value => cases h

variable {content : Bytes}

/-- A split that some call fails makes every call all the same, and reports the failures. -/
theorem split_scripted_of_failure (now : Instant) (files : FileTree) (registry : Registry)
    (hfits : splitter.Fits content)
    (h : (Stripe.segment splitter.stripeSize content).zipIdx.filterMap
      (splitter.failureOf? script) ≠ []) :
    let stripes := (Stripe.segment splitter.stripeSize content).zipIdx
    splitter.split (.scripted script) now ⟨[], files⟩ registry content =
      (.error (.refused (.splitFailed (stripes.filterMap (splitter.failureOf? script)))),
        ⟨splitter.calls stripes, files⟩, registry) := by
  obtain ⟨hstorage, hfailures⟩ := splitter.storeStripes_scripted script
    (Stripe.segment splitter.stripeSize content) ⟨[], files⟩ 0
  rw [List.nil_append] at hstorage
  simp only [splitter.split_of_fits _ now _ registry hfits, storeContent, conclude, hstorage,
    hfailures]
  rfl

/-- A split that no call fails makes every call, and reports no failures. -/
theorem split_scripted_of_success (now : Instant) (files : FileTree) (registry : Registry)
    (hfits : splitter.Fits content)
    (h : (Stripe.segment splitter.stripeSize content).zipIdx.filterMap
      (splitter.failureOf? script) = []) :
    let run := splitter.split (.scripted script) now ⟨[], files⟩ registry content
    run.2.1.chunks = splitter.calls (Stripe.segment splitter.stripeSize content).zipIdx ∧
      ∀ reported, run.1 ≠ .error (.refused (.splitFailed reported)) := by
  obtain ⟨hstorage, hfailures⟩ := splitter.storeStripes_scripted script
    (Stripe.segment splitter.stripeSize content) ⟨[], files⟩ 0
  rw [List.nil_append] at hstorage
  simp only [splitter.split_of_fits _ now _ registry hfits, storeContent, conclude, hstorage,
    hfailures, h]
  constructor
  · rw [storage_publish]
  · intro reported hreported
    apply splitter.publish_ne_splitFailed now _ registry _ _ reported
    exact eq_error_of_mapError_refused hreported

/-- Whatever becomes of each call, a split makes one for every shard of every stripe.  If any of
    them fails, what failed is reported, all of it and nothing else, and documents and registry
    stay as they were; if none fails, nothing is reported.  The stripes of a content with a byte
    cannot be made and padded above the largest size, and then the split breaks off before the
    first call. -/
theorem split_scripted (splitter : Splitter) (script : Nat → Nat → StoreOutcome) (now : Instant)
    (files : FileTree) (registry : Registry) (content : Bytes) :
    let stripes := Stripe.segment splitter.stripeSize content
    let run := splitter.split (.scripted script) now ⟨[], files⟩ registry content
    let calls := run.2.1.chunks
    let allSucceed := ∀ stripe < stripes.length, ∀ shard < splitter.scheme.n,
      script stripe shard = .success
    if Bytes.maxSize < (splitter.stripeSize / splitter.scheme.k + 1) * splitter.scheme.k ∧
        content ≠ [] then
      run = (.error .crash, ⟨[], files⟩, registry)
    else
      calls.map (fun call => (call.stripe, call.shard)) =
          List.range stripes.length ×ˢ List.range splitter.scheme.n ∧
        calls.length = splitter.scheme.n *
          ((content.length + splitter.stripeSize - 1) / splitter.stripeSize) ∧
        (∀ call ∈ calls, ∃ stripe shard, stripes[call.stripe]? = some stripe ∧
          (splitter.scheme.encode stripe)[call.shard]? = some shard ∧
          call.request = ⟨shard.data, (Digest.of shard.data).hex⟩) ∧
        (¬ allSucceed → ∃ failures, run.1 = .error (.refused (.splitFailed failures)) ∧
          ReportsSplit splitter.scheme stripes script failures ∧
          run.2.1.files = files ∧ run.2.2 = registry) ∧
        (allSucceed → ∀ failures, run.1 ≠ .error (.refused (.splitFailed failures))) := by
  intro stripes run calls allSucceed
  split
  · rename_i hlarge
    exact splitter.split_of_not_fits _ now _ registry (not_not.mpr hlarge)
  · rename_i hfits
    have hreports := splitter.reportsSplit_filterMap script stripes
    have hfailed : stripes.zipIdx.filterMap (splitter.failureOf? script) = [] ↔ allSucceed := by
      rw [← List.map_eq_nil_iff (f := StripeFailure.stripeIndex), List.eq_nil_iff_forall_not_mem]
      simp only [hreports.mem_indexes_iff, allSucceed]
      push Not
      rfl
    have hfailure := splitter.split_scripted_of_failure script now files registry hfits
    have hsuccess := splitter.split_scripted_of_success script now files registry hfits
    have hcalls : calls = splitter.calls stripes.zipIdx := by
      by_cases hnil : stripes.zipIdx.filterMap (splitter.failureOf? script) = []
      · exact (hsuccess hnil).1
      · simp only [calls, run, hfailure hnil]
        rfl
    have hpairs := splitter.map_calls stripes
    rw [← hcalls] at hpairs
    refine ⟨hpairs, ?_, ?_, ?_, ?_⟩
    · rw [← Stripe.length_segment splitter.stripeSize_pos, Nat.mul_comm]
      have hlength := congrArg List.length hpairs
      rwa [List.length_map, List.length_product, List.length_range, List.length_range] at hlength
    · intro call hcall
      rw [hcalls] at hcall
      exact splitter.exists_shard_of_mem_calls hcall
    · intro hnot
      rw [← hfailed] at hnot
      have hrun : run = _ := hfailure hnot
      rw [hrun]
      exact ⟨_, rfl, hreports, rfl, rfl⟩
    · intro hall
      exact (hsuccess (hfailed.mpr hall)).2

/-- Above the largest stripe size not even the one call for a byte is made, so its refusal is not
    reported either. -/
theorem split_breaks_off :
    let splitter : Splitter :=
      ⟨2 ^ 63, ⟨1, 1, by decide, by decide, by decide⟩, ⟨⟨["metadata"]⟩⟩, by decide⟩
    let refused : StoreOutcome := .answered ⟨.failure⟩
    let run := splitter.split (.scripted fun _ _ => refused) Instant.epoch ⟨[], .empty⟩ .empty [0]
    splitter.scheme.n *
        ((([0] : Bytes).length + splitter.stripeSize - 1) / splitter.stripeSize) = 1 ∧
      run.2.1.chunks.length = 0 ∧ refused ≠ .success ∧
      ∀ failures, run.1 ≠ .error (.refused (.splitFailed failures)) := by
  refine ⟨by decide, rfl, by decide, ?_⟩
  intro failures h
  cases h

end Splitter

end ShardVault
