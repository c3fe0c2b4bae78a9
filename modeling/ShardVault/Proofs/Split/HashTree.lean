import ShardVault.Proofs.Split.Entries
import ShardVault.Proofs.Split.Retry

/-!
What a split makes.  If all calls are acknowledged the record is the hash tree of the content: its
digest, under it those of its windows, each filled up with zeros, and under each window those of
its shards.  The calls ask to store just these shards, and the document tells of just this tree
(`split_acknowledged`).
-/

namespace ShardVault

/-! ## A log of the calls -/

/-- Storage with a log beside the chunks. -/
def Storage.withLog {κ : Type} (storage : Storage κ) (log : List StoreCall) :
    Storage (κ × List StoreCall) :=
  ⟨(storage.chunks, log), storage.files⟩

/-- A client that writes down the calls to store chunks that are made through it. -/
def ChunkClient.logged {κ : Type} (client : ChunkClient κ) : ChunkClient (κ × List StoreCall) where
  store storage stripe requests :=
    let (outcomes, after) := client.store ⟨storage.chunks.1, storage.files⟩ stripe requests
    (outcomes, after.withLog (storage.chunks.2 ++ StoreCall.list stripe requests))
  fetch storage := client.fetch ⟨storage.chunks.1, storage.files⟩
  length_store storage := client.length_store ⟨storage.chunks.1, storage.files⟩
  fetch_perm storage := client.fetch_perm ⟨storage.chunks.1, storage.files⟩

namespace Splitter

variable (splitter : Splitter) {κ : Type} (client : ChunkClient κ) (storage : Storage κ)
  (log : List StoreCall)

theorem storeStripe_logged (index : Nat) (stripe : Bytes) :
    splitter.storeStripe client.logged (storage.withLog log) index stripe =
      let (result, after) := splitter.storeStripe client storage index stripe
      (result, after.withLog (log ++ StoreCall.list index (splitter.requests stripe))) := by
  simp only [storeStripe_eq, ChunkClient.logged, Storage.withLog]
  cases chunkFailures (splitter.requests stripe)
    (client.store storage index (splitter.requests stripe)).1 <;> rfl

theorem storeStripes_logged (index : Nat) (stripes : List Bytes) :
    splitter.storeStripes client.logged (storage.withLog log) index stripes =
      let (results, after) := splitter.storeStripes client storage index stripes
      (results, after.withLog (log ++ splitter.calls (stripes.zipIdx index))) := by
  induction stripes generalizing storage log index with
  | nil => simp [storeStripes, calls]
  | cons stripe rest ih =>
    simp only [storeStripes, storeStripe_logged, ih, calls, List.zipIdx_cons, List.flatMap_cons,
      List.append_assoc]

theorem publish_logged (now : Instant) (registry : Registry) (record : FileRecord) (size : Nat) :
    splitter.publish now (storage.withLog log) registry record size =
      let (result, after, entries) := splitter.publish now storage registry record size
      (result, after.withLog log, entries) := by
  simp only [publish, Storage.withLog]
  cases (splitter.documents.persist storage.files record).1 <;> rfl

/-- The log tells of one call for every shard of every stripe, in order, and writing it changes
    nothing else. -/
theorem split_logged (now : Instant) (registry : Registry) (content : Bytes) :
    splitter.split client.logged now (storage.withLog log) registry content =
      let (result, after, entries) := splitter.split client now storage registry content
      (result, after.withLog (log ++ if splitter.Fits content then
        splitter.calls (Stripe.segment splitter.stripeSize content).zipIdx else []), entries) := by
  by_cases hfits : splitter.Fits content
  · simp only [splitter.split_of_fits _ now _ registry hfits, storeContent, conclude,
      storeStripes_logged, if_pos hfits]
    cases failuresOf (splitter.storeStripes client storage 0
      (Stripe.segment splitter.stripeSize content)).1 with
    | cons failure failures => rfl
    | nil => simp only [publish_logged]
  · simp only [splitter.split_of_not_fits _ now _ registry hfits, if_neg hfits, List.append_nil]

/-! ## The tree -/

/-- The windows of a content, filled up with zeros. -/
def windows (content : Bytes) : List Bytes :=
  (List.range ((content.length + splitter.stripeSize - 1) / splitter.stripeSize)).map
    (Stripe.window splitter.stripeSize content)

/-- The hash tree of a content. -/
def hashTree (content : Bytes) : FileRecord where
  fileHash := (Digest.of content).hex
  stripes := (splitter.windows content).map fun window =>
    { stripeHash := (Digest.of window).hex
      chunks := (splitter.scheme.encode window).map fun shard => ⟨(Digest.of shard.data).hex⟩ }

/-- The calls to store the shards of a content, each with the shard's digest. -/
def treeCalls (content : Bytes) : List StoreCall :=
  (splitter.windows content).zipIdx.flatMap fun (window, stripe) =>
    (splitter.scheme.encode window).zipIdx.map fun (shard, number) =>
      { stripe, shard := number, request := ⟨shard.data, (Digest.of shard.data).hex⟩ }

variable {splitter}

theorem segment_eq_windows (content : Bytes) :
    Stripe.segment splitter.stripeSize content = splitter.windows content :=
  Stripe.segment_eq_map_window splitter.stripeSize_pos content

theorem record_eq_hashTree (content : Bytes) :
    splitter.record content = splitter.hashTree content := by
  simp only [record, segment_eq_windows, recordOf, requests, List.map_map]
  rfl

theorem calls_eq_treeCalls (content : Bytes) :
    splitter.calls (Stripe.segment splitter.stripeSize content).zipIdx =
      splitter.treeCalls content := by
  simp only [calls, segment_eq_windows, StoreCall.list, requests, List.zipIdx_map, List.map_map]
  rfl

/-! ## Calls that are acknowledged -/

/-- All calls that storing stripes makes are acknowledged, the first stripe being at a position. -/
def AllAnswered (splitter : Splitter) (client : ChunkClient κ) :
    Storage κ → Nat → List Bytes → Prop
  | _, _, [] => True
  | storage, index, stripe :: rest =>
    (∀ outcome ∈ (client.store storage index (splitter.requests stripe)).1, outcome = .success) ∧
      AllAnswered splitter client (splitter.storeStripe client storage index stripe).2 (index + 1)
        rest

variable {client storage} {content : Bytes}

/-- A client that acknowledges every call acknowledges those for any stripes. -/
theorem allAnswered_of_forall
    (h : ∀ storage index stripe,
      ∀ outcome ∈ (client.store storage index (splitter.requests stripe)).1, outcome = .success)
    (storage : Storage κ) (index : Nat) (stripes : List Bytes) :
    splitter.AllAnswered client storage index stripes := by
  induction stripes generalizing storage index with
  | nil => trivial
  | cons stripe rest ih => exact ⟨h storage index stripe, ih _ _⟩

theorem AllAnswered.no_failure {index : Nat} {stripes : List Bytes}
    (h : splitter.AllAnswered client storage index stripes) :
    failuresOf (splitter.storeStripes client storage index stripes).1 = [] := by
  induction stripes generalizing storage index with
  | nil => rfl
  | cons stripe rest ih =>
    have hnone := (chunkFailures_eq_nil_iff (client.length_store storage index _)).mpr h.1
    have hstripe : (splitter.storeStripe client storage index stripe).1 =
        .ok (recordOf stripe (splitter.requests stripe)) := by
      simp only [storeStripe_eq, hnone]
    simp only [storeStripes, hstripe]
    exact ih h.2

/-- A content whose chunks are all stored, and that has no document then, gets its document. -/
theorem AllAnswered.split
    (h : splitter.AllAnswered client storage 0 (Stripe.segment splitter.stripeSize content))
    (hfits : splitter.Fits content)
    (hvacant : splitter.documents.Vacant (splitter.storeStripes client storage 0
      (Stripe.segment splitter.stripeSize content)).2.files (Digest.of content).hex)
    (now : Instant) (registry : Registry) :
    let run := splitter.split client now storage registry content
    run.1 = .ok (splitter.report content false) ∧
      run.2.1.files.read (splitter.documents.path (Digest.of content).hex) =
        .ok (Bytes.ofText (splitter.record content).document) := by
  intro run
  obtain ⟨written, hpersist, hread⟩ := hvacant.persist_read (splitter.record content) rfl
  rcases splitter.split_cases client now storage registry hfits with ⟨hfailed, -⟩ | ⟨-, hrun⟩
  · exact absurd h.no_failure hfailed
  · have hrun : run = _ := hrun
    rw [hrun, splitter.publish_of_persisted now registry hpersist]
    exact ⟨rfl, hread⟩

/-- If all calls are acknowledged, and the content has no document when its chunks are stored, the
    record that is reported is the hash tree of the content, with its counts.  The calls are those
    for the shards of the tree, each under the shard's digest, and the document is loaded as the
    tree.  A content that does not fit breaks the split off before the first call. -/
theorem split_acknowledged (splitter : Splitter) (client : ChunkClient κ) (now : Instant)
    (storage : Storage κ) (registry : Registry) (content : Bytes)
    (hanswered : splitter.AllAnswered client storage 0
      (Stripe.segment splitter.stripeSize content))
    (hvacant : splitter.documents.Vacant (splitter.storeStripes client storage 0
      (Stripe.segment splitter.stripeSize content)).2.files (Digest.of content).hex) :
    let fileHash := (Digest.of content).hex
    let stripeCount := (content.length + splitter.stripeSize - 1) / splitter.stripeSize
    let tree := splitter.hashTree content
    let run := splitter.split client now storage registry content
    let logged := splitter.split client.logged now (storage.withLog []) registry content
    ∃ log, logged = (run.1, run.2.1.withLog log, run.2.2) ∧
      if splitter.Fits content then
        run.1 = .ok
          { fileHash, size := content.length, stripeCount
            chunkCount := splitter.scheme.n * stripeCount
            documentPath := splitter.documents.path fileHash
            alreadyStored := false, record := tree } ∧
          tree.stripes.length = stripeCount ∧
          tree.chunkCount = splitter.scheme.n * stripeCount ∧
          log = splitter.treeCalls content ∧
          splitter.documents.load run.2.1.files fileHash = .ok tree
      else run = (.error .crash, storage, registry) ∧ log = [] := by
  intro fileHash stripeCount tree run logged
  refine ⟨_, splitter.split_logged client storage [] now registry content, ?_⟩
  rw [List.nil_append]
  by_cases hfits : splitter.Fits content
  · simp only [if_pos hfits]
    obtain ⟨hreport, hread⟩ := hanswered.split hfits hvacant now registry
    have hrecord : splitter.record content = tree := record_eq_hashTree content
    have hstripes : tree.stripes.length = stripeCount := by
      rw [← hrecord, length_stripes_record]
    have hchunks : tree.chunkCount = splitter.scheme.n * stripeCount := by
      rw [← hrecord, chunkCount_record, length_stripes_record]
    refine ⟨?_, hstripes, hchunks, calls_eq_treeCalls content, ?_⟩
    · rw [show run.1 = _ from hreport, report, hrecord, hstripes, hchunks]
      rfl
    · rw [← hrecord]
      exact Documents.load_of_read rfl hread
  · simp only [if_neg hfits]
    exact ⟨splitter.split_of_not_fits client now storage registry hfits, trivial⟩

/-! ## Chunks in memory -/

/-- A client of a service that keeps its chunks in memory, and no chunks to begin with. -/
def sampleClient : ChunkClient MemoryChunks :=
  ChunkService.client ⟨16, ChunkService.standardTimeout⟩ .none

def sampleStart : Storage MemoryChunks :=
  ⟨.empty, .empty⟩

theorem allAnswered_sample (splitter : Splitter) (stripes : List Bytes) :
    splitter.AllAnswered sampleClient sampleStart 0 stripes := by
  apply allAnswered_of_forall
  intro storage index stripe outcome houtcome
  have hstore := ChunkService.store_none ⟨16, ChunkService.standardTimeout⟩ storage index
    fun request hrequest => splitter.chunkHash_of_mem_requests stripe hrequest
  simp only [sampleClient, ChunkService.client, hstore] at houtcome
  obtain ⟨_, -, rfl⟩ := List.mem_map.mp houtcome
  rfl

/-- Chunks in memory leave no document. -/
theorem vacant_storeStripes_sample {stripeSize : Nat} (h : 0 < stripeSize) (content : Bytes)
    (stripes : List Bytes) :
    (sample stripeSize h).documents.Vacant
      ((sample stripeSize h).storeStripes sampleClient sampleStart 0 stripes).2.files
      (Digest.of content).hex := by
  rw [sampleClient, storeStripes_memory]
  exact Documents.vacant_of_fresh Documents.fresh_sample _

theorem split_acknowledged_sample :
    let splitter := sample 1 Nat.one_pos
    splitter.AllAnswered sampleClient sampleStart 0
        (Stripe.segment splitter.stripeSize [7]) ∧
      splitter.documents.Vacant (splitter.storeStripes sampleClient sampleStart 0
        (Stripe.segment splitter.stripeSize [7])).2.files (Digest.of [7]).hex ∧
      ∃ report, (splitter.split sampleClient .epoch sampleStart .empty [7]).1 = .ok report ∧
        report.chunkCount = 1 ∧ report.record = splitter.hashTree [7] := by
  have hanswered := (sample 1 Nat.one_pos).allAnswered_sample
    (Stripe.segment (sample 1 Nat.one_pos).stripeSize [7])
  have hvacant := vacant_storeStripes_sample Nat.one_pos [7]
    (Stripe.segment (sample 1 Nat.one_pos).stripeSize [7])
  have hfits : (sample 1 Nat.one_pos).Fits [7] := fun h => absurd h.1 (by decide)
  obtain ⟨log, -, hresult⟩ := split_acknowledged (sample 1 Nat.one_pos)
    sampleClient .epoch sampleStart .empty [7] hanswered hvacant
  rw [if_pos hfits] at hresult
  exact ⟨hanswered, hvacant, _, hresult.1, rfl, rfl⟩

/-- Above the largest stripe size there is no report, though all calls would be acknowledged. -/
theorem split_acknowledged_breaks_off :
    let splitter := sample (2 ^ 63) (by decide)
    splitter.AllAnswered sampleClient sampleStart 0
        (Stripe.segment splitter.stripeSize [0]) ∧
      splitter.documents.Vacant (splitter.storeStripes sampleClient sampleStart 0
        (Stripe.segment splitter.stripeSize [0])).2.files (Digest.of [0]).hex ∧
      ∀ report, (splitter.split sampleClient .epoch sampleStart .empty [0]).1 ≠ .ok report := by
  intro splitter
  refine ⟨splitter.allAnswered_sample _, vacant_storeStripes_sample _ _ _, fun report h => ?_⟩
  have hfits : ¬ splitter.Fits [0] := not_not.mpr ⟨by decide, by decide⟩
  rw [splitter.split_of_not_fits _ _ _ _ hfits] at h
  cases h

end Splitter

end ShardVault
