import ShardVault.Proofs.Chunk.Service
import ShardVault.Proofs.Split.Failures
import ShardVault.Proofs.Split.Stripes

/-!
Splitting over chunks in memory, without interference.  Every chunk is kept, so a split comes down
to keeping the chunks of its stripes and publishing the file's record (`split_memory`).
-/

namespace ShardVault

/-- The chunks of a stripe. -/
def Scheme.chunks (scheme : Scheme) (stripe : Bytes) : List Bytes :=
  (scheme.encode stripe).map Shard.data

namespace Splitter

variable (splitter : Splitter) (service : ChunkService)

/-- The record of a content: what its stripes are encoded into. -/
def record (content : Bytes) : FileRecord :=
  .new (Digest.of content) ((Stripe.segment splitter.stripeSize content).map fun stripe =>
    recordOf stripe (splitter.requests stripe))

/-- What is reported of a content that is stored. -/
def report (content : Bytes) (existed : Bool) : SplitReport :=
  let record := splitter.record content
  ⟨record.fileHash, content.length, record.stripes.length, record.chunkCount,
    splitter.documents.path record.fileHash, existed, record⟩

/-- The chunks of a content, stripe after stripe. -/
def chunks (content : Bytes) : List Bytes :=
  (Stripe.segment splitter.stripeSize content).flatMap splitter.scheme.chunks

/-- The chunks with those of stripes put in. -/
def keepStripes (chunks : MemoryChunks) (stripes : List Bytes) : MemoryChunks :=
  stripes.foldl (fun chunks stripe => ChunkService.keepAll chunks (splitter.requests stripe)) chunks

theorem chunkFailures_of_success (requests : List StoreChunkRequest) :
    chunkFailures requests (requests.map fun _ => .answered ⟨.success⟩) = [] := by
  rw [chunkFailures_eq_nil_iff (List.length_map _)]
  intro outcome houtcome
  obtain ⟨_, -, rfl⟩ := List.mem_map.mp houtcome
  rfl

/-- The calls for a stripe claim what is true. -/
theorem chunkHash_of_mem_requests (stripe : Bytes) {request : StoreChunkRequest}
    (h : request ∈ splitter.requests stripe) :
    request.chunkHash = (Digest.of request.chunkData).hex := by
  obtain ⟨shard, -, rfl⟩ := List.mem_map.mp h
  rfl

theorem map_chunkData_requests (stripe : Bytes) :
    (splitter.requests stripe).map StoreChunkRequest.chunkData = splitter.scheme.chunks stripe := by
  rw [requests, List.map_map]
  rfl

theorem storeStripe_memory (storage : Storage MemoryChunks) (index : Nat) (stripe : Bytes) :
    splitter.storeStripe (service.client .none) storage index stripe =
      (.ok (recordOf stripe (splitter.requests stripe)),
        { storage with
          chunks := ChunkService.keepAll storage.chunks (splitter.requests stripe) }) := by
  have hstore := service.store_none storage index fun request hrequest =>
    splitter.chunkHash_of_mem_requests stripe hrequest
  simp only [storeStripe_eq, ChunkService.client, hstore, chunkFailures_of_success]

theorem storeStripes_memory (storage : Storage MemoryChunks) (index : Nat)
    (stripes : List Bytes) :
    splitter.storeStripes (service.client .none) storage index stripes =
      (stripes.map fun stripe => .ok (recordOf stripe (splitter.requests stripe)),
        { storage with chunks := splitter.keepStripes storage.chunks stripes }) := by
  induction stripes generalizing storage index with
  | nil => rfl
  | cons stripe rest ih =>
    simp only [storeStripes, storeStripe_memory, ih]
    rfl

private theorem failuresOf_map_ok (records : List StripeRecord) :
    failuresOf (records.map .ok) = [] := by
  induction records with
  | nil => rfl
  | cons record rest ih => exact ih

private theorem recordsOf_map_ok (records : List StripeRecord) :
    recordsOf (records.map .ok) = records := by
  induction records with
  | nil => rfl
  | cons record rest ih => exact congrArg (record :: ·) ih

section Content

variable {κ : Type} {client : ChunkClient κ} {storage after : Storage κ} {content : Bytes}

/-- Once all stripes are stored the record is published. -/
theorem storeContent_of_stored (now : Instant) (registry : Registry)
    (h : splitter.storeStripes client storage 0 (Stripe.segment splitter.stripeSize content) =
      ((Stripe.segment splitter.stripeSize content).map fun stripe =>
        .ok (recordOf stripe (splitter.requests stripe)), after)) :
    splitter.storeContent client now storage registry content
        (Stripe.segment splitter.stripeSize content) =
      splitter.publish now after registry (splitter.record content) content.length := by
  have hresults : (Stripe.segment splitter.stripeSize content).map (fun stripe =>
      (.ok (recordOf stripe (splitter.requests stripe)) : Except StripeFailure StripeRecord)) =
        (splitter.record content).stripes.map .ok := by
    rw [record, FileRecord.new, List.map_map]
    rfl
  simp only [storeContent, conclude, h, hresults, failuresOf_map_ok, recordsOf_map_ok]
  rfl

/-- A stripe that does not fail has its record. -/
theorem storeStripe_eq_of_ok (index : Nat) {stripe : Bytes} {record : StripeRecord}
    (h : (splitter.storeStripe client storage index stripe).1 = .ok record) :
    record = recordOf stripe (splitter.requests stripe) := by
  simp only [storeStripe_eq] at h
  split at h
  · exact (Except.ok.inj h).symm
  · cases h

/-- Stripes none of which fails have their records. -/
theorem storeStripes_of_no_failure (client : ChunkClient κ) (storage : Storage κ) (index : Nat)
    (stripes : List Bytes)
    (h : failuresOf (splitter.storeStripes client storage index stripes).1 = []) :
    (splitter.storeStripes client storage index stripes).1 =
      stripes.map fun stripe => .ok (recordOf stripe (splitter.requests stripe)) := by
  induction stripes generalizing storage index with
  | nil => rfl
  | cons stripe rest ih =>
    simp only [storeStripes] at h ⊢
    cases hstripe : (splitter.storeStripe client storage index stripe).1 with
    | error failure =>
      rw [hstripe] at h
      cases h
    | ok record =>
      rw [hstripe] at h
      rw [ih _ _ h, splitter.storeStripe_eq_of_ok index hstripe, List.map_cons]

/-- Stripes that fail are reported, and nothing is published. -/
theorem storeContent_of_failed (now : Instant) (registry : Registry) {stripes : List Bytes}
    {results : List (Except StripeFailure StripeRecord)}
    (h : splitter.storeStripes client storage 0 stripes = (results, after))
    (hfailed : failuresOf results ≠ []) :
    splitter.storeContent client now storage registry content stripes =
      (.error (.splitFailed (failuresOf results)), after, registry) := by
  simp only [storeContent, conclude, h]

end Content

theorem storeContent_memory (now : Instant) (storage : Storage MemoryChunks)
    (registry : Registry) (content : Bytes) :
    splitter.storeContent (service.client .none) now storage registry content
        (Stripe.segment splitter.stripeSize content) =
      splitter.publish now
        { storage with
          chunks := splitter.keepStripes storage.chunks
            (Stripe.segment splitter.stripeSize content) }
        registry (splitter.record content) content.length :=
  splitter.storeContent_of_stored now registry (splitter.storeStripes_memory service storage 0 _)

/-- A content that fits either has stripes that fail, and then nothing is published, or none, and
    then its record is published. -/
theorem split_cases {κ : Type} (client : ChunkClient κ) (now : Instant) (storage : Storage κ)
    (registry : Registry) {content : Bytes} (h : splitter.Fits content) :
    let run := splitter.split client now storage registry content
    let (results, after) :=
      splitter.storeStripes client storage 0 (Stripe.segment splitter.stripeSize content)
    (failuresOf results ≠ [] ∧
        run = (.error (.refused (.splitFailed (failuresOf results))), after, registry)) ∨
      (failuresOf results = [] ∧
        run =
          let (result, storage, registry) :=
            splitter.publish now after registry (splitter.record content) content.length
          (result.mapError .refused, storage, registry)) := by
  intro run
  have hrun : run = _ := splitter.split_of_fits client now storage registry h
  rw [hrun]
  cases hstripes : splitter.storeStripes client storage 0
      (Stripe.segment splitter.stripeSize content) with
  | mk results after =>
    by_cases hfailed : failuresOf results = []
    · have hresults := splitter.storeStripes_of_no_failure client storage 0
        (Stripe.segment splitter.stripeSize content)
      rw [hstripes] at hresults
      obtain rfl := hresults hfailed
      exact .inr ⟨hfailed, by rw [splitter.storeContent_of_stored now registry hstripes]⟩
    · refine .inl ⟨hfailed, ?_⟩
      rw [splitter.storeContent_of_failed now registry hstripes hfailed]
      rfl

/-- A content that fits is stored and published. -/
theorem split_memory (now : Instant) (storage : Storage MemoryChunks) (registry : Registry)
    {content : Bytes} (h : splitter.Fits content) :
    splitter.split (service.client .none) now storage registry content =
      let (result, storage, registry) :=
        splitter.publish now
          { storage with
            chunks := splitter.keepStripes storage.chunks
              (Stripe.segment splitter.stripeSize content) }
          registry (splitter.record content) content.length
      (result.mapError .refused, storage, registry) := by
  simp only [split_of_fits _ _ _ _ _ h, storeContent_memory]

/-- What cannot be persisted is not published. -/
theorem publish_of_failed {κ : Type} (now : Instant) {storage : Storage κ} (registry : Registry)
    {record : FileRecord} (size : Nat) {cause : StorageError} {files : FileTree}
    (h : splitter.documents.persist storage.files record = (.error cause, files)) :
    splitter.publish now storage registry record size =
      (.error cause, { storage with files }, registry) := by
  simp only [publish, h]

/-- What is persisted is reported and gets its entry. -/
theorem publish_of_persisted {κ : Type} (now : Instant) {storage : Storage κ}
    (registry : Registry) {content : Bytes} {existed : Bool} {files : FileTree}
    (h : splitter.documents.persist storage.files (splitter.record content) =
      (.ok (splitter.documents.path (Digest.of content).hex, existed), files)) :
    splitter.publish now storage registry (splitter.record content) content.length =
      (.ok (splitter.report content existed), { storage with files },
        (registry.register (entry (splitter.record content) content.length now)).2) := by
  simp only [publish, h]
  rfl

/-- A content that fits, and whose record is persisted, is reported. -/
theorem split_memory_of_persisted (now : Instant) {storage : Storage MemoryChunks}
    (registry : Registry) {content : Bytes} (h : splitter.Fits content) {existed : Bool}
    {files : FileTree}
    (hpersist : splitter.documents.persist storage.files (splitter.record content) =
      (.ok (splitter.documents.path (Digest.of content).hex, existed), files)) :
    splitter.split (service.client .none) now storage registry content =
      (.ok (splitter.report content existed),
        ⟨splitter.keepStripes storage.chunks (Stripe.segment splitter.stripeSize content), files⟩,
        (registry.register (entry (splitter.record content) content.length now)).2) := by
  let stored : Storage MemoryChunks :=
    ⟨splitter.keepStripes storage.chunks (Stripe.segment splitter.stripeSize content),
      storage.files⟩
  have hpublish : splitter.publish now stored registry (splitter.record content) content.length =
      (.ok (splitter.report content existed), { stored with files },
        (registry.register (entry (splitter.record content) content.length now)).2) :=
    splitter.publish_of_persisted now registry hpersist
  rw [splitter.split_memory service now storage registry h, hpublish]
  rfl

/-- A content that fits, and whose record is not persisted, leaves its chunks. -/
theorem split_memory_of_refused (now : Instant) {storage : Storage MemoryChunks}
    (registry : Registry) {content : Bytes} (h : splitter.Fits content) {cause : StorageError}
    {files : FileTree}
    (hpersist : splitter.documents.persist storage.files (splitter.record content) =
      (.error cause, files)) :
    splitter.split (service.client .none) now storage registry content =
      (.error (.refused cause),
        ⟨splitter.keepStripes storage.chunks (Stripe.segment splitter.stripeSize content), files⟩,
        registry) := by
  let stored : Storage MemoryChunks :=
    ⟨splitter.keepStripes storage.chunks (Stripe.segment splitter.stripeSize content),
      storage.files⟩
  have hpublish : splitter.publish now stored registry (splitter.record content) content.length =
      (.error cause, { stored with files }, registry) :=
    splitter.publish_of_failed now registry content.length hpersist
  rw [splitter.split_memory service now storage registry h, hpublish]
  rfl

/-- What is published of a file are its document and its entry. -/
theorem storage_publish {κ : Type} (now : Instant) (storage : Storage κ) (registry : Registry)
    (record : FileRecord) (size : Nat) :
    (splitter.publish now storage registry record size).2.1 =
      { storage with files := (splitter.documents.persist storage.files record).2 } := by
  simp only [publish]
  cases (splitter.documents.persist storage.files record).1 <;> rfl

end Splitter

end ShardVault
