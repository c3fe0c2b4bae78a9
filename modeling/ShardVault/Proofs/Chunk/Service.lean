import ShardVault.Chunk.Directory
import ShardVault.Chunk.Memory
import ShardVault.Chunk.Service
import ShardVault.Proofs.Chunk.Store
import ShardVault.Proofs.Digest
import ShardVault.Proofs.Schedule

/-!
The chunk service without interference, over chunks that take no time.  Every call is done: those
that store one after the other (`store_none_eq_storeAll`), and those that fetch with what the
service answers (`answers_none`).  In memory, chunks with true claims are all kept (`store_none`),
and what is under a digest is given if it has the digest (`reply_hex`).
-/

namespace ShardVault

/-- The bytes under a digest, if they have it. -/
def MemoryChunks.genuine? (chunks : MemoryChunks) (digest : Digest) : Option Bytes :=
  (chunks.get? digest).filter fun data => decide (Digest.of data = digest)

theorem MemoryChunks.genuine?_eq_some_iff {chunks : MemoryChunks} {digest : Digest}
    {data : Bytes} :
    chunks.genuine? digest = some data ↔
      chunks.get? digest = some data ∧ Digest.of data = digest := by
  rw [genuine?, Option.filter_eq_some_iff, decide_eq_true_iff]

/-- A backend whose puts and gets take no time. -/
class PromptBackend (κ : Type) [ChunkBackend κ] : Prop where
  putTime_eq_zero : ∀ chunks : κ, ChunkBackend.putTime chunks = 0
  getTime_eq_zero : ∀ chunks : κ, ChunkBackend.getTime chunks = 0

instance : PromptBackend MemoryChunks where
  putTime_eq_zero _ := rfl
  getTime_eq_zero _ := rfl

instance : PromptBackend ChunkDirectory where
  putTime_eq_zero _ := rfl
  getTime_eq_zero _ := rfl

/-- A client ends every call for a digest with what is held under it, which has the digest. -/
structure ChunkClient.Answers {κ : Type} (client : ChunkClient κ) (storage : Storage κ)
    (held : Digest → Option Bytes) : Prop where
  perm : ∀ index (digests : List Digest),
    (client.fetch storage index (digests.map fun digest => ⟨digest.hex⟩)).Perm
      (digests.zipIdx.map fun (digest, position) => (position, held digest))
  genuine : ∀ digest data, held digest = some data → Digest.of data = digest

namespace ChunkService

variable (service : ChunkService)

/-- Calls that take no time in the service are all done, in their order. -/
theorem done_arrives {ρ α : Type} {duration : ρ → Nat} {requests : List ρ}
    (h : ∀ request ∈ requests, duration request = 0) :
    service.done duration (requests.map fun request => (.arrives 0 request : Course ρ α)) =
      List.range requests.length := by
  have hplans : ∀ plan ∈ (requests.map fun request => (.arrives 0 request : Course ρ α)).map
      (Course.plan duration), plan = .visit 0 0 := by
    intro plan hplan
    rw [List.map_map] at hplan
    obtain ⟨request, hrequest, rfl⟩ := List.mem_map.mp hplan
    simp only [Function.comp_apply, Course.plan, h request hrequest]
  rw [done, Schedule.done_brief _ _ hplans]
  simp

variable {κ : Type} [ChunkBackend κ]

/-! ## Storing -/

theorem storeTime_eq_zero [PromptBackend κ] (chunks : κ) (request : StoreChunkRequest) :
    storeTime chunks request = 0 := by
  rw [storeTime]
  split
  · split
    · exact PromptBackend.putTime_eq_zero chunks
    · rfl
  · rfl

/-- Stores chunks one after the other: how each call ends. -/
def storeAll : Storage κ → List StoreChunkRequest → List StoreOutcome × Storage κ
  | storage, [] => ([], storage)
  | storage, request :: rest =>
    let (result, storage) := storeChunk storage request
    let (outcomes, storage) := storeAll storage rest
    (outcomeOf result :: outcomes, storage)

theorem storeEach_arrives {done : List Nat} {number : Nat} {requests : List StoreChunkRequest}
    (storage : Storage κ) (hdone : ∀ index < requests.length, number + index ∈ done) :
    storeEach done storage number (requests.map (.arrives 0)) = storeAll storage requests := by
  induction requests generalizing storage number with
  | nil => rfl
  | cons request rest ih =>
    have hfirst : number ∈ done := hdone 0 (Nat.succ_pos _)
    have hrest : ∀ index < rest.length, number + 1 + index ∈ done := by
      intro index hindex
      rw [Nat.add_assoc, Nat.add_comm 1]
      exact hdone (index + 1) (Nat.succ_lt_succ hindex)
    simp only [List.map_cons, storeEach, if_pos hfirst, storeAll, ih _ hrest]

theorem storeCourses_none (stripe : Nat) (requests : List StoreChunkRequest) :
    (requests.zipIdx.map fun (request, index) =>
      storeCourse request
        (Interference.none.store? (stripe * requests.length + index) request.chunkHash)) =
          requests.map (.arrives 0) := by
  have hfst := congrArg (List.map (Course.arrives (α := StoreOutcome) 0))
    (List.zipIdx_map_fst 0 requests)
  rwa [List.map_map] at hfst

/-- Without interference the calls are done one after the other. -/
theorem store_none_eq_storeAll [PromptBackend κ] (storage : Storage κ) (stripe : Nat)
    (requests : List StoreChunkRequest) :
    service.store .none storage stripe requests = storeAll storage requests := by
  have hdone : service.done (storeTime storage.chunks)
      (requests.map (.arrives 0 · : _ → Course _ StoreOutcome)) = List.range requests.length :=
    service.done_arrives fun request _ => storeTime_eq_zero storage.chunks request
  simp only [store, storeCourses_none]
  apply storeEach_arrives storage
  intro index hindex
  rw [hdone, Nat.zero_add]
  exact List.mem_range.mpr hindex

/-! ## Storing in memory -/

/-- A chunk with a true claim is kept. -/
theorem storeChunk_memory (storage : Storage MemoryChunks) (data : Bytes) :
    storeChunk storage ⟨data, (Digest.of data).hex⟩ =
      (.ok ⟨.success⟩, { storage with chunks := storage.chunks.insert (Digest.of data) data }) := by
  simp only [storeChunk, Storage.storeChunk_of_true]
  rfl

/-- The chunks with those of requests put in, one after the other. -/
def keepAll (chunks : MemoryChunks) (requests : List StoreChunkRequest) : MemoryChunks :=
  requests.foldl (fun chunks request =>
    chunks.insert (Digest.of request.chunkData) request.chunkData) chunks

theorem keepAll_eq_insertAll (chunks : MemoryChunks) (requests : List StoreChunkRequest) :
    keepAll chunks requests = chunks.insertAll (requests.map StoreChunkRequest.chunkData) := by
  rw [keepAll, MemoryChunks.insertAll, List.foldl_map]

theorem storeAll_memory (storage : Storage MemoryChunks) {requests : List StoreChunkRequest}
    (hclaim : ∀ request ∈ requests, request.chunkHash = (Digest.of request.chunkData).hex) :
    storeAll storage requests =
      (requests.map fun _ => .answered ⟨.success⟩,
        { storage with chunks := keepAll storage.chunks requests }) := by
  induction requests generalizing storage with
  | nil => rfl
  | cons request rest ih =>
    obtain ⟨data, claim⟩ := request
    obtain rfl : claim = (Digest.of data).hex := hclaim _ List.mem_cons_self
    simp only [storeAll, storeChunk_memory]
    rw [ih _ fun request hrequest => hclaim request (List.mem_cons_of_mem _ hrequest)]
    rfl

/-- Without interference all chunks with true claims are kept, and every call is told so. -/
theorem store_none (storage : Storage MemoryChunks) (stripe : Nat)
    {requests : List StoreChunkRequest}
    (hclaim : ∀ request ∈ requests, request.chunkHash = (Digest.of request.chunkData).hex) :
    service.store .none storage stripe requests =
      (requests.map fun _ => .answered ⟨.success⟩,
        { storage with chunks := keepAll storage.chunks requests }) := by
  rw [store_none_eq_storeAll, storeAll_memory storage hclaim]

/-! ## Fetching -/

theorem fetchTime_eq_zero [PromptBackend κ] (chunks : κ) (request : GetChunkRequest) :
    fetchTime chunks request = 0 := by
  rw [fetchTime]
  split
  · exact PromptBackend.getTime_eq_zero chunks
  · rfl

/-- What a call that the service does gives. -/
def reply (storage : Storage κ) (request : GetChunkRequest) : Option Bytes :=
  match getChunk storage request with
  | .ok response => response.chunkData
  | .error _ => none

theorem reply_eq_some_iff {storage : Storage κ} {request : GetChunkRequest} {data : Bytes} :
    reply storage request = some data ↔
      storage.retrieveChunk request.chunkHash = .ok (some data) := by
  simp only [reply, getChunk]
  cases storage.retrieveChunk request.chunkHash with
  | error e => simp
  | ok held => simp

theorem reply_hex (storage : Storage MemoryChunks) (digest : Digest) :
    reply storage ⟨digest.hex⟩ = storage.chunks.genuine? digest := by
  simp only [reply, getChunk, Storage.retrieveChunk_memory, MemoryChunks.genuine?]
  cases storage.chunks.get? digest with
  | none => rfl
  | some data => by_cases hdata : Digest.of data = digest <;> simp [Option.filter, hdata]

/-- Without interference every call ends with what the service answers. -/
theorem fetch_none_perm [PromptBackend κ] (storage : Storage κ)
    (requests : List GetChunkRequest) :
    (service.fetch .none storage requests).Perm
      (requests.zipIdx.map fun (request, number) => (number, reply storage request)) := by
  have hdone : service.done (fetchTime storage.chunks)
      (requests.map (.arrives 0 · : _ → Course _ (Option Bytes))) = List.range requests.length :=
    service.done_arrives fun request _ => fetchTime_eq_zero storage.chunks request
  have hcourses : (requests.map fun request =>
      fetchCourse request (Interference.none.fetch? request.chunkHash)) =
        requests.map (.arrives 0) := rfl
  simp only [fetch, hcourses, hdone]
  refine ((Schedule.orderBy_perm _ _).map _).trans (.of_eq ?_)
  rw [List.map_map, List.zipIdx_map, List.map_map]
  apply List.map_congr_left
  rintro ⟨request, number⟩ hmem
  have hnumber : number ∈ List.range requests.length := by
    obtain ⟨hlt, -⟩ := List.getElem?_eq_some_iff.mp (List.mem_zipIdx_iff_getElem?.mp hmem)
    exact List.mem_range.mpr hlt
  simp only [Function.comp_apply, Prod.map_apply, id_eq, fetchOne, if_pos hnumber]
  rfl

/-- Without interference the service ends the calls with its own answers. -/
theorem answers_none [PromptBackend κ] (storage : Storage κ) :
    (service.client .none).Answers storage fun digest => reply storage ⟨digest.hex⟩ where
  perm index digests := by
    have hperm := service.fetch_none_perm storage (digests.map fun digest => ⟨digest.hex⟩)
    rwa [List.zipIdx_map, List.map_map] at hperm
  genuine digest data h :=
    (Digest.hex_injective (Storage.eq_hex_of_retrieveChunk (reply_eq_some_iff.mp h))).symm

theorem answers_memory (storage : Storage MemoryChunks) :
    (service.client .none).Answers storage storage.chunks.genuine? := by
  have hanswers := service.answers_none storage
  simp only [reply_hex] at hanswers
  exact hanswers

end ChunkService

end ShardVault
