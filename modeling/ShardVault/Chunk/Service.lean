import ShardVault.Chunk.Client
import ShardVault.Chunk.Store
import ShardVault.Schedule

/-!
The chunk service: a chunk store that works on a limited number of calls at once, and its callers,
who wait for a limited time.  Times are in milliseconds from the moment at which the calls for a
stripe are made.  A call that is not done within the limit is cut off: it has no effect, and others
take its place in the service.  One that is done at the limit counts.  Between callers and service
there may be interference, which is told for each call.
-/

namespace ShardVault

/-- What can happen to a call to store a chunk before it comes to the service. -/
inductive StoreFault
  | unavailable (reason : String)
  | unanswered
  | delayed (time : Nat)
  /-- Somebody else refuses the chunk. -/
  | refused
  /-- The first byte of the chunk is inverted. -/
  | garbled
deriving DecidableEq, Repr

/-- What can happen to a call to fetch a chunk before it comes to the service. -/
inductive FetchFault
  | unavailable (reason : String)
  | unanswered
  | delayed (time : Nat)
  /-- Somebody else answers, with these bytes or with none. -/
  | replied (data : Option Bytes)
deriving DecidableEq, Repr

/-- What happens to the calls: to those that store, by their number and the digest that they
    claim; to those that fetch, by the digest that they ask for. -/
structure Interference where
  store? : Nat → String → Option StoreFault
  fetch? : String → Option FetchFault

/-- Nothing happens. -/
def Interference.none : Interference :=
  ⟨fun _ _ => .none, fun _ => .none⟩

/-- The service and how long its callers wait. -/
structure ChunkService where
  /-- How many calls it works on at once; one at least. -/
  permits : Nat
  timeout : Nat
deriving DecidableEq, Repr

namespace ChunkService

/-- The most calls that a service can be told to work on at once. -/
def maxPermits : Nat := UInt64.size / 8 - 1

/-- The time that callers wait if they are not told otherwise. -/
def standardTimeout : Nat := 5000

/-- What is before a call. -/
inductive Course (ρ α : Type)
  /-- It ends at once, and does not come to the service. -/
  | ends (outcome : α)
  | unanswered
  /-- It comes to the service after a delay. -/
  | arrives (delay : Nat) (request : ρ)

/-- The plan of a call, if a request takes this long in the service. -/
def Course.plan {ρ α : Type} (duration : ρ → Nat) : Course ρ α → Schedule.Plan
  | .ends _ => .immediate
  | .unanswered => .endless
  | .arrives delay request => .visit delay (duration request)

/-- The calls that are done within the limit, in the order in which they are done. -/
def done {ρ α : Type} (service : ChunkService) (duration : ρ → Nat) (courses : List (Course ρ α)) :
    List Nat :=
  Schedule.done service.permits service.timeout (courses.map (Course.plan duration))

/-- The bytes with the first one inverted. -/
def garble : Bytes → Bytes
  | [] => []
  | first :: rest => (first ^^^ 0xff) :: rest

variable {κ : Type} [ChunkBackend κ]

/-- Answers a call to store a chunk. -/
def storeChunk (storage : Storage κ) (request : StoreChunkRequest) :
    Except ServiceError StoreChunkResponse × Storage κ :=
  let (result, storage) := storage.storeChunk request.chunkData request.chunkHash
  match result with
  | .ok status => (.ok ⟨status⟩, storage)
  | .error e => (.error (.storage e), storage)

/-- Answers a call to fetch a chunk. -/
def getChunk (storage : Storage κ) (request : GetChunkRequest) :
    Except ServiceError GetChunkResponse :=
  match storage.retrieveChunk request.chunkHash with
  | .ok data => .ok ⟨data⟩
  | .error e => .error (.storage e)

/-- How a call to store a chunk that comes to its end is seen by the caller. -/
def outcomeOf : Except ServiceError StoreChunkResponse → StoreOutcome
  | .ok response => .answered response
  | .error cause => .failed cause

/-- What is before a call to store a chunk. -/
def storeCourse (request : StoreChunkRequest) :
    Option StoreFault → Course StoreChunkRequest StoreOutcome
  | none => .arrives 0 request
  | some (.unavailable reason) => .ends (.failed (.unavailable reason))
  | some .unanswered => .unanswered
  | some (.delayed time) => .arrives time request
  | some .refused => .ends (.answered ⟨.failure⟩)
  | some .garbled => .arrives 0 { request with chunkData := garble request.chunkData }

/-- How long a call to store a chunk takes: only a claim that holds reaches the backend. -/
def storeTime (backend : κ) (request : StoreChunkRequest) : Nat :=
  match Digest.parse request.chunkHash with
  | .ok claimed => if claimed.verifies request.chunkData then ChunkBackend.putTime backend else 0
  | .error _ => 0

/-- Lets the calls from a number on come to their ends; `done` are those that the service does. -/
def storeEach (done : List Nat) :
    Storage κ → Nat → List (Course StoreChunkRequest StoreOutcome) → List StoreOutcome × Storage κ
  | storage, _, [] => ([], storage)
  | storage, number, .ends outcome :: rest =>
    let (outcomes, storage) := storeEach done storage (number + 1) rest
    (outcome :: outcomes, storage)
  | storage, number, .unanswered :: rest =>
    let (outcomes, storage) := storeEach done storage (number + 1) rest
    (.timedOut :: outcomes, storage)
  | storage, number, .arrives _ request :: rest =>
    if number ∈ done then
      let (result, storage) := storeChunk storage request
      let (outcomes, storage) := storeEach done storage (number + 1) rest
      (outcomeOf result :: outcomes, storage)
    else
      let (outcomes, storage) := storeEach done storage (number + 1) rest
      (.timedOut :: outcomes, storage)

/-- The calls to store the chunks of the stripe at a position. -/
def store (service : ChunkService) (interference : Interference) (storage : Storage κ)
    (stripe : Nat) (requests : List StoreChunkRequest) : List StoreOutcome × Storage κ :=
  let courses := requests.zipIdx.map fun (request, index) =>
    storeCourse request
      (interference.store? (stripe * requests.length + index) request.chunkHash)
  storeEach (service.done (storeTime storage.chunks) courses) storage 0 courses

/-- What is before a call to fetch a chunk, and what it gives if it does not come to the service. -/
def fetchCourse (request : GetChunkRequest) :
    Option FetchFault → Course GetChunkRequest (Option Bytes)
  | none => .arrives 0 request
  | some (.unavailable _) => .ends none
  | some .unanswered => .unanswered
  | some (.delayed time) => .arrives time request
  | some (.replied data) => .ends data

/-- How long a call to fetch a chunk takes: only a digest reaches the backend. -/
def fetchTime (backend : κ) (request : GetChunkRequest) : Nat :=
  match Digest.parse request.chunkHash with
  | .ok _ => ChunkBackend.getTime backend
  | .error _ => 0

/-- What a call to fetch a chunk gives; `done` are the calls that the service does. -/
def fetchOne (done : List Nat) (storage : Storage κ) (number : Nat) :
    Course GetChunkRequest (Option Bytes) → Option Bytes
  | .ends data => data
  | .unanswered => none
  | .arrives _ request =>
    if number ∈ done then
      match getChunk storage request with
      | .ok response => response.chunkData
      | .error _ => none
    else none

/-- The calls to fetch the chunks of a stripe.  Those that are cut off end last. -/
def fetch (service : ChunkService) (interference : Interference) (storage : Storage κ)
    (requests : List GetChunkRequest) : List (Nat × Option Bytes) :=
  let courses := requests.map fun request =>
    fetchCourse request (interference.fetch? request.chunkHash)
  let done := service.done (fetchTime storage.chunks) courses
  let ended := courses.zipIdx.map fun (course, number) =>
    (number, done.idxOf number, fetchOne done storage number course)
  (Schedule.orderBy (fun call => call.2.1) ended).map fun (number, _, data) => (number, data)

theorem length_storeEach (done : List Nat) (storage : Storage κ) (number : Nat)
    (courses : List (Course StoreChunkRequest StoreOutcome)) :
    (storeEach done storage number courses).1.length = courses.length := by
  induction courses generalizing storage number with
  | nil => rfl
  | cons course rest ih =>
    cases course with
    | ends outcome => simp only [storeEach, List.length_cons, ih]
    | unanswered => simp only [storeEach, List.length_cons, ih]
    | arrives delay request =>
      simp only [storeEach]
      split <;> simp only [List.length_cons, ih]

theorem length_store (service : ChunkService) (interference : Interference) (storage : Storage κ)
    (stripe : Nat) (requests : List StoreChunkRequest) :
    (service.store interference storage stripe requests).1.length = requests.length := by
  simp [store, length_storeEach]

theorem fetch_perm (service : ChunkService) (interference : Interference) (storage : Storage κ)
    (requests : List GetChunkRequest) :
    ((service.fetch interference storage requests).map Prod.fst).Perm
      (List.range requests.length) := by
  simp only [fetch, List.map_map]
  refine ((Schedule.orderBy_perm _ _).map _).trans ?_
  simp only [List.map_map, Function.comp_def]
  exact .of_eq (by simp [← List.range_eq_range'])

/-- The service under interference, as its callers see it. -/
def client (service : ChunkService) (interference : Interference) : ChunkClient κ where
  store := service.store interference
  fetch storage _ requests := service.fetch interference storage requests
  length_store := service.length_store interference
  fetch_perm storage _ requests := service.fetch_perm interference storage requests

end ChunkService

end ShardVault
