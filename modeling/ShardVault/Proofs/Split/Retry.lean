import ShardVault.Proofs.Documents
import ShardVault.Proofs.Split.Whole

/-!
Trying again.  A call that is reported as failed may have reached the store all the same, so failed
splits of a content leave any part of its chunks behind.  The first split all of whose calls are
acknowledged leaves just what it would have left without them, and no split after it changes
anything (`split_retry`).
-/

namespace ShardVault

/-! ## Calls that are lost -/

/-- What becomes of a number of calls on their way to the store and back. -/
structure Delivery (calls : Nat) where
  /-- The calls that reach the store, in the order in which they do. -/
  reaching : List (Fin calls)
  /-- What is reported of a call if the store's answer does not come back. -/
  lost? : Fin calls → Option StoreOutcome
  fails : ∀ call outcome, lost? call = some outcome → outcome ≠ .success
  reaches : ∀ call, lost? call = none → call ∈ reaching

/-- The store's answers to all calls come back. -/
def Delivery.Acknowledged {calls : Nat} (delivery : Delivery calls) : Prop :=
  ∀ call, delivery.lost? call = none

/-- The calls for the stripe at a position, which are so many, have these deliveries. -/
abbrev Deliveries :=
  Nat → (calls : Nat) → Delivery calls

/-- Chunk storage in memory behind these deliveries. -/
def ChunkClient.delivering (deliveries : Deliveries) : ChunkClient MemoryChunks where
  store storage stripe requests :=
    let delivery := deliveries stripe requests.length
    let (answers, storage) := ChunkService.storeAll storage (delivery.reaching.map requests.get)
    ((List.finRange requests.length).map fun call =>
      (delivery.lost? call).getD (answers[delivery.reaching.idxOf call]?.getD .timedOut), storage)
  fetch storage _ requests := requests.zipIdx.map fun (request, number) =>
    (number, ChunkService.reply storage request)
  length_store storage stripe requests := by
    simp
  fetch_perm storage stripe requests := by
    simp [Function.comp_def, ← List.range_eq_range']

/-- One try to split a content. -/
structure Attempt where
  now : Instant
  deliveries : Deliveries

/-- All calls reach the store, and the answers to all come back. -/
def Attempt.answered : Attempt where
  now := .epoch
  deliveries _ calls := {
    reaching := List.finRange calls
    lost? := fun _ => none
    fails := fun _ _ h => nomatch h
    reaches := fun call _ => List.mem_finRange call }

/-- All calls reach the store, but no answer comes back in time. -/
def Attempt.unanswered : Attempt where
  now := .epoch
  deliveries _ calls := {
    reaching := List.finRange calls
    lost? := fun _ => some .timedOut
    fails := fun _ _ h => Option.some.inj h ▸ nofun
    reaches := fun _ h => nomatch h }

namespace Splitter

variable (splitter : Splitter)

/-- All calls for so many stripes, the first of them at a position, are acknowledged. -/
def AllAcknowledged (deliveries : Deliveries) (index count : Nat) : Prop :=
  ∀ stripe < count, (deliveries (index + stripe) splitter.scheme.n).Acknowledged

/-- All calls of an attempt to split a content are acknowledged. -/
def Acknowledges (content : Bytes) (attempt : Attempt) : Prop :=
  splitter.AllAcknowledged attempt.deliveries 0
    (Stripe.segment splitter.stripeSize content).length

/-- Tries to split a content. -/
def tries (content : Bytes) (state : Storage MemoryChunks × Registry) (attempt : Attempt) :
    Except (Stop StorageError) SplitReport × Storage MemoryChunks × Registry :=
  splitter.split (.delivering attempt.deliveries) attempt.now state.1 state.2 content

/-- What attempts to split a content leave behind. -/
def afterTries (content : Bytes) (state : Storage MemoryChunks × Registry)
    (attempts : List Attempt) : Storage MemoryChunks × Registry :=
  attempts.foldl (fun state attempt => (splitter.tries content state attempt).2) state

/-! ## One stripe -/

/-- Every call that reaches the store has its chunk kept, and ends well unless it is lost. -/
theorem store_delivering (deliveries : Deliveries) (storage : Storage MemoryChunks) (index : Nat)
    {requests : List StoreChunkRequest}
    (hclaim : ∀ request ∈ requests, request.chunkHash = (Digest.of request.chunkData).hex) :
    (ChunkClient.delivering deliveries).store storage index requests =
      ((List.finRange requests.length).map fun call =>
          ((deliveries index requests.length).lost? call).getD .success,
        { storage with
          chunks := storage.chunks.insertAll ((deliveries index requests.length).reaching.map
            fun call => (requests.get call).chunkData) }) := by
  simp only [ChunkClient.delivering]
  generalize deliveries index requests.length = delivery
  have hreaching : ∀ request ∈ delivery.reaching.map requests.get,
      request.chunkHash = (Digest.of request.chunkData).hex := by
    intro request hrequest
    obtain ⟨call, -, rfl⟩ := List.mem_map.mp hrequest
    exact hclaim _ (List.get_mem requests call)
  rw [ChunkService.storeAll_memory storage hreaching, ChunkService.keepAll_eq_insertAll,
    List.map_map, List.map_map]
  congr 1
  apply List.map_congr_left
  intro call _
  cases hlost : delivery.lost? call with
  | some outcome => rfl
  | none =>
    have hanswered := List.idxOf_lt_length_iff.mpr (delivery.reaches call hlost)
    rw [List.getElem?_map, List.getElem?_eq_getElem hanswered]
    rfl

/-- A stripe is stored if all its calls are acknowledged; if not, some of its chunks may be. -/
theorem storeStripe_delivering (deliveries : Deliveries) (storage : Storage MemoryChunks)
    (index : Nat) (stripe : Bytes) :
    let acknowledged := (deliveries index splitter.scheme.n).Acknowledged
    ∃ result reached,
      splitter.storeStripe (.delivering deliveries) storage index stripe =
        (result, { storage with chunks := storage.chunks.insertAll reached }) ∧
      reached ⊆ splitter.scheme.chunks stripe ∧
      (acknowledged → result = .ok (recordOf stripe (splitter.requests stripe)) ∧
        splitter.scheme.chunks stripe ⊆ reached) ∧
      (¬ acknowledged → ∃ failure, result = .error failure) := by
  have hstore := store_delivering deliveries storage index fun request hrequest =>
    splitter.chunkHash_of_mem_requests stripe hrequest
  simp only [storeStripe_eq, hstore]
  rw [← splitter.length_requests stripe, ← splitter.map_chunkData_requests stripe]
  generalize splitter.requests stripe = requests
  generalize deliveries index requests.length = delivery
  have hreports : chunkFailures requests
      ((List.finRange requests.length).map fun call => (delivery.lost? call).getD .success) = [] ↔
        delivery.Acknowledged := by
    rw [chunkFailures_eq_nil_iff (by simp), List.forall_mem_map]
    refine forall_congr' fun call => ?_
    cases hlost : delivery.lost? call with
    | none => simp
    | some outcome => simp [delivery.fails call outcome hlost]
  have hsubset : (delivery.reaching.map fun call => (requests.get call).chunkData) ⊆
      requests.map StoreChunkRequest.chunkData := by
    intro data hdata
    obtain ⟨call, -, rfl⟩ := List.mem_map.mp hdata
    exact List.mem_map_of_mem (List.get_mem requests call)
  by_cases hacknowledged : delivery.Acknowledged
  · rw [hreports.mpr hacknowledged]
    refine ⟨_, _, rfl, hsubset, fun _ => ⟨rfl, fun data hdata => ?_⟩, absurd hacknowledged⟩
    obtain ⟨request, hrequest, rfl⟩ := List.mem_map.mp hdata
    obtain ⟨call, rfl⟩ := List.get_of_mem hrequest
    exact List.mem_map_of_mem (delivery.reaches call (hacknowledged call))
  · obtain ⟨failure, failures, hfailures⟩ :=
      List.exists_cons_of_ne_nil (mt hreports.mp hacknowledged)
    rw [hfailures]
    exact ⟨_, _, rfl, hsubset, fun h => absurd h hacknowledged, fun _ => ⟨_, rfl⟩⟩

/-! ## All stripes -/

variable {splitter}

private theorem append_subset_append {α : Type} {first second first' second' : List α}
    (h : first ⊆ first') (h' : second ⊆ second') : first ++ second ⊆ first' ++ second' :=
  List.append_subset.mpr ⟨fun _ hmem => List.mem_append_left _ (h hmem),
    fun _ hmem => List.mem_append_right _ (h' hmem)⟩

theorem allAcknowledged_succ {deliveries : Deliveries} {index count : Nat} :
    splitter.AllAcknowledged deliveries index (count + 1) ↔
      (deliveries index splitter.scheme.n).Acknowledged ∧
        splitter.AllAcknowledged deliveries (index + 1) count := by
  constructor
  · intro h
    refine ⟨h 0 (Nat.succ_pos _), fun stripe hstripe => ?_⟩
    rw [Nat.add_assoc, Nat.add_comm 1]
    exact h (stripe + 1) (Nat.succ_lt_succ hstripe)
  · rintro ⟨hfirst, hrest⟩ stripe hstripe
    cases stripe with
    | zero => exact hfirst
    | succ stripe =>
      rw [Nat.add_comm stripe, ← Nat.add_assoc]
      exact hrest stripe (Nat.lt_of_succ_lt_succ hstripe)

/-- All stripes are stored if all calls are acknowledged; if not, some of the chunks may be. -/
theorem storeStripes_delivering (deliveries : Deliveries) (storage : Storage MemoryChunks)
    (index : Nat) (stripes : List Bytes) :
    let acknowledged := splitter.AllAcknowledged deliveries index stripes.length
    ∃ results reached,
      splitter.storeStripes (.delivering deliveries) storage index stripes =
        (results, { storage with chunks := storage.chunks.insertAll reached }) ∧
      reached ⊆ stripes.flatMap splitter.scheme.chunks ∧
      (acknowledged →
        results = stripes.map (fun stripe =>
          .ok (recordOf stripe (splitter.requests stripe))) ∧
        stripes.flatMap splitter.scheme.chunks ⊆ reached) ∧
      (¬ acknowledged → failuresOf results ≠ []) := by
  induction stripes generalizing storage index with
  | nil =>
    refine ⟨[], [], rfl, List.nil_subset _, fun _ => ⟨rfl, List.Subset.refl _⟩, fun hlost => ?_⟩
    exact absurd (fun _ h => absurd h (Nat.not_lt_zero _)) hlost
  | cons stripe rest ih =>
    obtain ⟨result, reached, hstripe, hsubset, hstored, hfailed⟩ :=
      splitter.storeStripe_delivering deliveries storage index stripe
    obtain ⟨results, more, hrest, hsubset', hstored', hfailed'⟩ :=
      ih { storage with chunks := storage.chunks.insertAll reached } (index + 1)
    refine ⟨result :: results, reached ++ more, ?_, ?_, ?_, ?_⟩
    · simp only [storeStripes, hstripe, hrest, MemoryChunks.insertAll_append]
    · rw [List.flatMap_cons]
      exact append_subset_append hsubset hsubset'
    · intro hacknowledged
      obtain ⟨hfirst, hothers⟩ := allAcknowledged_succ.mp hacknowledged
      obtain ⟨rfl, hchunks⟩ := hstored hfirst
      obtain ⟨rfl, hchunks'⟩ := hstored' hothers
      refine ⟨rfl, ?_⟩
      rw [List.flatMap_cons]
      exact append_subset_append hchunks hchunks'
    · intro hlost
      cases result with
      | error failure => simp [failuresOf]
      | ok record =>
        have hfirst : (deliveries index splitter.scheme.n).Acknowledged := by
          by_contra hnot
          obtain ⟨failure, hfailure⟩ := hfailed hnot
          cases hfailure
        exact hfailed' fun hothers => hlost (allAcknowledged_succ.mpr ⟨hfirst, hothers⟩)

/-! ## One attempt -/

variable (splitter) {content : Bytes}

/-- An attempt puts in some of the chunks.  If all its calls are acknowledged it puts in all and
    publishes the record; if not, nothing else happens. -/
theorem tries_of_fits (hfits : splitter.Fits content) (state : Storage MemoryChunks × Registry)
    (attempt : Attempt) :
    ∃ reached ⊆ splitter.chunks content,
      let storage := { state.1 with chunks := state.1.chunks.insertAll reached }
      (splitter.Acknowledges content attempt → splitter.chunks content ⊆ reached ∧
        splitter.tries content state attempt =
          let (result, storage, registry) := splitter.publish attempt.now storage state.2
            (splitter.record content) content.length
          (result.mapError .refused, storage, registry)) ∧
      (¬ splitter.Acknowledges content attempt → ∃ cause,
        splitter.tries content state attempt = (.error (.refused cause), storage, state.2)) := by
  obtain ⟨results, reached, hstripes, hsubset, hstored, hfailed⟩ :=
    splitter.storeStripes_delivering attempt.deliveries state.1 0
      (Stripe.segment splitter.stripeSize content)
  refine ⟨reached, hsubset, fun hacknowledged => ?_, fun hlost => ?_⟩
  · obtain ⟨rfl, hchunks⟩ := hstored hacknowledged
    refine ⟨hchunks, ?_⟩
    rw [tries, splitter.split_of_fits _ _ _ _ hfits,
      splitter.storeContent_of_stored attempt.now state.2 hstripes]
  · refine ⟨.splitFailed (failuresOf results), ?_⟩
    rw [tries, splitter.split_of_fits _ _ _ _ hfits,
      splitter.storeContent_of_failed attempt.now state.2 hstripes (hfailed hlost)]
    rfl

/-- An attempt whose record is refused is refused, though all its calls are acknowledged. -/
theorem tries_of_refused (hfits : splitter.Fits content)
    {state : Storage MemoryChunks × Registry} {attempt : Attempt}
    (hacknowledged : splitter.Acknowledges content attempt) {cause : StorageError}
    {files : FileTree}
    (hpersist : splitter.documents.persist state.1.files (splitter.record content) =
      (.error cause, files)) :
    (splitter.tries content state attempt).1 = .error (.refused cause) := by
  obtain ⟨reached, -, htries, -⟩ := splitter.tries_of_fits hfits state attempt
  rw [(htries hacknowledged).2]
  simp only [publish, hpersist]
  rfl

theorem tries_of_not_fits (hfits : ¬ splitter.Fits content)
    (state : Storage MemoryChunks × Registry) (attempt : Attempt) :
    splitter.tries content state attempt = (.error .crash, state) :=
  splitter.split_of_not_fits _ _ _ _ hfits

/-! ## Before and after the first success -/

theorem keepStripes_eq_insertAll (chunks : MemoryChunks) (stripes : List Bytes) :
    splitter.keepStripes chunks stripes =
      chunks.insertAll (stripes.flatMap splitter.scheme.chunks) := by
  induction stripes generalizing chunks with
  | nil => rfl
  | cons stripe rest ih =>
    rw [keepStripes, List.foldl_cons, ← keepStripes, ih, ChunkService.keepAll_eq_insertAll,
      map_chunkData_requests, List.flatMap_cons, MemoryChunks.insertAll_append]

variable {splitter} {storage : Storage MemoryChunks} {registry : Registry}

/-- Attempts that fail put in some of the chunks and do nothing else. -/
theorem afterTries_of_failed (storage : Storage MemoryChunks) (registry : Registry)
    (hfits : splitter.Fits content) {failed : List Attempt}
    (hfailed : ∀ attempt ∈ failed, ¬ splitter.Acknowledges content attempt) :
    ∃ reached ⊆ splitter.chunks content,
      splitter.afterTries content (storage, registry) failed =
        ({ storage with chunks := storage.chunks.insertAll reached }, registry) := by
  induction failed generalizing storage with
  | nil => exact ⟨[], List.nil_subset _, rfl⟩
  | cons attempt rest ih =>
    obtain ⟨reached, hsubset, -, hlost⟩ :=
      splitter.tries_of_fits hfits (storage, registry) attempt
    obtain ⟨cause, htries⟩ := hlost (hfailed attempt List.mem_cons_self)
    obtain ⟨more, hsubset', hrest⟩ :=
      ih { storage with chunks := storage.chunks.insertAll reached }
        fun other hother => hfailed other (List.mem_cons_of_mem _ hother)
    refine ⟨reached ++ more, List.append_subset.mpr ⟨hsubset, hsubset'⟩, ?_⟩
    rw [afterTries, List.foldl_cons, htries, ← afterTries, hrest, MemoryChunks.insertAll_append]

/-- A content is stored: its chunks, its document and its entry are there. -/
structure Settled (splitter : Splitter) (content : Bytes)
    (state : Storage MemoryChunks × Registry) : Prop where
  chunks : ∀ reached ⊆ splitter.chunks content,
    state.1.chunks.insertAll reached = state.1.chunks
  document : splitter.documents.persist state.1.files (splitter.record content) =
    (.ok (splitter.documents.path (splitter.record content).fileHash, true), state.1.files)
  registered : state.2.files.contains (splitter.record content).fileHash = true

/-- Nothing changes once a content is stored, whatever becomes of the calls. -/
theorem Settled.tries {state : Storage MemoryChunks × Registry}
    (h : splitter.Settled content state) (hfits : splitter.Fits content) (attempt : Attempt) :
    (splitter.tries content state attempt).2 = state ∧
      (splitter.Acknowledges content attempt →
        splitter.tries content state attempt = (.ok (splitter.report content true), state)) := by
  obtain ⟨reached, hsubset, hstored, hlost⟩ := splitter.tries_of_fits hfits state attempt
  obtain ⟨⟨chunks, files⟩, registry⟩ := state
  obtain ⟨hchunks, hdocument, hregistered⟩ := h
  rw [hchunks reached hsubset] at hstored hlost
  have hacknowledged (hacknowledged : splitter.Acknowledges content attempt) :
      splitter.tries content (⟨chunks, files⟩, registry) attempt =
        (.ok (splitter.report content true), ⟨chunks, files⟩, registry) := by
    rw [(hstored hacknowledged).2]
    simp only [publish, hdocument, Registry.register, entry, hregistered, if_true]
    rfl
  refine ⟨?_, hacknowledged⟩
  by_cases hall : splitter.Acknowledges content attempt
  · rw [hacknowledged hall]
  · obtain ⟨cause, htries⟩ := hlost hall
    rw [htries]

theorem Settled.afterTries {state : Storage MemoryChunks × Registry}
    (h : splitter.Settled content state) (hfits : splitter.Fits content)
    (attempts : List Attempt) : splitter.afterTries content state attempts = state := by
  induction attempts with
  | nil => rfl
  | cons attempt rest ih =>
    rw [Splitter.afterTries, List.foldl_cons, (h.tries hfits attempt).1]
    exact ih

/-- What a split leaves of a content that has neither document nor entry. -/
def stored (splitter : Splitter) (content : Bytes) (now : Instant)
    (storage : Storage MemoryChunks) (registry : Registry) : Storage MemoryChunks × Registry :=
  (⟨storage.chunks.insertAll (splitter.chunks content),
      (splitter.documents.persist storage.files (splitter.record content)).2⟩,
    ⟨registry.files.insert (Digest.of content).hex
      (entry (splitter.record content) content.length now)⟩)

section Vacant

variable (now : Instant)
  (hvacant : splitter.documents.Vacant storage.files (Digest.of content).hex)
  (hentry : registry.get? (Digest.of content).hex = none)

include hvacant

include hentry in
/-- Where a content has neither document nor entry, publishing it makes both. -/
theorem publish_of_vacant :
    splitter.publish now
        { storage with chunks := storage.chunks.insertAll (splitter.chunks content) } registry
        (splitter.record content) content.length =
      (.ok (splitter.report content false), splitter.stored content now storage registry) := by
  have hrecord : (splitter.record content).fileHash = (Digest.of content).hex := rfl
  obtain ⟨written, hpersist, -⟩ := hvacant.persist hrecord
  have habsent : ¬ registry.files.contains (Digest.of content).hex = true := by
    rw [Registry.get?] at hentry
    rw [Std.ExtTreeMap.contains_eq_isSome_getElem?, hentry]
    exact Bool.false_ne_true
  simp only [publish, hpersist, Registry.register, entry, hrecord, if_neg habsent, stored]
  rfl

include hentry in
/-- A split of such a content by itself. -/
theorem split_of_vacant (service : ChunkService) (hfits : splitter.Fits content) :
    splitter.split (service.client .none) now storage registry content =
      (.ok (splitter.report content false), splitter.stored content now storage registry) := by
  have hpublish := publish_of_vacant now hvacant hentry
  rw [splitter.split_memory service now storage registry hfits, keepStripes_eq_insertAll]
  rw [chunks] at hpublish
  simp only [hpublish]
  rfl

theorem settled_stored (registry : Registry)
    (hdistinct : Set.InjOn Digest.of {data | data ∈ splitter.chunks content}) :
    splitter.Settled content (splitter.stored content now storage registry) where
  chunks reached hsubset := by
    rw [stored, ← MemoryChunks.insertAll_append]
    symm
    apply MemoryChunks.insertAll_congr _ hdistinct
    intro data
    rw [List.mem_append]
    exact ⟨.inl, fun h => h.elim id (hsubset ·)⟩
  document := by
    have hrecord : (splitter.record content).fileHash = (Digest.of content).hex := rfl
    obtain ⟨written, hpersist, hagain⟩ := hvacant.persist hrecord
    simp only [stored, hpersist, hagain]
  registered := by
    simp [stored, record, FileRecord.new]

include hentry in
/-- The first attempt all of whose calls are acknowledged, after others. -/
theorem tries_of_vacant (hfits : splitter.Fits content)
    (hdistinct : Set.InjOn Digest.of {data | data ∈ splitter.chunks content})
    {failed : List Attempt} {first : Attempt}
    (hfailed : ∀ attempt ∈ failed, ¬ splitter.Acknowledges content attempt)
    (hfirst : splitter.Acknowledges content first) :
    splitter.tries content (splitter.afterTries content (storage, registry) failed) first =
      (.ok (splitter.report content false),
        splitter.stored content first.now storage registry) := by
  obtain ⟨reached, hsubset, hfailures⟩ := afterTries_of_failed storage registry hfits hfailed
  obtain ⟨more, hsubset', htries, -⟩ := splitter.tries_of_fits hfits
    ({ storage with chunks := storage.chunks.insertAll reached }, registry) first
  obtain ⟨hall, htries⟩ := htries hfirst
  -- chunks that failed attempts have put in are put in once more
  have hchunks : (storage.chunks.insertAll reached).insertAll more =
      storage.chunks.insertAll (splitter.chunks content) := by
    rw [← MemoryChunks.insertAll_append]
    symm
    apply MemoryChunks.insertAll_congr _ hdistinct
    intro data
    rw [List.mem_append]
    exact ⟨fun h => .inr (hall h), fun h => h.elim (hsubset ·) (hsubset' ·)⟩
  simp only [hchunks, publish_of_vacant first.now hvacant hentry] at htries
  rw [hfailures, htries]
  rfl

end Vacant

/-- Whatever has become of the calls of splits that failed, the first split of a content all of
    whose calls are acknowledged ends as if there had been no other: it reports a document that was
    not there before, and leaves the same chunks, documents and entries.  No later split changes
    anything, and one all of whose calls are acknowledged gives the same report, but for a document
    that was there.  A content that does not fit breaks every split off before its first call. -/
theorem split_retry (splitter : Splitter) (content : Bytes) (storage : Storage MemoryChunks)
    (registry : Registry) (service : ChunkService) (failed : List Attempt) (first : Attempt)
    (hvacant : splitter.documents.Vacant storage.files (Digest.of content).hex)
    (hentry : registry.get? (Digest.of content).hex = none)
    (hdistinct : Set.InjOn Digest.of {data | data ∈ splitter.chunks content})
    (hfailed : ∀ attempt ∈ failed, ¬ splitter.Acknowledges content attempt)
    (hfirst : splitter.Acknowledges content first) :
    let clean := splitter.split (service.client .none) first.now storage registry content
    let run := splitter.tries content
      (splitter.afterTries content (storage, registry) failed) first
    if splitter.Fits content then
      run = clean ∧
        ∃ report, clean.1 = .ok report ∧ report.alreadyStored = false ∧
          report.record = splitter.record content ∧
          clean.2.2 = ⟨registry.files.insert (Digest.of content).hex
            (entry report.record content.length first.now)⟩ ∧
          ∀ later next, splitter.afterTries content run.2 later = run.2 ∧
            (splitter.tries content run.2 next).2 = run.2 ∧
            (splitter.Acknowledges content next →
              (splitter.tries content run.2 next).1 =
                .ok { report with alreadyStored := true })
    else
      run = (.error .crash, storage, registry) ∧
        ∀ later next, splitter.afterTries content run.2 later = run.2 ∧
          splitter.tries content run.2 next = (.error .crash, run.2) := by
  intro clean run
  by_cases hfits : splitter.Fits content
  · rw [if_pos hfits]
    have hclean : clean = (.ok (splitter.report content false),
        splitter.stored content first.now storage registry) :=
      split_of_vacant first.now hvacant hentry service hfits
    have hrun : run = (.ok (splitter.report content false),
        splitter.stored content first.now storage registry) :=
      tries_of_vacant hvacant hentry hfits hdistinct hfailed hfirst
    clear_value run clean
    subst hclean hrun
    have hsettled := settled_stored first.now hvacant registry hdistinct
    refine ⟨rfl, splitter.report content false, rfl, rfl, rfl, rfl, fun later next => ?_⟩
    have hnext := hsettled.tries hfits next
    refine ⟨hsettled.afterTries hfits later, hnext.1, fun hacknowledges => ?_⟩
    rw [hnext.2 hacknowledges, report, report]
  · rw [if_neg hfits]
    have hsame (attempts : List Attempt) (state : Storage MemoryChunks × Registry) :
        splitter.afterTries content state attempts = state := by
      induction attempts with
      | nil => rfl
      | cons attempt rest ih =>
        rw [afterTries, List.foldl_cons, splitter.tries_of_not_fits hfits]
        exact ih
    have hrun : run = (.error .crash, storage, registry) := by
      simp only [run, hsame]
      exact splitter.tries_of_not_fits hfits _ first
    exact ⟨hrun, fun later next => ⟨hsame later _, splitter.tries_of_not_fits hfits _ next⟩⟩

/-! ## Small runs -/

/-- A splitter that makes one shard of every stripe. -/
def sample (stripeSize : Nat) (h : 0 < stripeSize) : Splitter :=
  ⟨stripeSize, .single, .sample, h⟩

theorem acknowledges_answered (splitter : Splitter) (content : Bytes) :
    splitter.Acknowledges content .answered :=
  fun _ _ _ => rfl

/-- One stripe is all of a content that is no longer. -/
theorem chunks_sample {stripeSize : Nat} (h : 0 < stripeSize) {content : Bytes}
    (hcontent : content ≠ []) (hle : content.length ≤ stripeSize) :
    (sample stripeSize h).chunks content = [content.rightpad stripeSize 0 ++ [0]] := by
  rw [chunks, sample, Stripe.segment_of_ne_nil (Nat.pos_iff_ne_zero.mp h) hcontent,
    List.take_of_length_le hle, List.drop_eq_nil_of_le hle, Stripe.segment_nil]
  simp [Scheme.chunks, Scheme.encode_single]

theorem injOn_chunks_sample {stripeSize : Nat} (h : 0 < stripeSize) {content : Bytes}
    (hcontent : content ≠ []) (hle : content.length ≤ stripeSize) :
    Set.InjOn Digest.of {data | data ∈ (sample stripeSize h).chunks content} := by
  rw [chunks_sample h hcontent hle]
  intro data hdata other hother _
  rw [List.mem_singleton.mp hdata, List.mem_singleton.mp hother]

theorem split_retry_sample :
    let splitter := sample 1 Nat.one_pos
    let start : Storage MemoryChunks × Registry := (⟨.empty, .empty⟩, .empty)
    splitter.documents.Vacant start.1.files (Digest.of [7]).hex ∧
      start.2.get? (Digest.of [7]).hex = none ∧
      Set.InjOn Digest.of {data | data ∈ splitter.chunks [7]} ∧
      ¬ splitter.Acknowledges [7] .unanswered ∧ splitter.Acknowledges [7] .answered ∧
      ∃ report,
        (splitter.tries [7] (splitter.afterTries [7] start [.unanswered]) .answered).1 =
          .ok report ∧ report.alreadyStored = false := by
  have hvacant : (sample 1 Nat.one_pos).documents.Vacant .empty (Digest.of [7]).hex :=
    Documents.vacant_of_fresh Documents.fresh_sample _
  have hentry : Registry.empty.get? (Digest.of [7]).hex = none := by
    simp [Registry.get?, Registry.empty]
  have hdistinct : Set.InjOn Digest.of {data | data ∈ (sample 1 Nat.one_pos).chunks [7]} :=
    injOn_chunks_sample Nat.one_pos (by simp) (Nat.le_refl 1)
  have hlost : ¬ (sample 1 Nat.one_pos).Acknowledges [7] .unanswered := by
    intro h
    have hstripes : 0 < (Stripe.segment (sample 1 Nat.one_pos).stripeSize [7]).length := by
      rw [Stripe.length_segment (sample 1 Nat.one_pos).stripeSize_pos]
      decide
    cases h 0 hstripes ⟨0, by decide⟩
  have hanswered := acknowledges_answered (sample 1 Nat.one_pos) [7]
  have hfits : (sample 1 Nat.one_pos).Fits [7] := fun h => absurd h.1 (by decide)
  have hretry := split_retry (sample 1 Nat.one_pos) [7] ⟨.empty, .empty⟩ .empty
    ⟨16, ChunkService.standardTimeout⟩ [.unanswered] .answered hvacant hentry hdistinct
    (List.forall_mem_singleton.mpr hlost) hanswered
  rw [if_pos hfits] at hretry
  obtain ⟨hrun, report, hreport, hnew, -⟩ := hretry
  exact ⟨hvacant, hentry, hdistinct, hlost, hanswered, report, by rw [hrun, hreport], hnew⟩

/-- The directory of the documents, with a directory in the place of a content's temporary file. -/
def blocked (content : Bytes) : FileTree :=
  (FileTree.empty.put ["metadata"] .directory).put
    ["metadata", (Digest.of content).hex ++ ".json.tmp"] .directory

theorem opens_blocked (content : Bytes) :
    Documents.sample.Opens (blocked content) (blocked content) ["metadata"] := by
  have hdirectory : FileTree.entry? (blocked content) ["metadata"] = some .directory := by
    rw [blocked, FileTree.entry?_put_of_ne _ _ (by simp), FileTree.entry?_put_self _ _ (by simp)]
  have hlocated : Documents.sample.root.segments.foldlM (blocked content).follow [] =
      .ok ["metadata"] := rfl
  exact ⟨⟨rfl, by decide⟩, FileTree.createAlong_of_foldlM hlocated hdirectory, hlocated,
    hdirectory⟩

theorem entry?_blocked (content : Bytes) :
    FileTree.entry? (blocked content) (["metadata"] ++ [(Digest.of content).hex ++ ".json"]) =
      none := by
  have hne := Documents.document_ne_temporary (Digest.of content).hex (Digest.of content).hex
  rw [blocked, FileTree.entry?_put_of_ne _ _ (by simp [hne]),
    FileTree.entry?_put_of_ne _ _ (by simp)]
  simp [FileTree.entry?, FileTree.empty]

/-- Not even an attempt whose calls would all be acknowledged gives a report above the largest
    stripe size, nor where a directory is in the place of the temporary file. -/
theorem split_retry_no_report :
    (let splitter := sample (2 ^ 63) (by decide)
      let start : Storage MemoryChunks × Registry := (⟨.empty, .empty⟩, .empty)
      splitter.documents.Vacant start.1.files (Digest.of [0]).hex ∧
        start.2.get? (Digest.of [0]).hex = none ∧
        Set.InjOn Digest.of {data | data ∈ splitter.chunks [0]} ∧
        splitter.Acknowledges [0] .answered ∧
        ∀ report, (splitter.tries [0] start .answered).1 ≠ .ok report) ∧
    (let splitter := sample 1 Nat.one_pos
      let start : Storage MemoryChunks × Registry := (⟨.empty, blocked [7]⟩, .empty)
      start.1.files.exists? (splitter.documents.path (Digest.of [7]).hex) = .ok false ∧
        start.2.get? (Digest.of [7]).hex = none ∧
        Set.InjOn Digest.of {data | data ∈ splitter.chunks [7]} ∧
        splitter.Acknowledges [7] .answered ∧
        ∀ report, (splitter.tries [7] start .answered).1 ≠ .ok report) := by
  have hentry (digest : Digest) : Registry.empty.get? digest.hex = none := by
    simp [Registry.get?, Registry.empty]
  constructor
  · intro splitter start
    refine ⟨Documents.vacant_of_fresh Documents.fresh_sample _, hentry _,
      injOn_chunks_sample _ (by simp) (by decide), acknowledges_answered splitter [0],
      fun report h => ?_⟩
    have hfits : ¬ splitter.Fits [0] := not_not.mpr ⟨by decide, by decide⟩
    rw [splitter.tries_of_not_fits hfits] at h
    cases h
  · intro splitter start
    have hanswered := acknowledges_answered splitter [7]
    refine ⟨(opens_blocked [7]).exists?_path (entry?_blocked [7]), hentry _,
      injOn_chunks_sample _ (by simp) (by decide), hanswered, fun report h => ?_⟩
    have hfits : splitter.Fits [7] := fun h => absurd h.1 (by decide)
    have hpersist : splitter.documents.persist start.1.files (splitter.record [7]) =
        (.error (.ofFile .isADirectory), blocked [7]) :=
      (opens_blocked [7]).persist_of_blocked rfl (entry?_blocked [7])
        (FileTree.entry?_put_self _ _ (by simp))
    rw [splitter.tries_of_refused hfits hanswered hpersist] at h
    cases h

end Splitter

end ShardVault
