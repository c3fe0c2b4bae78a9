import ShardVault.Proofs.Documents.Run
import ShardVault.Proofs.Split.Stored

/-!
Runs of a vault: splits, chunks stored by others, and damage, in any order.  Whatever happens to
the chunks, the documents stay those of the contents split so far (`keeps_run`).
-/

namespace ShardVault

/-- A splitter over a chunk service that keeps its chunks in memory. -/
structure Vault where
  splitter : Splitter
  service : ChunkService

namespace Vault

/-- What a vault works on. -/
structure State where
  storage : Storage MemoryChunks
  registry : Registry

/-- One thing that happens. -/
inductive Event
  | split (now : Instant) (content : Bytes)
  /-- Somebody stores a chunk, whatever the claim. -/
  | store (data : Bytes) (claim : String)
  /-- The chunk under a digest is lost. -/
  | forget (digest : Digest)
  /-- There are other bytes under a digest. -/
  | corrupt (digest : Digest) (data : Bytes)

/-- The content that is split. -/
def Event.content? : Event → Option Bytes
  | .split _ content => some content
  | _ => none

/-- The contents that are split, in order. -/
def contents (events : List Event) : List Bytes :=
  events.filterMap Event.content?

variable (vault : Vault)

/-- What an event leaves behind. -/
def step (state : State) : Event → State
  | .split now content =>
    let (_, storage, registry) := vault.splitter.split (vault.service.client .none) now
      state.storage state.registry content
    ⟨storage, registry⟩
  | .store data claim =>
    { state with storage := (ChunkService.storeChunk state.storage ⟨data, claim⟩).2 }
  | .forget digest =>
    { state with
      storage := { state.storage with chunks := state.storage.chunks.erase digest } }
  | .corrupt digest data =>
    { state with
      storage := { state.storage with chunks := state.storage.chunks.insert digest data } }

/-- What events leave behind that start with no chunks and no entries. -/
def run (files : FileTree) (events : List Event) : State :=
  events.foldl vault.step ⟨⟨.empty, files⟩, .empty⟩

/-! ## Documents -/

/-- The document under a digest once contents have been split: that of the first with the digest
    that fits. -/
def document? (contents : List Bytes) (digest : Digest) : Option String :=
  (contents.find? fun content =>
    decide (vault.splitter.Fits content ∧ Digest.of content = digest)).map fun content =>
      (vault.splitter.record content).document

/-- The contents among these that fit. -/
def fitting (contents : List Bytes) : List Bytes :=
  contents.filter fun content => decide (vault.splitter.Fits content)

/-- The documents are those of the contents. -/
def Keeps (contents : List Bytes) (files : FileTree) : Prop :=
  ∃ prepared directory, vault.splitter.documents.Holds files prepared directory
    (vault.document? contents)

variable {vault}

theorem fitting_concat_of_fits (contents : List Bytes) {content : Bytes}
    (h : vault.splitter.Fits content) :
    vault.fitting (contents ++ [content]) = vault.fitting contents ++ [content] := by
  rw [fitting, List.filter_append, List.filter_singleton, decide_eq_true h, cond_true,
    ← fitting]

theorem fitting_concat_of_not_fits (contents : List Bytes) {content : Bytes}
    (h : ¬ vault.splitter.Fits content) :
    vault.fitting (contents ++ [content]) = vault.fitting contents := by
  rw [fitting, List.filter_append, List.filter_singleton, decide_eq_false h, cond_false,
    List.append_nil, ← fitting]

/-- The documents are those of the first records. -/
theorem document?_eq_texts (contents : List Bytes) :
    vault.document? contents =
      Documents.texts ((vault.fitting contents).map vault.splitter.record) := by
  funext digest
  have hown (content : Bytes) :
      (vault.splitter.record content).fileHash = digest.hex ↔ Digest.of content = digest :=
    Digest.hex_inj
  rw [document?, Documents.texts, Documents.first?, fitting, List.find?_map, List.find?_filter,
    Option.map_map]
  simp [Function.comp_def, hown]

/-- A content that does not fit adds no document. -/
theorem Keeps.append_of_not_fits {contents : List Bytes} {files : FileTree} {content : Bytes}
    (h : vault.Keeps contents files) (hcontent : ¬ vault.splitter.Fits content) :
    vault.Keeps (contents ++ [content]) files := by
  rw [Keeps, document?_eq_texts, fitting_concat_of_not_fits contents hcontent,
    ← document?_eq_texts]
  exact h

/-- A content gets its document, unless another has it already. -/
theorem Keeps.append_of_fits {contents : List Bytes} {files : FileTree} {content : Bytes}
    (h : vault.Keeps contents files) (hcontent : vault.splitter.Fits content) :
    vault.Keeps (contents ++ [content])
      (vault.splitter.documents.persist files (vault.splitter.record content)).2 := by
  obtain ⟨prepared, directory, hholds⟩ := h
  rw [document?_eq_texts] at hholds
  rw [Keeps, document?_eq_texts, fitting_concat_of_fits contents hcontent, List.map_append,
    List.map_singleton]
  rcases hholds.persist_cases (vault.splitter.record content) rfl with
    ⟨-, hrun, hgrown⟩ | ⟨-, -, hrun, hsame⟩
  · rw [hrun]
    exact ⟨_, directory, hgrown⟩
  · rw [hrun]
    exact ⟨prepared, directory, hsame⟩

theorem files_storeChunk (storage : Storage MemoryChunks) (request : StoreChunkRequest) :
    (ChunkService.storeChunk storage request).2.files = storage.files := by
  have hfiles : (storage.storeChunk request.chunkData request.chunkHash).2.files =
      storage.files := by
    simp only [Storage.storeChunk]
    split
    · rfl
    · split <;> rfl
  simp only [ChunkService.storeChunk]
  cases (storage.storeChunk request.chunkData request.chunkHash).1 <;> exact hfiles

theorem chunks_step_split {state : State} {now : Instant} {content : Bytes}
    (h : vault.splitter.Fits content) :
    (vault.step state (.split now content)).storage.chunks =
      vault.splitter.keepStripes state.storage.chunks
        (Stripe.segment vault.splitter.stripeSize content) := by
  simp only [step, vault.splitter.split_memory vault.service now _ _ h, Splitter.storage_publish]

/-- Every event keeps the documents; a split adds one at most. -/
theorem keeps_step {contents : List Bytes} {state : State} (event : Event)
    (h : vault.Keeps contents state.storage.files) :
    vault.Keeps (contents ++ event.content?.toList) (vault.step state event).storage.files := by
  cases event with
  | split now content =>
    by_cases hcontent : vault.splitter.Fits content
    · simp only [step, vault.splitter.split_memory vault.service now _ _ hcontent,
        Splitter.storage_publish]
      exact h.append_of_fits hcontent
    · simp only [step, vault.splitter.split_of_not_fits _ now _ _ hcontent]
      exact h.append_of_not_fits hcontent
  | store data claim =>
    simp only [Event.content?, Option.toList_none, List.append_nil, step, files_storeChunk]
    exact h
  | forget digest =>
    simp only [Event.content?, Option.toList_none, List.append_nil, step]
    exact h
  | corrupt digest data =>
    simp only [Event.content?, Option.toList_none, List.append_nil, step]
    exact h

/-- The documents of a run are those of the contents split in it. -/
theorem keeps_run {files : FileTree}
    (h : files.Fresh vault.splitter.documents.root Documents.maxName) (events : List Event) :
    vault.Keeps (contents events) (vault.run files events).storage.files := by
  have hfold : ∀ (before : List Bytes) (state : State), vault.Keeps before state.storage.files →
      vault.Keeps (before ++ contents events) (events.foldl vault.step state).storage.files := by
    induction events with
    | nil =>
      intro before state hstate
      rwa [contents, List.filterMap_nil, List.append_nil]
    | cons event rest ih =>
      intro before state hstate
      have hnext := ih _ _ (keeps_step event hstate)
      rw [List.append_assoc] at hnext
      have hcontents : contents (event :: rest) = event.content?.toList ++ contents rest := by
        rw [contents, List.filterMap_cons, contents]
        cases event.content? <;> rfl
      rw [hcontents]
      exact hnext
  exact hfold [] ⟨⟨.empty, files⟩, .empty⟩ (Documents.exists_holds_of_fresh h)

end Vault

end ShardVault
