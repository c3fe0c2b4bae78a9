import ShardVault.Node
import ShardVault.Proofs.Chunk.Directory
import ShardVault.Proofs.Documents.Change
import ShardVault.Proofs.Split.Stored

/-!
Storing chunks where documents are kept, too.  Whatever becomes of the calls, the documents stay,
and so do the chunks that were there (`Stores`); if no call fails, the chunks of the calls are there
as well (`stores_storeStripes`).
-/

namespace ShardVault

/-- A node splits as its splitter does. -/
theorem Node.split_eq (node : Node) (files : FileTree) (now : Instant) (content : Bytes) :
    node.split files now content =
      let (result, storage, registry) :=
        node.splitter.split node.client now (node.storage files) node.registry content
      (result.mapError (Stop.map fun cause => .service (.storage cause)),
        { node with chunks := storage.chunks, registry }, storage.files) := by
  simp only [Node.split, SplitService.split, Node.splitService]
  rcases (node.splitter.split node.client now (node.storage files) node.registry content).1 with
    (cause | _) | report <;> rfl

/-- Where nodes keep their chunks and their documents. -/
structure Site where
  storagePath : String
  metadataPath : String

namespace Site

open FileTree (Ground Changes)
open ChunkDirectory (hidden not_mem_hidden goodName_hex)

variable (site : Site)

/-- The directory of the chunks. -/
def chunkRoot : Path :=
  .ofText site.storagePath

/-- The path of a chunk. -/
def chunkPath (digest : Digest) : Path :=
  site.chunkRoot.child digest.hex

/-- The documents. -/
def documents : Documents :=
  ⟨.ofText site.metadataPath⟩

/-- The files once both directories are made. -/
def prepare (files : FileTree) : Except FileFault Unit × FileTree :=
  match files.createDirectories site.chunkRoot with
  | (.error fault, files) => (.error fault, files)
  | (.ok (), files) => files.createDirectories site.documents.root

/-- Both directories are there or can be made, and there is no document. -/
structure Vacant (files : FileTree) : Prop where
  made : (site.prepare files).1 = .ok ()
  empty : ∃ names, (site.prepare files).2.names? site.documents.root = some names ∧
    ∀ digest : Digest, digest.hex ++ ".json" ∉ names

/-- In a prepared tree both directories are there, at these places, and there is no document. -/
structure Grounded (prepared : FileTree) (chunkPlace documentPlace : Place) : Prop where
  chunks : Ground prepared site.chunkRoot chunkPlace
  documents : Ground prepared site.documents.root documentPlace
  vacant : ∀ digest : Digest, prepared.entry? (documentPlace ++ [digest.hex ++ ".json"]) = none

variable {site}

/-- The tree in which both directories are made is prepared. -/
theorem Vacant.grounded {files : FileTree} (h : site.Vacant files) :
    ∃ prepared chunkPlace documentPlace, files.Extends prepared ∧
      site.Grounded prepared chunkPlace documentPlace := by
  obtain ⟨hmade, names, hnames, hvacant⟩ := h
  unfold prepare at hmade hnames
  split at hmade
  · cases hmade
  · rename_i made hchunks
    simp only [hchunks] at hnames
    cases hdocuments : made.createDirectories site.documents.root with
    | mk result prepared =>
      rw [hdocuments] at hmade hnames
      cases hmade
      obtain ⟨hmadeExtends, chunkPlace, hchunkGround, -⟩ :=
        FileTree.ground_of_createDirectories hchunks
      obtain ⟨hextends, documentPlace, hground, hlocate⟩ :=
        FileTree.ground_of_createDirectories hdocuments
      refine ⟨prepared, chunkPlace, documentPlace, hmadeExtends.trans hextends,
        hchunkGround.of_keepsDirectories hextends.keepsDirectories, hground, fun digest => ?_⟩
      exact FileTree.entry?_of_not_mem_names? hnames hlocate hground.isDirectory (hvacant digest)

/-! ## Places -/

theorem place_ne_of_size {directory other : Place} {name name' : String}
    (h : name.utf8ByteSize ≠ name'.utf8ByteSize) : directory ++ [name] ≠ other ++ [name'] := by
  intro heq
  obtain ⟨-, hname⟩ := List.append_inj' heq rfl
  rw [List.singleton_inj.mp hname] at h
  exact h rfl

theorem chunk_ne_document (directory other : Place) (digest own : Digest) :
    directory ++ [digest.hex] ≠ other ++ [own.hex ++ ".json"] := by
  apply place_ne_of_size
  rw [Digest.utf8ByteSize_hex, Documents.utf8ByteSize_document]
  decide

theorem chunk_ne_temporary (directory other : Place) (digest own : Digest) :
    directory ++ [digest.hex] ≠ other ++ [own.hex ++ ".json.tmp"] := by
  apply place_ne_of_size
  rw [Digest.utf8ByteSize_hex, Documents.utf8ByteSize_temporary]
  decide

/-! ## Chunks -/

/-- Chunks are stored: the documents stay, none is added, and of known chunks those that were there
    stay. -/
structure Stores (site : Site) (prepared : FileTree) (documentPlace : Place) (known : Set Bytes)
    (tree grown : FileTree) : Prop where
  within : grown.KeepsDirectories prepared
  keeps : tree.KeepsDirectories grown
  absent : ∀ digest : Digest, tree.entry? (documentPlace ++ [digest.hex ++ ".json"]) = none →
    grown.entry? (documentPlace ++ [digest.hex ++ ".json"]) = none
  document : ∀ (digest : Digest) text, tree.read (site.documents.path digest.hex) = .ok text →
    grown.read (site.documents.path digest.hex) = .ok text
  chunk : ∀ data ∈ known, tree.read (site.chunkPath (Digest.of data)) = .ok data →
    grown.read (site.chunkPath (Digest.of data)) = .ok data

variable {prepared : FileTree} {chunkPlace documentPlace : Place}
  {known : Set Bytes} {tree grown full : FileTree}

theorem Stores.refl (hwithin : tree.KeepsDirectories prepared) :
    site.Stores prepared documentPlace known tree tree :=
  ⟨hwithin, .refl tree, fun _ h => h, fun _ _ h => h, fun _ _ h => h⟩

theorem Stores.trans (h : site.Stores prepared documentPlace known tree grown)
    (h' : site.Stores prepared documentPlace known grown full) :
    site.Stores prepared documentPlace known tree full where
  within := h'.within
  keeps := h.keeps.trans h'.keeps
  absent digest hnone := h'.absent digest (h.absent digest hnone)
  document digest text hread := h'.document digest text (h.document digest text hread)
  chunk data hdata hread := h'.chunk data hdata (h.chunk data hdata hread)

section Storing

variable (hsite : site.Grounded prepared chunkPlace documentPlace)
  (hdistinct : Set.InjOn Digest.of known)

include hsite

/-- What touches no document stores, if it leaves the known chunks that it touches. -/
theorem stores_of_changes {touched : Set Place} (hchanges : Changes prepared touched tree grown)
    (hwithin : tree.KeepsDirectories prepared)
    (hdocument : ∀ digest : Digest, documentPlace ++ [digest.hex ++ ".json"] ∉ touched)
    (hchunk : ∀ data ∈ known, chunkPlace ++ [(Digest.of data).hex] ∈ touched →
      grown.read (site.chunkPath (Digest.of data)) = .ok data) :
    site.Stores prepared documentPlace known tree grown where
  within := hchanges.within
  keeps := hchanges.keeps
  absent digest := hchanges.absent _ (hdocument digest) (hsite.vacant digest)
  document digest _ hread := hchanges.read hsite.documents
    (Documents.goodName_document digest).plain hwithin (hdocument digest) hread
  chunk data hdata hread := by
    by_cases hmem : chunkPlace ++ [(Digest.of data).hex] ∈ touched
    · exact hchunk data hdata hmem
    · exact hchanges.read hsite.chunks (goodName_hex _).plain hwithin hmem hread

include hdistinct

/-- A call with a true claim for a known chunk stores, and if it succeeds the chunk is there. -/
theorem stores_storeChunk {storage : Storage ChunkDirectory} {request : StoreChunkRequest}
    (hroot : storage.chunks.root = site.chunkRoot)
    (hwithin : storage.files.KeepsDirectories prepared)
    (hclaim : request.chunkHash = (Digest.of request.chunkData).hex)
    (hdata : request.chunkData ∈ known) :
    let run := ChunkService.storeChunk storage request
    run.2.chunks.root = site.chunkRoot ∧
      site.Stores prepared documentPlace known storage.files run.2.files ∧
      (ChunkService.outcomeOf run.1 = .success →
        run.2.files.read (site.chunkPath (Digest.of request.chunkData)) =
          .ok request.chunkData) := by
  obtain ⟨data, claim⟩ := request
  obtain rfl : claim = (Digest.of data).hex := hclaim
  have hground : Ground prepared storage.chunks.root chunkPlace := by
    rw [hroot]
    exact hsite.chunks
  obtain ⟨hkept, hcases⟩ :=
    ChunkDirectory.put_cases storage hground hwithin (Digest.of data) data
  rw [hroot] at hkept
  simp only [ChunkService.storeChunk, Storage.storeChunk_of_true]
  cases hput : ChunkBackend.put storage (Digest.of data) data with
  | mk result after =>
    rw [hput] at hkept hcases
    rcases hcases with ⟨⟨cause, hcause⟩, hchanges⟩ | ⟨hok, hchanges, hread⟩
    · obtain rfl : result = .error cause := hcause
      refine ⟨hkept, ?_, fun hsuccess => by cases hsuccess⟩
      exact stores_of_changes hsite hchanges hwithin (fun _ => not_mem_hidden _ _ _ _)
        fun _ _ hmem => absurd hmem (ChunkDirectory.chunk_not_mem_hidden _ _ _)
    · obtain rfl : result = .ok () := hok
      have hown : after.files.read (site.chunkPath (Digest.of data)) = .ok data := by
        rw [chunkPath, ← hroot]
        exact hread
      refine ⟨hkept, ?_, fun _ => hown⟩
      refine stores_of_changes hsite hchanges hwithin (fun digest hmem => ?_)
        fun other hother hmem => ?_
      · rcases hmem with heq | hhidden
        · exact chunk_ne_document _ _ _ _ heq.symm
        · exact not_mem_hidden _ _ _ _ hhidden
      · rw [hdistinct hother hdata (ChunkDirectory.eq_of_mem_insert_hidden hmem)]
        exact hown

/-- Calls with true claims for known chunks store, and if all succeed their chunks are there. -/
theorem stores_storeAll {storage : Storage ChunkDirectory} {requests : List StoreChunkRequest}
    (hroot : storage.chunks.root = site.chunkRoot)
    (hwithin : storage.files.KeepsDirectories prepared)
    (hclaim : ∀ request ∈ requests, request.chunkHash = (Digest.of request.chunkData).hex)
    (hdata : ∀ request ∈ requests, request.chunkData ∈ known) :
    let run := ChunkService.storeAll storage requests
    run.2.chunks.root = site.chunkRoot ∧
      site.Stores prepared documentPlace known storage.files run.2.files ∧
      ((∀ outcome ∈ run.1, outcome = .success) → ∀ request ∈ requests,
        run.2.files.read (site.chunkPath (Digest.of request.chunkData)) =
          .ok request.chunkData) := by
  induction requests generalizing storage with
  | nil => exact ⟨hroot, .refl hwithin, fun _ request hmem => absurd hmem List.not_mem_nil⟩
  | cons request rest ih =>
    rw [List.forall_mem_cons] at hclaim hdata
    obtain ⟨hfirstRoot, hfirst, hread⟩ :=
      stores_storeChunk hsite hdistinct hroot hwithin hclaim.1 hdata.1
    obtain ⟨hrestRoot, hrest, hreads⟩ := ih hfirstRoot hfirst.within hclaim.2 hdata.2
    refine ⟨hrestRoot, hfirst.trans hrest, fun hsuccess => ?_⟩
    simp only [ChunkService.storeAll, List.forall_mem_cons] at hsuccess
    exact List.forall_mem_cons.mpr
      ⟨hrest.chunk _ hdata.1 (hread hsuccess.1), hreads hsuccess.2⟩

variable (splitter : Splitter) (service : ChunkService)

/-- Storing a stripe of known chunks stores, and if it succeeds its chunks are there. -/
theorem stores_storeStripe {storage : Storage ChunkDirectory} (index : Nat) {stripe : Bytes}
    (hroot : storage.chunks.root = site.chunkRoot)
    (hwithin : storage.files.KeepsDirectories prepared)
    (hdata : ∀ data ∈ splitter.scheme.chunks stripe, data ∈ known) :
    let run := splitter.storeStripe (service.client .none) storage index stripe
    run.2.chunks.root = site.chunkRoot ∧
      site.Stores prepared documentPlace known storage.files run.2.files ∧
      ((∃ failure, run.1 = .error failure) ∨
        (run.1 = .ok (Splitter.recordOf stripe (splitter.requests stripe)) ∧
          ∀ data ∈ splitter.scheme.chunks stripe,
            run.2.files.read (site.chunkPath (Digest.of data)) = .ok data)) := by
  rw [← splitter.map_chunkData_requests, List.forall_mem_map] at hdata
  have hstore := service.store_none_eq_storeAll storage index (splitter.requests stripe)
  have hlength := service.length_store .none storage index (splitter.requests stripe)
  obtain ⟨hkept, hstores, hreads⟩ := stores_storeAll hsite hdistinct hroot hwithin
    (fun request hrequest => splitter.chunkHash_of_mem_requests stripe hrequest) hdata
  rw [hstore] at hlength
  simp only [Splitter.storeStripe_eq, ChunkService.client, hstore]
  cases hfailures : Splitter.chunkFailures (splitter.requests stripe)
      (ChunkService.storeAll storage (splitter.requests stripe)).1 with
  | cons failure failures => exact ⟨hkept, hstores, .inl ⟨_, rfl⟩⟩
  | nil =>
    refine ⟨hkept, hstores, .inr ⟨rfl, ?_⟩⟩
    rw [← splitter.map_chunkData_requests, List.forall_mem_map]
    exact hreads ((Splitter.chunkFailures_eq_nil_iff hlength).mp hfailures)

/-- Storing stripes of known chunks stores, and if none fails their chunks are there. -/
theorem stores_storeStripes {storage : Storage ChunkDirectory} (index : Nat)
    {stripes : List Bytes} (hroot : storage.chunks.root = site.chunkRoot)
    (hwithin : storage.files.KeepsDirectories prepared)
    (hdata : ∀ data ∈ stripes.flatMap splitter.scheme.chunks, data ∈ known) :
    let run := splitter.storeStripes (service.client .none) storage index stripes
    run.2.chunks.root = site.chunkRoot ∧
      site.Stores prepared documentPlace known storage.files run.2.files ∧
      (Splitter.failuresOf run.1 ≠ [] ∨
        (run.1 = stripes.map (fun stripe =>
            .ok (Splitter.recordOf stripe (splitter.requests stripe))) ∧
          ∀ data ∈ stripes.flatMap splitter.scheme.chunks,
            run.2.files.read (site.chunkPath (Digest.of data)) = .ok data)) := by
  induction stripes generalizing storage index with
  | nil => exact ⟨hroot, .refl hwithin, .inr ⟨rfl, fun _ hmem => absurd hmem List.not_mem_nil⟩⟩
  | cons stripe rest ih =>
    rw [List.flatMap_cons, List.forall_mem_append] at hdata
    obtain ⟨hfirstRoot, hfirst, hresult⟩ :=
      stores_storeStripe hsite hdistinct splitter service index hroot hwithin hdata.1
    obtain ⟨hrestRoot, hrest, hresults⟩ := ih (index + 1) hfirstRoot hfirst.within hdata.2
    refine ⟨hrestRoot, hfirst.trans hrest, ?_⟩
    simp only [Splitter.storeStripes]
    rcases hresult with ⟨failure, hfailure⟩ | ⟨hok, hreads⟩
    · rw [hfailure]
      exact .inl (List.cons_ne_nil _ _)
    · rw [hok]
      rcases hresults with hfailed | ⟨hstored, hothers⟩
      · exact .inl hfailed
      · refine .inr ⟨by rw [hstored, List.map_cons], ?_⟩
        rw [List.flatMap_cons, List.forall_mem_append]
        exact ⟨fun data hmem => hrest.chunk data (hdata.1 data hmem) (hreads data hmem), hothers⟩

end Storing

end Site

end ShardVault
