import ShardVault.Proofs.Node.Site

/-!
Sites where no operation on files can fail: both directories are there, their paths have room for
the names in them, and no directory is in the way of a file (`Ready`).  There every split of a
content that fits succeeds (`Ready.split`).
-/

namespace ShardVault.Site

open FileTree (Ground HasRoom)

/-- Both directories are there, with room for files. -/
structure Ready (site : Site) (tree : FileTree) (chunkPlace documentPlace : Place) : Prop where
  chunks : Ground tree site.chunkRoot chunkPlace
  documents : Ground tree site.documents.root documentPlace
  chunkRoom : HasRoom site.chunkRoot ChunkDirectory.maxName
  documentRoom : HasRoom site.documents.root Documents.maxName
  chunkFree : ∀ name, tree.entry? (chunkPlace ++ [name]) ≠ some .directory
  documentFree : ∀ name, tree.entry? (documentPlace ++ [name]) ≠ some .directory

variable {site : Site} {tree grown : FileTree} {chunkPlace documentPlace : Place}
  {storage : Storage ChunkDirectory}

/-- A tree with the same directories is as ready. -/
theorem Ready.of_keepsDirectories (h : site.Ready tree chunkPlace documentPlace)
    (hkeeps : tree.KeepsDirectories grown) (hwithin : grown.KeepsDirectories tree) :
    site.Ready grown chunkPlace documentPlace where
  chunks := h.chunks.of_keepsDirectories hkeeps
  documents := h.documents.of_keepsDirectories hkeeps
  chunkRoom := h.chunkRoom
  documentRoom := h.documentRoom
  chunkFree name hentry := h.chunkFree name (hwithin _ hentry)
  documentFree name hentry := h.documentFree name (hwithin _ hentry)

/-! ## Chunks -/

/-- Chunks go to the site, and the site is ready for them. -/
structure Serves (site : Site) (chunkPlace documentPlace : Place)
    (storage : Storage ChunkDirectory) : Prop where
  root : storage.chunks.root = site.chunkRoot
  ready : site.Ready storage.files chunkPlace documentPlace

theorem Serves.storeChunk (h : site.Serves chunkPlace documentPlace storage)
    {request : StoreChunkRequest}
    (hclaim : request.chunkHash = (Digest.of request.chunkData).hex) :
    let run := ChunkService.storeChunk storage request
    ChunkService.outcomeOf run.1 = .success ∧ site.Serves chunkPlace documentPlace run.2 := by
  obtain ⟨data, claim⟩ := request
  obtain rfl : claim = (Digest.of data).hex := hclaim
  obtain ⟨hroot, hready⟩ := h
  have hground : Ground storage.files storage.chunks.root chunkPlace := hroot ▸ hready.chunks
  have hput := ChunkDirectory.put_eq_ok storage hground (hroot ▸ hready.chunkRoom)
    hready.chunkFree (Digest.of data) data
  obtain ⟨hkept, hcases⟩ :=
    ChunkDirectory.put_cases storage hground (.refl _) (Digest.of data) data
  simp only [ChunkService.storeChunk, Storage.storeChunk_of_true]
  cases hrun : ChunkBackend.put storage (Digest.of data) data with
  | mk result after =>
    rw [hrun] at hput hkept hcases
    obtain rfl : result = .ok () := hput
    rcases hcases with ⟨⟨cause, hcause⟩, -⟩ | ⟨-, hchanges, -⟩
    · cases hcause
    · exact ⟨rfl, hkept.trans hroot, hready.of_keepsDirectories hchanges.keeps hchanges.within⟩

theorem Serves.storeAll (h : site.Serves chunkPlace documentPlace storage)
    {requests : List StoreChunkRequest}
    (hclaim : ∀ request ∈ requests, request.chunkHash = (Digest.of request.chunkData).hex) :
    let run := ChunkService.storeAll storage requests
    (∀ outcome ∈ run.1, outcome = .success) ∧ site.Serves chunkPlace documentPlace run.2 := by
  induction requests generalizing storage with
  | nil => exact ⟨nofun, h⟩
  | cons request rest ih =>
    rw [List.forall_mem_cons] at hclaim
    obtain ⟨hsuccess, hserves⟩ := h.storeChunk hclaim.1
    obtain ⟨hall, hrest⟩ := ih hserves hclaim.2
    simp only [ChunkService.storeAll, List.forall_mem_cons]
    exact ⟨⟨hsuccess, hall⟩, hrest⟩

variable (splitter : Splitter) (service : ChunkService)

theorem Serves.storeStripe (h : site.Serves chunkPlace documentPlace storage) (index : Nat)
    (stripe : Bytes) :
    let run := splitter.storeStripe (service.client .none) storage index stripe
    run.1 = .ok (Splitter.recordOf stripe (splitter.requests stripe)) ∧
      site.Serves chunkPlace documentPlace run.2 := by
  have hstore := service.store_none_eq_storeAll storage index (splitter.requests stripe)
  have hlength := service.length_store .none storage index (splitter.requests stripe)
  obtain ⟨hall, hserves⟩ := h.storeAll fun request hrequest =>
    splitter.chunkHash_of_mem_requests stripe hrequest
  rw [hstore] at hlength
  have hnone := (Splitter.chunkFailures_eq_nil_iff hlength).mpr hall
  simp only [Splitter.storeStripe_eq, ChunkService.client, hstore, hnone]
  exact ⟨trivial, hserves⟩

theorem Serves.storeStripes (h : site.Serves chunkPlace documentPlace storage) (index : Nat)
    (stripes : List Bytes) :
    let run := splitter.storeStripes (service.client .none) storage index stripes
    run.1 = stripes.map (fun stripe =>
        .ok (Splitter.recordOf stripe (splitter.requests stripe))) ∧
      site.Serves chunkPlace documentPlace run.2 := by
  induction stripes generalizing storage index with
  | nil => exact ⟨rfl, h⟩
  | cons stripe rest ih =>
    obtain ⟨hok, hserves⟩ := h.storeStripe splitter service index stripe
    obtain ⟨hall, hrest⟩ := ih hserves (index + 1)
    simp only [Splitter.storeStripes, hok, hall, List.map_cons]
    exact ⟨trivial, hrest⟩

/-! ## Documents -/

theorem Ready.opens (h : site.Ready tree chunkPlace documentPlace) :
    site.documents.Opens tree tree documentPlace where
  room := h.documentRoom
  created := FileTree.createAlong_of_foldlM h.documents.located h.documents.isDirectory
  located := h.documents.located
  isDirectory := h.documents.isDirectory

theorem Ready.persist (h : site.Ready tree chunkPlace documentPlace) {record : FileRecord}
    {digest : Digest} (hrecord : record.fileHash = digest.hex) :
    let run := site.documents.persist tree record
    (∃ existed, run.1 = .ok (site.documents.path digest.hex, existed)) ∧
      site.Ready run.2 chunkPlace documentPlace := by
  intro run
  rcases Documents.persist_cases h.documents (.refl tree) hrecord with
    ⟨⟨cause, hcause⟩, -⟩ | ⟨hrun, -⟩ | ⟨hok, -, hchanges, -⟩
  · exfalso
    have hlocate := h.opens.locate_path (.refl tree) digest
    obtain ⟨written, hwrite, -⟩ := h.opens.write hrecord (h.documentFree _) (h.documentFree _)
    simp only [Documents.persist, hrecord, FileTree.exists?, hlocate, hwrite] at hcause
    cases hexists : (tree.entry? (documentPlace ++ [digest.hex ++ ".json"])).isSome with
    | false =>
      rw [hexists] at hcause
      cases hcause
    | true =>
      rw [hexists] at hcause
      cases hcause
  · simp only [run, hrun]
    exact ⟨⟨true, rfl⟩, h⟩
  · exact ⟨⟨false, hok⟩, h.of_keepsDirectories hchanges.keeps hchanges.within⟩

/-! ## Splits -/

/-- On a site that is ready every split of a content that fits succeeds, and leaves the site
    ready. -/
theorem Ready.split {node : Node} (h : site.Ready tree chunkPlace documentPlace)
    (hroot : node.chunks.root = site.chunkRoot)
    (hdocuments : node.splitter.documents = site.documents) {content : Bytes}
    (hfits : node.splitter.Fits content) (now : Instant) :
    let run := node.split tree now content
    (∃ existed, run.1 = .ok (node.splitter.report content existed)) ∧
      site.Ready run.2.2 chunkPlace documentPlace := by
  have hserves : site.Serves chunkPlace documentPlace (node.storage tree) := ⟨hroot, h⟩
  obtain ⟨hall, hstored⟩ := hserves.storeStripes node.splitter node.service 0
    (Stripe.segment node.splitter.stripeSize content)
  cases hstripes : node.splitter.storeStripes (node.service.client .none) (node.storage tree) 0
      (Stripe.segment node.splitter.stripeSize content) with
  | mk results after =>
    rw [hstripes] at hall hstored
    obtain rfl : results = _ := hall
    obtain ⟨⟨existed, hok⟩, hready⟩ := hstored.ready.persist
      (rfl : (node.splitter.record content).fileHash = (Digest.of content).hex)
    rw [← hdocuments] at hok hready
    cases hpersisted : node.splitter.documents.persist after.files
        (node.splitter.record content) with
    | mk result files =>
      rw [hpersisted] at hok hready
      obtain rfl : result = _ := hok
      simp only [Node.split_eq, Node.client, node.splitter.split_of_fits _ _ _ _ hfits,
        node.splitter.storeContent_of_stored now node.registry hstripes,
        node.splitter.publish_of_persisted now node.registry hpersisted]
      exact ⟨⟨existed, rfl⟩, hready⟩

end ShardVault.Site
