import ShardVault.Proofs.Node.Site
import ShardVault.Proofs.Reconstruct.Complete
import ShardVault.Proofs.Reconstruct.Length

/-!
Nodes on one site, opened one after the other, each with settings of its own.  The document of a
content is that of the first split of it that succeeded, whichever node it was split by, and the
chunks that this document tells of stay (`sound_run`).
-/

namespace ShardVault

open FileTree (Changes)
open Reconstructor (Admissible)

/-! ## What was done -/

/-- Something that was done on a site. -/
inductive LogEntry
  | split (splitter : Splitter) (content : Bytes) (succeeded : Bool)
  /-- Somebody stored a chunk. -/
  | chunk (data : Bytes)

namespace LogEntry

/-- The byte strings that are hashed: contents, stripes and chunks. -/
def hashed : LogEntry → List Bytes
  | .split splitter content _ =>
    content :: (Stripe.segment splitter.stripeSize content ++ splitter.chunks content)
  | .chunk data => [data]

theorem mem_hashed_of_mem_segment {splitter : Splitter} {content stripe : Bytes}
    {succeeded : Bool} (h : stripe ∈ Stripe.segment splitter.stripeSize content) :
    stripe ∈ (split splitter content succeeded).hashed :=
  List.mem_cons_of_mem _ (List.mem_append_left _ h)

theorem mem_hashed_of_mem_chunks {splitter : Splitter} {content data : Bytes}
    {succeeded : Bool} (h : data ∈ splitter.chunks content) :
    data ∈ (split splitter content succeeded).hashed :=
  List.mem_cons_of_mem _ (List.mem_append_right _ h)

/-- The splitter of a split of a content that succeeded. -/
def maker? : LogEntry → Bytes → Option Splitter
  | .split splitter own true, content => if own = content then some splitter else none
  | _, _ => none

/-- What a split has done, unless it broke off. -/
def ofSplit? {ε : Type} (splitter : Splitter) (content : Bytes) :
    Except (Stop ε) SplitReport → Option LogEntry
  | .ok _ => some (.split splitter content true)
  | .error (.refused _) => some (.split splitter content false)
  | .error .crash => none

/-- It does not matter from where a failure is seen. -/
theorem ofSplit?_mapError {ε δ : Type} (splitter : Splitter) (content : Bytes) (see : ε → δ)
    (result : Except (Stop ε) SplitReport) :
    ofSplit? splitter content (result.mapError (Stop.map see)) =
      ofSplit? splitter content result := by
  cases result with
  | ok report => rfl
  | error stop => cases stop <;> rfl

/-- A split that does not break off has done something. -/
theorem ofSplit?_of_fits {κ : Type} {splitter : Splitter} {content : Bytes}
    (hfits : splitter.Fits content) (client : ChunkClient κ) (now : Instant) (storage : Storage κ)
    (registry : Registry) :
    ∃ succeeded, ofSplit? splitter content
        (splitter.split client now storage registry content).1 =
      some (.split splitter content succeeded) := by
  simp only [splitter.split_of_fits _ _ _ _ hfits]
  cases (splitter.storeContent client now storage registry content
      (Stripe.segment splitter.stripeSize content)).1 with
  | ok report => exact ⟨true, rfl⟩
  | error cause => exact ⟨false, rfl⟩

/-- What a call to store a chunk has done: nothing without a true claim. -/
def ofStore? (request : StoreChunkRequest) : Option LogEntry :=
  if request.chunkHash = (Digest.of request.chunkData).hex then some (.chunk request.chunkData)
  else none

end LogEntry

/-- The splitter of the first split of a content that succeeded. -/
def maker? (log : List LogEntry) (content : Bytes) : Option Splitter :=
  log.findSome? fun entry => entry.maker? content

variable {log : List LogEntry} {content : Bytes} {splitter : Splitter}

theorem maker?_append (log more : List LogEntry) (content : Bytes) :
    maker? (log ++ more) content = (maker? log content).or (maker? more content) := by
  rw [maker?, List.findSome?_append]
  rfl

theorem maker?_split (splitter : Splitter) (own content : Bytes) :
    maker? [.split splitter own true] content = if own = content then some splitter else none := by
  by_cases h : own = content <;> simp [maker?, LogEntry.maker?, h]

/-- What a content was first split by is in the log. -/
theorem mem_of_maker? (h : maker? log content = some splitter) :
    .split splitter content true ∈ log := by
  obtain ⟨entry, hentry, hmaker⟩ := List.exists_of_findSome?_eq_some h
  cases entry with
  | chunk data => cases hmaker
  | split own other succeeded =>
    cases succeeded with
    | false => cases hmaker
    | true =>
      rw [LogEntry.maker?] at hmaker
      split at hmaker
      · rename_i heq
        cases hmaker
        rwa [← heq]
      · cases hmaker

namespace Site

variable (site : Site)

/-! ## Sessions -/

/-- What nodes on a site have come to. -/
structure Session where
  /-- The node that is open, if there is one. -/
  node? : Option Node
  files : FileTree
  /-- What was done so far, in order. -/
  log : List LogEntry

/-- One thing that happens on a site. -/
inductive Event
  /-- A node is opened in place of the one that is open, with these settings but for the paths. -/
  | enter (writer : UInt32) (settings : Settings)
  | split (now : Instant) (content : Bytes)
  /-- Somebody calls the node to store a chunk. -/
  | store (request : StoreChunkRequest)

/-- What an event comes to.  Where no node is open nothing is split or stored, and a node that
    cannot be opened leaves the one that is open. -/
def step (session : Session) : Event → Session
  | .enter writer settings =>
    match Node.ofSettings writer
        { settings with storagePath := site.storagePath, metadataPath := site.metadataPath } with
    | .error _ => session
    | .ok node => { session with node? := some node }
  | .split now content =>
    match session.node? with
    | none => session
    | some node =>
      let (result, next, files) := node.split session.files now content
      ⟨some next, files, session.log ++ (LogEntry.ofSplit? node.splitter content result).toList⟩
  | .store request =>
    match session.node? with
    | none => session
    | some node =>
      let (_, next, files) := node.storeChunk session.files request
      ⟨some next, files, session.log ++ (LogEntry.ofStore? request).toList⟩

/-- What events come to. -/
def run (files : FileTree) (events : List Event) : Session :=
  events.foldl site.step ⟨none, files, []⟩

/-- The byte strings that are hashed up to the reconstruction of a content: contents, stripes and
    chunks, and the candidates among which the length is searched. -/
inductive Hashed (log : List LogEntry) (content : Bytes) : Bytes → Prop
  | entry {entry data} (hentry : entry ∈ log) (hdata : data ∈ entry.hashed) :
    Hashed log content data
  | candidate {splitter length} (hmaker : maker? log content = some splitter)
      (hlength : Admissible (Stripe.segment splitter.stripeSize content).flatten
        splitter.stripeSize length)
      (hle : length ≤ content.length) : Hashed log content (content.take length)

/-- A node keeps its chunks and its documents where the site has them. -/
structure Houses (node : Node) : Prop where
  chunks : node.chunks.root = site.chunkRoot
  documents : node.splitter.documents = site.documents

theorem houses_of_ofSettings {writer : UInt32} {settings : Settings} {node : Node}
    (h : Node.ofSettings writer
      { settings with storagePath := site.storagePath, metadataPath := site.metadataPath } =
        .ok node) : site.Houses node := by
  unfold Node.ofSettings at h
  split at h
  · cases h
  · split at h
    · cases h
    · split at h
      · cases h
      · rename_i splitter hsplitter
        cases h
        refine ⟨rfl, ?_⟩
        unfold Splitter.new at hsplitter
        split at hsplitter
        · cases hsplitter
        · split at hsplitter
          · cases hsplitter
          · cases hsplitter
            rfl

/-- For every content that was split there is the document of the first split that succeeded, with
    the chunks that it tells of, and there is no other document. -/
structure Keeps (prepared : FileTree) (documentPlace : Place) (log : List LogEntry)
    (tree : FileTree) : Prop where
  within : tree.KeepsDirectories prepared
  absent : ∀ digest : Digest,
    (∀ content splitter, maker? log content = some splitter → Digest.of content ≠ digest) →
      tree.entry? (documentPlace ++ [digest.hex ++ ".json"]) = none
  document : ∀ content splitter, maker? log content = some splitter →
    tree.read (site.documents.path (Digest.of content).hex) =
      .ok (Bytes.ofText (splitter.record content).document)
  chunk : ∀ content splitter, maker? log content = some splitter →
    ∀ data ∈ splitter.chunks content,
      tree.read (site.chunkPath (Digest.of data)) = .ok data

variable {site} {prepared : FileTree} {chunkPlace documentPlace : Place}
  {known : Set Bytes} {tree grown : FileTree}

/-- The document of a content is loaded as it was made. -/
theorem Keeps.load (h : site.Keeps prepared documentPlace log tree)
    (hmaker : maker? log content = some splitter) :
    site.documents.load tree (Digest.of content).hex = .ok (splitter.record content) :=
  Documents.load_of_read rfl (h.document content splitter hmaker)

/-- Storing chunks keeps what was made. -/
theorem Keeps.of_stores (h : site.Keeps prepared documentPlace log tree)
    (hstores : site.Stores prepared documentPlace known tree grown)
    (hknown : ∀ entry ∈ log, ∀ data ∈ entry.hashed, data ∈ known) :
    site.Keeps prepared documentPlace log grown where
  within := hstores.within
  absent digest hnew := hstores.absent digest (h.absent digest hnew)
  document content splitter hmaker :=
    hstores.document _ _ (h.document content splitter hmaker)
  chunk content splitter hmaker data hdata :=
    hstores.chunk data
      (hknown _ (mem_of_maker? hmaker) data (LogEntry.mem_hashed_of_mem_chunks hdata))
      (h.chunk content splitter hmaker data hdata)

/-- What was made is all that counts of what was done. -/
theorem Keeps.congr {other : List LogEntry} (h : site.Keeps prepared documentPlace log tree)
    (hsame : ∀ content, maker? other content = maker? log content) :
    site.Keeps prepared documentPlace other tree := by
  refine ⟨h.within, fun digest hnew => ?_, fun content splitter hmaker => ?_,
    fun content splitter hmaker => ?_⟩
  · simp only [hsame] at hnew
    exact h.absent digest hnew
  · rw [hsame] at hmaker
    exact h.document content splitter hmaker
  · rw [hsame] at hmaker
    exact h.chunk content splitter hmaker

/-! ## Documents -/

theorem chunk_not_mem_documents (directory other : Place) (digest own : Digest) :
    directory ++ [digest.hex] ∉
      ({other ++ [own.hex ++ ".json.tmp"], other ++ [own.hex ++ ".json"]} : Set Place) := by
  rintro (htemporary | hdocument)
  · exact chunk_ne_temporary _ _ _ _ htemporary
  · exact chunk_ne_document _ _ _ _ hdocument

theorem maker?_append_split (log : List LogEntry) (splitter : Splitter) (content own : Bytes) :
    maker? (log ++ [.split splitter content true]) own =
      (maker? log own).or (if content = own then some splitter else none) := by
  rw [maker?_append, maker?_split]

/-- A content that has a document keeps it when it is split again. -/
theorem Keeps.append_old (h : site.Keeps prepared documentPlace log tree)
    (hmade : maker? log content ≠ none) :
    site.Keeps prepared documentPlace (log ++ [.split splitter content true]) tree := by
  apply h.congr
  intro own
  rw [maker?_append_split]
  cases hown : maker? log own with
  | some first => rfl
  | none =>
    rw [if_neg, Option.or_none]
    rintro rfl
    exact hmade hown

section Persisting

variable (hsite : site.Grounded prepared chunkPlace documentPlace)

include hsite

/-- A content that has no document gets one. -/
theorem Keeps.append_new (h : site.Keeps prepared documentPlace log tree)
    (hnew : maker? log content = none)
    (hother : ∀ own first, maker? log own = some first → Digest.of content ≠ Digest.of own)
    (hchanges : Changes prepared
      {documentPlace ++ [(Digest.of content).hex ++ ".json.tmp"],
        documentPlace ++ [(Digest.of content).hex ++ ".json"]} tree grown)
    (hdocument : grown.read (site.documents.path (Digest.of content).hex) =
      .ok (Bytes.ofText (splitter.record content).document))
    (hchunks : ∀ data ∈ splitter.chunks content,
      grown.read (site.chunkPath (Digest.of data)) = .ok data) :
    site.Keeps prepared documentPlace (log ++ [.split splitter content true]) grown := by
  -- a content with a splitter is the new one, or it had one before
  have hcases {own : Bytes} {first : Splitter}
      (hmaker : maker? (log ++ [.split splitter content true]) own = some first) :
      (own = content ∧ first = splitter) ∨ maker? log own = some first := by
    rw [maker?_append_split] at hmaker
    by_cases heq : content = own
    · subst heq
      rw [hnew, if_pos rfl] at hmaker
      exact .inl ⟨rfl, (Option.some.inj hmaker).symm⟩
    · rw [if_neg heq, Option.or_none] at hmaker
      exact .inr hmaker
  refine ⟨hchanges.within, fun digest hdigest => ?_, fun own first hmaker => ?_,
    fun own first hmaker data hdata => ?_⟩
  · have hcontent : Digest.of content ≠ digest := by
      apply hdigest content splitter
      rw [maker?_append_split, hnew, if_pos rfl, Option.none_or]
    refine hchanges.absent _
      (Documents.not_mem_written _ (Digest.hex_injective.ne hcontent.symm)) (hsite.vacant digest)
      (h.absent digest fun own first hmaker => hdigest own first ?_)
    rw [maker?_append, hmaker, Option.some_or]
  · rcases hcases hmaker with ⟨rfl, rfl⟩ | hold
    · exact hdocument
    · exact hchanges.read hsite.documents (Documents.goodName_document _).plain h.within
        (Documents.not_mem_written _ (Digest.hex_injective.ne (hother own first hold).symm))
        (h.document own first hold)
  · rcases hcases hmaker with ⟨rfl, rfl⟩ | hold
    · exact hchunks data hdata
    · exact hchanges.read hsite.chunks (ChunkDirectory.goodName_hex _).plain h.within
        (chunk_not_mem_documents _ _ _ _) (h.chunk own first hold data hdata)

/-- Persisting the record of a content whose chunks are there keeps what was made, and if it
    succeeds it tells whether the content was made before. -/
theorem Keeps.persist (hdistinct : Set.InjOn Digest.of known)
    (h : site.Keeps prepared documentPlace log tree)
    (hknown : ∀ entry ∈ log, ∀ data ∈ entry.hashed, data ∈ known) (hcontent : content ∈ known)
    (hchunks : ∀ data ∈ splitter.chunks content,
      tree.read (site.chunkPath (Digest.of data)) = .ok data) :
    let run := site.documents.persist tree (splitter.record content)
    ((∃ cause, run.1 = .error cause) ∧ site.Keeps prepared documentPlace log run.2) ∨
      (run.1 = .ok (site.documents.path (Digest.of content).hex, (maker? log content).isSome) ∧
        site.Keeps prepared documentPlace (log ++ [.split splitter content true]) run.2 ∧
        ∀ data ∈ splitter.chunks content,
          run.2.read (site.chunkPath (Digest.of data)) = .ok data) := by
  intro run
  have hown {own : Bytes} {first : Splitter} (hmaker : maker? log own = some first)
      (hdigest : Digest.of own = Digest.of content) : own = content :=
    hdistinct (hknown _ (mem_of_maker? hmaker) own List.mem_cons_self) hcontent hdigest
  rcases Documents.persist_cases hsite.documents h.within
      (rfl : (splitter.record content).fileHash = (Digest.of content).hex) with
    ⟨hfailed, hchanges⟩ | ⟨hrun, hthere⟩ | ⟨hok, hexists, hchanges, hread⟩
  · refine .inl ⟨hfailed, h.of_stores ?_ hknown⟩
    refine stores_of_changes hsite hchanges h.within
      (fun _ => Documents.not_mem_temporary _ _ _) fun data _ hmem => ?_
    exact absurd hmem (chunk_ne_temporary _ _ _ _)
  · -- a document that is there was made by a split of this very content
    have hmade : maker? log content ≠ none := by
      intro hnew
      refine hthere (h.absent _ fun own first hmaker hdigest => ?_)
      rw [hown hmaker hdigest, hnew] at hmaker
      cases hmaker
    refine .inr ?_
    simp only [run, hrun]
    refine ⟨?_, h.append_old hmade, hchunks⟩
    rw [Option.isSome_iff_ne_none.mpr hmade]
  · -- where none is there, no split of this content has succeeded
    have hnew : maker? log content = none := by
      rw [Option.eq_none_iff_forall_ne_some]
      intro first hmaker
      have hthere := FileTree.exists?_of_read (h.document content first hmaker)
      rw [hexists] at hthere
      cases hthere
    have hstay (data : Bytes) (hdata : data ∈ splitter.chunks content) :
        run.2.read (site.chunkPath (Digest.of data)) = .ok data :=
      hchanges.read hsite.chunks (ChunkDirectory.goodName_hex _).plain h.within
        (chunk_not_mem_documents _ _ _ _) (hchunks data hdata)
    refine .inr ⟨?_, h.append_new hsite hnew (fun own first hmaker hdigest => ?_) hchanges hread
      hstay, hstay⟩
    · rw [hnew]
      exact hok
    · rw [hown hmaker hdigest.symm, hnew] at hmaker
      cases hmaker

end Persisting

/-! ## Splits -/

section Splitting

variable (hsite : site.Grounded prepared chunkPlace documentPlace)
  (hdistinct : Set.InjOn Digest.of known)

include hsite hdistinct

/-- A split of a content that fits reports a failure and keeps what was made, or it makes the
    content, leaves its chunks, and tells whether the content was made before. -/
theorem Keeps.split {storage : Storage ChunkDirectory}
    (hroot : storage.chunks.root = site.chunkRoot)
    (hdocuments : splitter.documents = site.documents)
    (h : site.Keeps prepared documentPlace log storage.files)
    (hknown : ∀ entry ∈ log, ∀ data ∈ entry.hashed, data ∈ known)
    (hhashed : ∀ data ∈ content ::
      (Stripe.segment splitter.stripeSize content ++ splitter.chunks content), data ∈ known)
    (hfits : splitter.Fits content) (service : ChunkService) (now : Instant)
    (registry : Registry) :
    let run := splitter.split (service.client .none) now storage registry content
    run.2.1.chunks.root = site.chunkRoot ∧
      (((∃ cause, run.1 = .error (.refused cause)) ∧
          site.Keeps prepared documentPlace log run.2.1.files) ∨
        (run.1 = .ok (splitter.report content (maker? log content).isSome) ∧
          site.Keeps prepared documentPlace (log ++ [.split splitter content true])
            run.2.1.files ∧
          ∀ data ∈ splitter.chunks content,
            run.2.1.files.read (site.chunkPath (Digest.of data)) = .ok data)) := by
  rw [List.forall_mem_cons, List.forall_mem_append] at hhashed
  obtain ⟨hcontent, -, hchunks⟩ := hhashed
  obtain ⟨hkept, hstores, hresults⟩ := stores_storeStripes hsite hdistinct splitter service 0
    hroot h.within hchunks
  have hkeeps := h.of_stores hstores hknown
  simp only [splitter.split_of_fits _ _ _ _ hfits]
  cases hstripes : splitter.storeStripes (service.client .none) storage 0
      (Stripe.segment splitter.stripeSize content) with
  | mk results after =>
    rw [hstripes] at hkept hkeeps hresults
    rcases hresults with hfailed | ⟨hstored, hreads⟩
    · rw [splitter.storeContent_of_failed now registry hstripes hfailed]
      exact ⟨hkept, .inl ⟨⟨_, rfl⟩, hkeeps⟩⟩
    · obtain rfl : results = _ := hstored
      rw [splitter.storeContent_of_stored now registry hstripes]
      have hpersist := hkeeps.persist hsite hdistinct hknown hcontent hreads
      rw [← hdocuments] at hpersist
      cases hpersisted : splitter.documents.persist after.files (splitter.record content) with
      | mk result files =>
        rw [hpersisted] at hpersist
        rcases hpersist with ⟨⟨cause, hcause⟩, hmade⟩ | ⟨hok, hmade, hstay⟩
        · obtain rfl : result = .error cause := hcause
          rw [splitter.publish_of_failed now registry content.length hpersisted]
          exact ⟨hkept, .inl ⟨⟨cause, rfl⟩, hmade⟩⟩
        · obtain rfl : result = _ := hok
          rw [splitter.publish_of_persisted now registry hpersisted]
          exact ⟨hkept, .inr ⟨rfl, hmade, hstay⟩⟩

/-- What a split by a node comes to. -/
theorem Keeps.split_node {node : Node} (hnode : site.Houses node)
    (h : site.Keeps prepared documentPlace log tree)
    (hknown : ∀ entry ∈ log, ∀ data ∈ entry.hashed, data ∈ known) (now : Instant) (content : Bytes)
    (hhashed : ∀ entry ∈ LogEntry.ofSplit? node.splitter content (node.split tree now content).1,
      ∀ data ∈ entry.hashed, data ∈ known) :
    let run := node.split tree now content
    let log' := log ++ (LogEntry.ofSplit? node.splitter content run.1).toList
    site.Houses run.2.1 ∧ site.Keeps prepared documentPlace log' run.2.2 ∧
      ∀ report, run.1 = .ok report →
        report = node.splitter.report content (maker? log content).isSome ∧
          ∀ data ∈ node.splitter.chunks content,
            run.2.2.read (site.chunkPath (Digest.of data)) = .ok data := by
  intro run log'
  by_cases hfits : node.splitter.Fits content
  · simp only [log', run, Node.split_eq, Node.client, LogEntry.ofSplit?_mapError] at hhashed ⊢
    obtain ⟨succeeded, hentry⟩ := LogEntry.ofSplit?_of_fits hfits (node.service.client .none) now
      (node.storage tree) node.registry
    have hroot : (node.storage tree).chunks.root = site.chunkRoot := hnode.chunks
    obtain ⟨hkept, hresult⟩ := Keeps.split hsite hdistinct hroot hnode.documents h hknown
      (hhashed _ hentry) hfits node.service now node.registry
    refine ⟨⟨hkept, hnode.documents⟩, ?_⟩
    rcases hresult with ⟨⟨cause, hcause⟩, hsame⟩ | ⟨hok, hmade, hreads⟩
    · rw [hcause]
      refine ⟨hsame.congr fun own => ?_, nofun⟩
      rw [maker?_append]
      exact Option.or_none
    · rw [hok]
      refine ⟨hmade, fun report hreport => ?_⟩
      cases hreport
      exact ⟨rfl, hreads⟩
  · have hcrash : run = (.error .crash, node, tree) := by
      simp only [run, Node.split_eq, node.splitter.split_of_not_fits _ now _ _ hfits]
      rfl
    simp only [log', hcrash, LogEntry.ofSplit?, Option.toList_none, List.append_nil]
    exact ⟨hnode, h, nofun⟩

/-- What a call to store a chunk comes to. -/
theorem Keeps.store_node {node : Node} (hnode : site.Houses node)
    (h : site.Keeps prepared documentPlace log tree)
    (hknown : ∀ entry ∈ log, ∀ data ∈ entry.hashed, data ∈ known) {request : StoreChunkRequest}
    (hhashed : ∀ entry ∈ LogEntry.ofStore? request, ∀ data ∈ entry.hashed, data ∈ known) :
    let run := node.storeChunk tree request
    site.Houses run.2.1 ∧
      site.Keeps prepared documentPlace (log ++ (LogEntry.ofStore? request).toList) run.2.2 := by
  intro run
  by_cases hclaim : request.chunkHash = (Digest.of request.chunkData).hex
  · rw [LogEntry.ofStore?, if_pos hclaim] at hhashed ⊢
    have hdata : request.chunkData ∈ known := hhashed _ rfl _ List.mem_cons_self
    have hroot : (node.storage tree).chunks.root = site.chunkRoot := hnode.chunks
    obtain ⟨hkept, hstores, -⟩ :=
      stores_storeChunk hsite hdistinct hroot h.within hclaim hdata
    refine ⟨⟨hkept, hnode.documents⟩, (h.of_stores hstores hknown).congr fun own => ?_⟩
    rw [maker?_append]
    exact Option.or_none
  · rw [LogEntry.ofStore?, if_neg hclaim, Option.toList_none, List.append_nil]
    have hrun : run = (.ok ⟨.failure⟩, node, tree) := by
      simp only [run, Node.storeChunk, ChunkService.storeChunk,
        Storage.storeChunk_of_false _ _ hclaim]
      rfl
    rw [hrun]
    exact ⟨hnode, h⟩

/-! ## Runs -/

/-- The node that is open keeps its files on the site, and the files are those of what was done. -/
structure Sound (site : Site) (prepared : FileTree) (documentPlace : Place) (session : Session) :
    Prop where
  houses : ∀ node, session.node? = some node → site.Houses node
  keeps : site.Keeps prepared documentPlace session.log session.files

/-- Every event keeps what was made. -/
theorem Sound.step {session : Session} (h : site.Sound prepared documentPlace session)
    (event : Event)
    (hknown : ∀ entry ∈ (site.step session event).log, ∀ data ∈ entry.hashed, data ∈ known) :
    site.Sound prepared documentPlace (site.step session event) := by
  cases event with
  | enter writer settings =>
    simp only [Site.step] at hknown ⊢
    split
    · exact h
    · rename_i node hopened
      refine ⟨fun other hother => ?_, h.keeps⟩
      cases hother
      exact site.houses_of_ofSettings hopened
  | split now content =>
    simp only [Site.step] at hknown ⊢
    cases hopen : session.node? with
    | none => exact h
    | some node =>
      rw [hopen] at hknown
      simp only [List.forall_mem_append] at hknown
      obtain ⟨hhouses, hkeeps, -⟩ := Keeps.split_node hsite hdistinct (h.houses node hopen) h.keeps
        hknown.1 now content fun entry hentry => hknown.2 entry (Option.mem_toList.mpr hentry)
      refine ⟨fun other hother => ?_, hkeeps⟩
      cases hother
      exact hhouses
  | store request =>
    simp only [Site.step] at hknown ⊢
    cases hopen : session.node? with
    | none => exact h
    | some node =>
      rw [hopen] at hknown
      simp only [List.forall_mem_append] at hknown
      obtain ⟨hhouses, hkeeps⟩ := Keeps.store_node hsite hdistinct (h.houses node hopen) h.keeps
        hknown.1 fun entry hentry => hknown.2 entry (Option.mem_toList.mpr hentry)
      refine ⟨fun other hother => ?_, hkeeps⟩
      cases hother
      exact hhouses

end Splitting

theorem log_subset_step (session : Session) (event : Event) :
    session.log ⊆ (site.step session event).log := by
  cases event with
  | enter writer settings =>
    simp only [step]
    split <;> exact List.Subset.refl _
  | split now content =>
    simp only [step]
    split
    · exact List.Subset.refl _
    · exact List.subset_append_left _ _
  | store request =>
    simp only [step]
    split
    · exact List.Subset.refl _
    · exact List.subset_append_left _ _

/-- Before anything is done there is nothing to be kept. -/
theorem sound_start (hsite : site.Grounded prepared chunkPlace documentPlace)
    (hextends : tree.Extends prepared) :
    site.Sound prepared documentPlace ⟨none, tree, []⟩ where
  houses := nofun
  keeps := by
    refine ⟨hextends.keepsDirectories, fun digest _ => ?_, nofun, nofun⟩
    cases hentry : tree.entry? (documentPlace ++ [digest.hex ++ ".json"]) with
    | none => rfl
    | some entry =>
      have hprepared := hextends _ _ hentry
      rw [hsite.vacant digest] at hprepared
      cases hprepared

/-- Whatever happens on a site, what was made is kept. -/
theorem sound_run (hsite : site.Grounded prepared chunkPlace documentPlace)
    (hextends : tree.Extends prepared) (hdistinct : Set.InjOn Digest.of known)
    (events : List Event)
    (hknown : ∀ entry ∈ (site.run tree events).log, ∀ data ∈ entry.hashed, data ∈ known) :
    site.Sound prepared documentPlace (site.run tree events) := by
  -- from the last event back, since what has no collision is the log as it is in the end
  induction events using List.reverseRecOn with
  | nil => exact sound_start hsite hextends
  | append_singleton events event ih =>
    rw [run, List.foldl_concat, ← run] at hknown ⊢
    have hbefore := ih fun entry hentry => hknown entry (log_subset_step _ event hentry)
    exact hbefore.step hsite hdistinct event hknown

end Site

end ShardVault
