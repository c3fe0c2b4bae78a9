import ShardVault.Proofs.Node.Ready
import ShardVault.Proofs.Node.Session
import ShardVault.Proofs.Reconstruct.Complete
import ShardVault.Proofs.Reconstruct.Soundness

/-!
What a node gives back of a content that it has split.  There is one document for all nodes on a
site, the one that the first split of the content made.  A node whose scheme is that of the document
gives the content back, one with another number of shards refuses the document, and whatever a
node gives back has the content's digest (`load_reconstruct_split`).
-/

namespace ShardVault

open Reconstructor (Admissible)

/-! ## Stripes of another number of shards -/

/-- Slots for another number of shards give no stripe. -/
theorem Reconstructor.reconstructStripe_of_count {reconstructor : Reconstructor}
    {record : StripeRecord} {slots : List (Option Bytes)}
    (hslots : slots.length = record.chunks.length)
    (hcount : record.chunks.length ≠ reconstructor.scheme.n) :
    reconstructor.reconstructStripe record slots =
      .error (.shardCountMismatch reconstructor.scheme.n record.chunks.length) := by
  have hlength : (verified record slots).length = record.chunks.length := by
    simp [verified, StripeRecord.chunkHashes, hslots]
  have hdecode : reconstructor.scheme.decode (verified record slots) =
      .error (.slotCount reconstructor.scheme.n record.chunks.length) := by
    simp only [Scheme.decode, Scheme.decodePadded, hlength, if_pos hcount]
  rw [reconstructStripe, if_neg (not_not.mpr hslots), hdecode]
  rfl

namespace Site

variable {site : Site} {node : Node} {tree : FileTree} {content : Bytes}

/-- A content is given back if all chunks that its document tells of are there, and no shorter
    candidate has its digest. -/
theorem reconstruct_of_reads (hnode : site.Houses node) {size : Nat} (hsize : 0 < size)
    (hload : site.documents.load tree (Digest.of content).hex =
      .ok (.new (Digest.of content)
        ((Stripe.segment size content).map node.splitter.scheme.stripeRecord)))
    (hreads : ∀ data ∈ (Stripe.segment size content).flatMap node.splitter.scheme.chunks,
      tree.read (site.chunkPath (Digest.of data)) = .ok data)
    (hleast : ∀ shorter < content.length,
      Admissible (Stripe.segment size content).flatten size shorter →
        Digest.of (content.take shorter) ≠ Digest.of content) :
    node.reconstruct tree (Digest.of content).hex = .ok content := by
  have hheld {stripe : Bytes} (hstripe : stripe ∈ Stripe.segment size content) {shard : Shard}
      (hshard : shard ∈ node.splitter.scheme.encode stripe) :
      ChunkService.reply (node.storage tree) ⟨(Digest.of shard.data).hex⟩ = some shard.data := by
    apply ChunkDirectory.reply_of_read
    have hread := hreads shard.data
      (List.mem_flatMap.mpr ⟨stripe, hstripe, List.mem_map_of_mem hshard⟩)
    rw [chunkPath, ← hnode.chunks] at hread
    exact hread
  have hrebuilt : node.reconstructor.reconstruct node.client (node.storage tree)
      (Digest.of content).hex = .ok content := by
    refine Reconstructor.reconstruct_of_intact (node.service.answers_none (node.storage tree))
      hsize ?_ (fun stripe hstripe shard hshard data hdata => ?_) (fun stripe hstripe => ?_) hleast
    · rw [← hnode.documents] at hload
      exact hload
    · exact Option.some.inj (hdata.symm.trans (hheld hstripe hshard))
    · have hall : node.splitter.scheme.intact
          (fun digest => ChunkService.reply (node.storage tree) ⟨digest.hex⟩) stripe =
            node.splitter.scheme.n := by
        rw [Scheme.intact, List.countP_eq_length.mpr, Scheme.length_encode]
        intro shard hshard
        simp only [hheld hstripe hshard, Option.isSome_some]
      exact hall ▸ node.splitter.scheme.k_le_n
  rw [Node.reconstruct, hrebuilt]
  rfl

/-- A document for another number of shards gives nothing. -/
theorem reconstruct_of_count (hnode : site.Houses node) {maker : Splitter}
    (hload : site.documents.load tree (Digest.of content).hex = .ok (maker.record content))
    (hcontent : content ≠ []) (hcount : maker.scheme.n ≠ node.splitter.scheme.n) :
    node.reconstruct tree (Digest.of content).hex =
      .error (.refused (.storage (.stripeUnrecoverable 0 (StorageError.shardCountMismatch
        node.splitter.scheme.n maker.scheme.n).message))) := by
  rw [← hnode.documents, maker.record_eq,
    Stripe.segment_of_ne_nil (Nat.pos_iff_ne_zero.mp maker.stripeSize_pos) hcontent,
    List.map_cons] at hload
  generalize (content.take maker.stripeSize).rightpad maker.stripeSize 0 = stripe at hload
  have hlength : (maker.scheme.stripeRecord stripe).chunks.length = maker.scheme.n := by
    simp [Scheme.stripeRecord, StripeRecord.new, Scheme.length_encode]
  have hslots : (node.reconstructor.fetchShards node.client (node.storage tree) 0
      (maker.scheme.stripeRecord stripe)).length =
        (maker.scheme.stripeRecord stripe).chunks.length := by
    rw [Reconstructor.length_fetchShards, StripeRecord.chunkHashes, List.length_map]
  have hother : (maker.scheme.stripeRecord stripe).chunks.length ≠
      node.reconstructor.scheme.n := by
    rw [hlength]
    exact hcount
  have hstripe := Reconstructor.reconstructStripe_of_count hslots hother
  have hrebuilt : node.reconstructor.reconstruct node.client (node.storage tree)
      (Digest.of content).hex = .error (.refused (.stripeUnrecoverable 0
        (StorageError.shardCountMismatch node.splitter.scheme.n maker.scheme.n).message)) := by
    refine Reconstructor.reconstruct_of_unrecovered hload ?_
    simp only [FileRecord.new, Reconstructor.recoverStripes, hstripe, hlength]
    rfl
  rw [Node.reconstruct, hrebuilt]
  rfl

/-- Whatever is given back has the digest that was asked for. -/
theorem digest_of_reconstruct {digest : Digest} {bytes : Bytes}
    (h : node.reconstruct tree digest.hex = .ok bytes) : Digest.of bytes = digest := by
  have hrebuilt : node.reconstructor.reconstruct node.client (node.storage tree) digest.hex =
      .ok bytes := by
    rw [Node.reconstruct] at h
    cases hresult : node.reconstructor.reconstruct node.client (node.storage tree) digest.hex with
    | error stop =>
      rw [hresult] at h
      cases h
    | ok own =>
      rw [hresult] at h
      cases h
      rfl
  obtain ⟨expected, _, _, hparse, -, -, hstrip⟩ := Reconstructor.of_reconstruct hrebuilt
  rw [Digest.parse_hex] at hparse
  cases hparse
  exact (Reconstructor.of_stripPadding hstrip).1

/-! ## Records of one content -/

/-- The first stripe of a content with a byte, which its record tells of first. -/
theorem exists_stripe_of_ne_nil (splitter : Splitter) (hcontent : content ≠ []) :
    ∃ stripe ∈ Stripe.segment splitter.stripeSize content,
      (splitter.record content).stripes.head? = some (splitter.scheme.stripeRecord stripe) := by
  have hsegment := Stripe.segment_of_ne_nil (Nat.pos_iff_ne_zero.mp splitter.stripeSize_pos)
    hcontent
  refine ⟨(content.take splitter.stripeSize).rightpad splitter.stripeSize 0, ?_, ?_⟩
  · rw [hsegment]
    exact List.mem_cons_self
  · rw [splitter.record_eq, hsegment, List.map_cons]
    rfl

/-- Splitters that make one record of a content with a byte have stripes of one size, and as many
    shards. -/
theorem eq_of_record_eq {known : Set Bytes} (hdistinct : Set.InjOn Digest.of known)
    {first second : Splitter}
    (hfirst : ∀ stripe ∈ Stripe.segment first.stripeSize content, stripe ∈ known)
    (hsecond : ∀ stripe ∈ Stripe.segment second.stripeSize content, stripe ∈ known)
    (hcontent : content ≠ []) (h : first.record content = second.record content) :
    first.stripeSize = second.stripeSize ∧ first.scheme.n = second.scheme.n := by
  obtain ⟨stripe, hstripe, hhead⟩ := exists_stripe_of_ne_nil first hcontent
  obtain ⟨other, hother, hhead'⟩ := exists_stripe_of_ne_nil second hcontent
  rw [h, hhead', Option.some.injEq] at hhead
  have hdigest : Digest.of other = Digest.of stripe :=
    Digest.hex_injective (congrArg StripeRecord.stripeHash hhead)
  obtain rfl := hdistinct (hsecond other hother) (hfirst stripe hstripe) hdigest
  refine ⟨?_, ?_⟩
  · rw [← Stripe.length_of_mem_segment hstripe, Stripe.length_of_mem_segment hother]
  · have hcount := congrArg (List.length ∘ StripeRecord.chunkHashes) hhead
    simp only [Function.comp_apply, Scheme.length_chunkHashes_stripeRecord] at hcount
    exact hcount.symm

/-! ## What was split -/

section Split

variable {log : List LogEntry} {first : Splitter}
  (hdistinct : Set.InjOn Digest.of {bytes | Hashed log content bytes})
  (hmaker : maker? log content = some first)

include hdistinct hmaker

/-- Whoever has made the document has made stripes of this size, and as many shards, if its record
    is that of another split. -/
theorem eq_of_record_eq_maker? {splitter : Splitter} {succeeded : Bool}
    (hsplit : .split splitter content succeeded ∈ log) (hcontent : content ≠ [])
    (h : first.record content = splitter.record content) :
    first.stripeSize = splitter.stripeSize ∧ first.scheme.n = splitter.scheme.n :=
  eq_of_record_eq hdistinct
    (fun _ hstripe => .entry (mem_of_maker? hmaker) (LogEntry.mem_hashed_of_mem_segment hstripe))
    (fun _ hstripe => .entry hsplit (LogEntry.mem_hashed_of_mem_segment hstripe)) hcontent h

/-- A shorter candidate with the content's digest would be another byte string hashed. -/
theorem digest_take_ne {shorter : Nat} (hshorter : shorter < content.length)
    (hcandidate : Admissible (Stripe.segment first.stripeSize content).flatten first.stripeSize
      shorter) : Digest.of (content.take shorter) ≠ Digest.of content := by
  intro heq
  have hsame := hdistinct (.candidate hmaker hcandidate (Nat.le_of_lt hshorter))
    (.entry (mem_of_maker? hmaker) List.mem_cons_self) heq
  have hlengths := congrArg List.length hsame
  rw [List.length_take] at hlengths
  omega

/-- A node that has just split a content gives it back, if its record is that of the document or
    its scheme is. -/
theorem Keeps.reconstruct {prepared : FileTree} {documentPlace : Place}
    (h : site.Keeps prepared documentPlace log tree) (hnode : site.Houses node)
    (hdone : .split node.splitter content true ∈ log)
    (hreads : ∀ data ∈ node.splitter.chunks content,
      tree.read (site.chunkPath (Digest.of data)) = .ok data)
    (hsame : first.record content = node.splitter.record content ∨
      first.scheme = node.splitter.scheme) :
    node.reconstruct tree (Digest.of content).hex = .ok content := by
  have hload := h.load hmaker
  rcases hsame with hrecord | hscheme
  · -- the node's own chunks were stored just now
    rw [hrecord, Splitter.record_eq] at hload
    refine reconstruct_of_reads hnode node.splitter.stripeSize_pos hload hreads
      fun shorter hshorter hcandidate => ?_
    have hcontent : content ≠ [] := by
      rintro rfl
      exact absurd hshorter (Nat.not_lt_zero _)
    obtain ⟨hsize, -⟩ := eq_of_record_eq_maker? hdistinct hmaker hdone hcontent hrecord
    rw [← hsize] at hcandidate
    exact digest_take_ne hdistinct hmaker hshorter hcandidate
  · -- the chunks are those of the first split, whatever its stripe size
    rw [Splitter.record_eq, hscheme] at hload
    have hchunks := h.chunk content first hmaker
    rw [Splitter.chunks, hscheme] at hchunks
    exact reconstruct_of_reads hnode first.stripeSize_pos hload hchunks
      fun shorter hshorter => digest_take_ne hdistinct hmaker hshorter

end Split

/-- After a session a split that succeeds keeps what was made, and makes its content. -/
theorem keeps_split_run {files grown : FileTree} {events : List Event} {next : Node}
    {now : Instant} {report : SplitReport} (hvacant : site.Vacant files)
    (hnode : (site.run files events).node? = some node)
    (hsplit : node.split (site.run files events).files now content = (.ok report, next, grown))
    (hdistinct : Set.InjOn Digest.of {bytes | Hashed
      ((site.run files events).log ++ [.split node.splitter content true]) content bytes}) :
    report = node.splitter.report content (maker? (site.run files events).log content).isSome ∧
      next.splitter = node.splitter ∧ site.Houses next ∧
      (∀ data ∈ next.splitter.chunks content,
        grown.read (site.chunkPath (Digest.of data)) = .ok data) ∧
      ∃ prepared documentPlace, site.Keeps prepared documentPlace
        ((site.run files events).log ++ [.split node.splitter content true]) grown := by
  generalize hsession : site.run files events = session at *
  obtain ⟨prepared, chunkPlace, documentPlace, hextends, hsite⟩ := hvacant.grounded
  have hbefore : ∀ entry ∈ session.log, ∀ data ∈ entry.hashed,
      Hashed (session.log ++ [.split node.splitter content true]) content data :=
    fun entry hentry data hdata => .entry (List.mem_append_left _ hentry) hdata
  have hsound := sound_run hsite hextends hdistinct events (hsession ▸ hbefore)
  rw [hsession] at hsound
  have hafter := Keeps.split_node hsite hdistinct (hsound.houses node hnode) hsound.keeps hbefore
    now content
  have hsplitter : (node.split session.files now content).2.1.splitter = node.splitter := rfl
  rw [hsplit] at hsplitter hafter
  obtain ⟨hnext, hkeeps, hreport⟩ := hafter fun entry hentry data hdata => by
    cases hentry
    exact .entry (List.mem_append_right _ List.mem_cons_self) hdata
  obtain ⟨hown, hreads⟩ := hreport report rfl
  rw [← hsplitter] at hreads
  exact ⟨hown, hsplitter, hnext, hreads, prepared, documentPlace, hkeeps⟩

/-- The first split of a content that has just succeeded is an earlier one, or it is this. -/
theorem maker?_append_own (log : List LogEntry) (splitter : Splitter) (content : Bytes) :
    maker? (log ++ [.split splitter content true]) content =
      some ((maker? log content).getD splitter) := by
  rw [maker?_append_split, if_pos rfl]
  cases maker? log content <;> rfl

/-- Whatever nodes with whatever settings have done on a site before, a split that succeeds reports
    its own record, and whether the content has been split there with success before.  The record
    that is loaded is that of the first such split.  The node that has reported the split gives the
    content back if this record is its own, or is of its scheme; it refuses a record for another
    number of shards; and nothing that it gives back has another digest. -/
theorem load_reconstruct_split (site : Site) (files grown : FileTree) (events : List Event)
    (node next : Node) (now : Instant) (content : Bytes) (report : SplitReport)
    (hvacant : site.Vacant files) (hnode : (site.run files events).node? = some node)
    (hsplit : node.split (site.run files events).files now content = (.ok report, next, grown))
    (hdistinct : Set.InjOn Digest.of {bytes | Hashed
      ((site.run files events).log ++ [.split node.splitter content true]) content bytes}) :
    let log := (site.run files events).log
    let first := (maker? log content).getD node.splitter
    let rebuilt := next.reconstruct grown report.fileHash
    report.fileHash = (Digest.of content).hex ∧ report.record = node.splitter.record content ∧
      report.alreadyStored = (maker? log content).isSome ∧
      node.splitter.documents.load grown report.fileHash = .ok (first.record content) ∧
      (first.record content = report.record ∨ first.scheme = node.splitter.scheme →
        rebuilt = .ok content) ∧
      (content = [] ∨
          first.stripeSize = node.splitter.stripeSize ∧ first.scheme = node.splitter.scheme →
        first.record content = report.record) ∧
      (content ≠ [] → first.record content = report.record →
        first.stripeSize = node.splitter.stripeSize ∧
          first.scheme.n = node.splitter.scheme.n) ∧
      (content ≠ [] → first.scheme.n ≠ node.splitter.scheme.n →
        rebuilt = .error (.refused (.storage (.stripeUnrecoverable 0
          (StorageError.shardCountMismatch node.splitter.scheme.n first.scheme.n).message)))) ∧
      ∀ bytes, rebuilt = .ok bytes → Digest.of bytes = Digest.of content := by
  obtain ⟨rfl, hsplitter, hnext, hreads, prepared, documentPlace, hkeeps⟩ :=
    keeps_split_run hvacant hnode hsplit hdistinct
  have hmaker := maker?_append_own (site.run files events).log node.splitter content
  clear hsplit hnode
  -- of the session only the log before the split counts from here on
  dsimp only
  generalize (site.run files events).log = log at hdistinct hkeeps hmaker ⊢
  generalize (maker? log content).getD node.splitter = first at hmaker ⊢
  rw [← hsplitter] at hkeeps hmaker hdistinct ⊢
  have hdone : .split next.splitter content true ∈ log ++ [.split next.splitter content true] :=
    List.mem_append_right _ List.mem_cons_self
  have hload := hkeeps.load hmaker
  refine ⟨rfl, rfl, rfl, ?_, ?_, ?_, ?_, ?_, fun bytes => digest_of_reconstruct⟩
  · rw [hnext.documents]
    exact hload
  · exact hkeeps.reconstruct hdistinct hmaker hnext hdone hreads
  · change _ → first.record content = next.splitter.record content
    rw [Splitter.record_eq, Splitter.record_eq]
    rintro (rfl | ⟨hsize, hscheme⟩)
    · rw [Stripe.segment_nil, Stripe.segment_nil, List.map_nil, List.map_nil]
    · rw [hsize, hscheme]
  · exact eq_of_record_eq_maker? hdistinct hmaker hdone
  · exact reconstruct_of_count hnext hload

/-! ## Small sessions -/

/-- A site right below the top directory. -/
def sample : Site :=
  ⟨"chunks", "metadata"⟩

/-- Both directories of the site `sample`, with nothing in them. -/
def sampleFiles : FileTree :=
  (FileTree.empty.put ["chunks"] .directory).put ["metadata"] .directory

/-- Two shards of which each is enough. -/
def twin : Scheme :=
  ⟨1, 2, Nat.one_pos, Nat.one_lt_two.le, by decide⟩

/-- Settings for stripes of one byte and a scheme. -/
def sampleSettings (scheme : Scheme) : Settings :=
  { Settings.standard with stripeSize := 1, k := scheme.k, n := scheme.n }

/-- The node on the site `sample` with these settings. -/
def sampleNode (scheme : Scheme) : Node where
  splitter := ⟨1, scheme, sample.documents, Nat.one_pos⟩
  service := ⟨10, 5000⟩
  chunks := ⟨sample.chunkRoot, 0, 0⟩
  registry := .empty

theorem ofSettings_sample {scheme : Scheme} (h : scheme ∈ [.single, twin]) :
    Node.ofSettings 0 { sampleSettings scheme with
      storagePath := sample.storagePath, metadataPath := sample.metadataPath } =
        .ok (sampleNode scheme) := by
  rcases List.mem_pair.mp h with rfl | rfl <;> rfl

theorem vacant_sample : sample.Vacant sampleFiles where
  made := rfl
  empty := ⟨[], rfl, fun _ => List.not_mem_nil⟩

theorem ready_sample : sample.Ready sampleFiles ["chunks"] ["metadata"] := by
  have hfree (directory : String) (name : String) :
      sampleFiles.entry? ([directory] ++ [name]) ≠ some .directory := by
    rw [sampleFiles, FileTree.entry?_put_of_ne _ _ (by simp),
      FileTree.entry?_put_of_ne _ _ (by simp)]
    simp [FileTree.entry?, FileTree.empty]
  exact ⟨⟨rfl, rfl⟩, ⟨rfl, rfl⟩, ⟨rfl, by decide⟩, ⟨rfl, by decide⟩, hfree _, hfree _⟩

theorem fits_sample (scheme : Scheme) : (sampleNode scheme).splitter.Fits [7] := by
  rintro ⟨hlarge, -⟩
  change Bytes.maxSize < (1 / scheme.k + 1) * scheme.k at hlarge
  have hone := Nat.div_mul_le_self 1 scheme.k
  have hk := scheme.k_le_max
  have hmax : 257 ≤ Bytes.maxSize := by decide
  rw [Nat.add_mul] at hlarge
  omega

theorem hashed_split_sample {scheme : Scheme} (h : scheme ∈ [.single, twin]) {data : Bytes}
    (hdata : data ∈ (LogEntry.split (sampleNode scheme).splitter [7] true).hashed) :
    data = [7] ∨ data = [7, 0] := by
  have hall : ∀ scheme ∈ [.single, twin],
      ∀ data ∈ (LogEntry.split (sampleNode scheme).splitter [7] true).hashed,
        data = [7] ∨ data = [7, 0] := by
    decide +kernel
  exact hall scheme h data hdata

/-- A node with one shard for a stripe splits a byte, and a node with another scheme is opened. -/
def sampleEvents (scheme : Scheme) : List Event :=
  [.enter 0 (sampleSettings .single), .split .epoch [7], .enter 0 (sampleSettings scheme)]

/-- What a split that succeeds comes to. -/
theorem step_split_of_ok {log : List LogEntry} {now : Instant} {report : SplitReport}
    (h : (node.split tree now content).1 = .ok report) :
    site.step ⟨some node, tree, log⟩ (.split now content) =
      ⟨some (node.split tree now content).2.1, (node.split tree now content).2.2,
        log ++ [.split node.splitter content true]⟩ := by
  simp only [step, h]
  rfl

/-- What the first two nodes on the site `sample` come to. -/
theorem run_sample {scheme : Scheme} (h : scheme ∈ [.single, twin]) :
    ∃ grown, sample.run sampleFiles (sampleEvents scheme) =
        ⟨some (sampleNode scheme), grown, [.split (sampleNode .single).splitter [7] true]⟩ ∧
      sample.Ready grown ["chunks"] ["metadata"] := by
  have hroot : (sampleNode .single).chunks.root = sample.chunkRoot := rfl
  obtain ⟨⟨existed, hok⟩, hready⟩ := ready_sample.split hroot rfl (fits_sample _) .epoch
  have henter {scheme : Scheme} (h : scheme ∈ [.single, twin]) (node? : Option Node)
      (files : FileTree) (log : List LogEntry) :
      sample.step ⟨node?, files, log⟩ (.enter 0 (sampleSettings scheme)) =
        ⟨some (sampleNode scheme), files, log⟩ := by
    simp only [step, ofSettings_sample h]
  refine ⟨_, ?_, hready⟩
  rw [run, sampleEvents, List.foldl_cons, List.foldl_cons, List.foldl_cons, List.foldl_nil,
    henter List.mem_cons_self, step_split_of_ok hok, henter h, List.nil_append]

/-- The entries on the site `sample` once the second node, too, has split the byte. -/
def sampleLog (scheme : Scheme) : List LogEntry :=
  [.split (sampleNode .single).splitter [7] true, .split (sampleNode scheme).splitter [7] true]

theorem injOn_sample {scheme : Scheme} (h : scheme ∈ [.single, twin]) :
    Set.InjOn Digest.of {bytes | Hashed (sampleLog scheme) [7] bytes} := by
  have hcases {bytes : Bytes} (hbytes : Hashed (sampleLog scheme) [7] bytes) :
      bytes = [7] ∨ bytes = [7, 0] := by
    cases hbytes with
    | entry hentry hdata =>
      rcases List.mem_pair.mp hentry with rfl | rfl
      · exact hashed_split_sample List.mem_cons_self hdata
      · exact hashed_split_sample h hdata
    | candidate hmaker hlength hle =>
      cases hmaker
      have hsegment : Stripe.segment (sampleNode .single).splitter.stripeSize [7] = [[7]] := by
        simp [sampleNode, Stripe.segment, Bytes.windows]
      have hone := hlength.lt
      rw [hsegment] at hone
      exact .inl (List.take_of_length_le (Nat.le_of_lt_succ hone))
  intro bytes hbytes other hother heq
  rcases hcases hbytes with rfl | rfl <;> rcases hcases hother with rfl | rfl
  · rfl
  · exact absurd heq Digest.of_seven_ne
  · exact absurd heq.symm Digest.of_seven_ne
  · rfl

/-- The second node on the site `sample`, too, splits the byte with success. -/
theorem split_sample {scheme : Scheme} (h : scheme ∈ [.single, twin]) :
    let session := sample.run sampleFiles (sampleEvents scheme)
    session.node? = some (sampleNode scheme) ∧
      maker? session.log [7] = some (sampleNode .single).splitter ∧
      Set.InjOn Digest.of {bytes |
        Hashed (session.log ++ [.split (sampleNode scheme).splitter [7] true]) [7] bytes} ∧
      ∃ report next grown,
        (sampleNode scheme).split session.files .epoch [7] = (.ok report, next, grown) := by
  obtain ⟨grown, hrun, hready⟩ := run_sample h
  have hroot : (sampleNode scheme).chunks.root = sample.chunkRoot := rfl
  obtain ⟨⟨existed, hok⟩, -⟩ := hready.split hroot rfl (fits_sample scheme) .epoch
  rw [hrun]
  refine ⟨rfl, ?_, injOn_sample h, ?_⟩
  · rw [maker?_split, if_pos rfl]
  · cases hsplit : (sampleNode scheme).split grown .epoch [7] with
    | mk result rest =>
      rw [hsplit] at hok
      obtain rfl : result = _ := hok
      exact ⟨_, _, _, rfl⟩

theorem load_reconstruct_split_sample :
    let session := sample.run sampleFiles (sampleEvents .single)
    let node := sampleNode .single
    sample.Vacant sampleFiles ∧ session.node? = some node ∧
      Set.InjOn Digest.of {bytes |
        Hashed (session.log ++ [.split node.splitter [7] true]) [7] bytes} ∧
      ∃ report next grown, node.split session.files .epoch [7] = (.ok report, next, grown) ∧
        report.alreadyStored = true ∧
        node.splitter.documents.load grown report.fileHash = .ok report.record ∧
        next.reconstruct grown report.fileHash = .ok [7] := by
  obtain ⟨hnode, hmaker, hdistinct, report, next, grown, hsplit⟩ :=
    split_sample List.mem_cons_self
  have hall := load_reconstruct_split sample sampleFiles grown (sampleEvents .single)
    (sampleNode .single) next .epoch [7] report vacant_sample hnode hsplit hdistinct
  simp only [hmaker, Option.isSome_some, Option.getD_some] at hall
  obtain ⟨-, hrecord, hstored, hload, hrebuilt, -⟩ := hall
  rw [← hrecord] at hload
  exact ⟨vacant_sample, hnode, hdistinct, report, next, grown, hsplit, hstored, hload,
    hrebuilt (.inr trivial)⟩

/-- A node with another number of shards than the one that has made the document neither loads its
    own record nor gives the content back, though it has reported success. -/
theorem load_reconstruct_split_other_scheme :
    let session := sample.run sampleFiles (sampleEvents twin)
    let node := sampleNode twin
    sample.Vacant sampleFiles ∧ session.node? = some node ∧
      Set.InjOn Digest.of {bytes |
        Hashed (session.log ++ [.split node.splitter [7] true]) [7] bytes} ∧
      ∃ report next grown, node.split session.files .epoch [7] = (.ok report, next, grown) ∧
        node.splitter.documents.load grown report.fileHash ≠ .ok report.record ∧
        next.reconstruct grown report.fileHash ≠ .ok [7] := by
  obtain ⟨hnode, hmaker, hdistinct, report, next, grown, hsplit⟩ :=
    split_sample (List.mem_cons_of_mem _ List.mem_cons_self)
  refine ⟨vacant_sample, hnode, hdistinct, report, next, grown, hsplit, ?_⟩
  obtain ⟨rfl, hsplitter, hnext, -, prepared, documentPlace, hkeeps⟩ :=
    keeps_split_run vacant_sample hnode hsplit hdistinct
  have hfirst := maker?_append_own (sample.run sampleFiles (sampleEvents twin)).log
    (sampleNode twin).splitter [7]
  rw [hmaker, Option.getD_some] at hfirst
  have hload := hkeeps.load hfirst
  have hcount : (sampleNode .single).splitter.scheme.n ≠ (sampleNode twin).splitter.scheme.n := by
    decide
  refine ⟨fun hown => ?_, fun hown => ?_⟩
  · have hsame := Except.ok.inj (hload.symm.trans hown)
    exact hcount (eq_of_record_eq_maker? hdistinct hfirst
      (List.mem_append_right _ List.mem_cons_self) (List.cons_ne_nil _ _) hsame).2
  · rw [← hsplitter] at hcount
    have hrefused := reconstruct_of_count hnext hload (List.cons_ne_nil _ _) hcount
    cases hrefused.symm.trans hown

end Site

end ShardVault
