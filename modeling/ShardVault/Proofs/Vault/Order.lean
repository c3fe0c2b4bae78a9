import ShardVault.Proofs.Documents.Run
import ShardVault.Proofs.Split.Entries
import ShardVault.Proofs.Split.Retry
import ShardVault.Proofs.Vault.Recovery

/-!
Splits in another order.  What splits leave is told by their contents alone (`Leaves`): the chunks
of all of them, and a document and an entry of each, if there is room for documents.  None of the
three asks for an order, so splits of the same contents in any order come to the same
(`splits_perm`).
-/

namespace ShardVault

/-- The call that makes the document of a content. -/
def Splitter.documentCall (splitter : Splitter) (content : Bytes) : Documents.Call :=
  .persist (Digest.of content) (splitter.record content).stripes

theorem Splitter.recorded_map_documentCall (splitter : Splitter) (contents : List Bytes) :
    Documents.recorded (contents.map splitter.documentCall) = contents.map splitter.record := by
  rw [Documents.recorded, List.filterMap_map, ← List.filterMap_eq_map]
  rfl

namespace Vault

variable (vault : Vault)

/-- What splits come to, one after the other, that start with no chunks and no entries. -/
def splits (files : FileTree) (jobs : List (Instant × Bytes)) : State :=
  vault.run files (jobs.map fun job => .split job.1 job.2)

/-- The result of a split. -/
def result (state : State) (job : Instant × Bytes) : Except (Stop StorageError) SplitReport :=
  (vault.splitter.split (vault.service.client .none) job.1 state.storage state.registry job.2).1

/-- The results of splits, one after the other, each with its content. -/
def results : State → List (Instant × Bytes) →
    List (Bytes × Except (Stop StorageError) SplitReport)
  | _, [] => []
  | state, job :: rest =>
    (job.2, vault.result state job) :: results (vault.step state (.split job.1 job.2)) rest

/-- The contents that get entries: all of them, or none where there is no room for documents. -/
def published (contents : List Bytes) : List Bytes :=
  if vault.splitter.documents.Roomy then contents else []

/-- A state is what splits of contents leave that all fit. -/
structure Leaves (files : FileTree) (contents : List Bytes) (state : State) : Prop where
  chunks : state.storage.chunks =
    MemoryChunks.empty.insertAll (contents.flatMap vault.splitter.chunks)
  files : state.storage.files =
    vault.splitter.documents.after files (contents.map vault.splitter.documentCall)
  registers : vault.splitter.Registers (vault.published contents) state.registry

/-- A result is a report of the content, unless there is no room for its document or it does not
    fit. -/
def Gives (content : Bytes) (result : Except (Stop StorageError) SplitReport) : Prop :=
  if vault.splitter.Fits content then
    if vault.splitter.documents.Roomy then
      ∃ existed, result = .ok (vault.splitter.report content existed)
    else result = .error (.refused (.ofFile .nameTooLong))
  else result = .error .crash

variable {vault} {files : FileTree} {contents : List Bytes} {state : State}

/-! ## One split -/

theorem Leaves.chunks_step (h : vault.Leaves files contents state) (now : Instant)
    {content : Bytes} (hfits : vault.splitter.Fits content) :
    (vault.step state (.split now content)).storage.chunks =
      MemoryChunks.empty.insertAll ((contents ++ [content]).flatMap vault.splitter.chunks) := by
  rw [chunks_step_split hfits, Splitter.keepStripes_eq_insertAll, h.chunks,
    ← MemoryChunks.insertAll_append, List.flatMap_append, List.flatMap_singleton]
  rfl

/-- Whether it is refused or not, the document of a content is the next one that is asked for. -/
theorem Leaves.after_concat (h : vault.Leaves files contents state) (content : Bytes) :
    vault.splitter.documents.after files ((contents ++ [content]).map vault.splitter.documentCall) =
      (vault.splitter.documents.persist state.storage.files (vault.splitter.record content)).2 := by
  rw [List.map_append, List.map_singleton, Documents.after, List.foldl_concat, ← Documents.after,
    ← h.files]
  rfl

/-- A content that fits is reported, and adds its chunks, its document and its entry. -/
theorem Leaves.step_of_roomy (hbare : files.Bare vault.splitter.documents.root)
    (hroomy : vault.splitter.documents.Roomy) (h : vault.Leaves files contents state)
    (now : Instant) {content : Bytes} (hfits : vault.splitter.Fits content) :
    (∃ existed, vault.result state (now, content) =
        .ok (vault.splitter.report content existed)) ∧
      vault.Leaves files (contents ++ [content]) (vault.step state (.split now content)) := by
  obtain ⟨prepared, directory, hnone⟩ := Documents.exists_holds_of_fresh ⟨hbare, hroomy⟩
  obtain ⟨made, hholds⟩ :=
    Documents.holds_after hnone (contents.map vault.splitter.documentCall)
  rw [← h.files] at hholds
  -- the files make the document, whether it was there before or not
  obtain ⟨existed, written, hpersist⟩ : ∃ existed written,
      vault.splitter.documents.persist state.storage.files (vault.splitter.record content) =
        (.ok (vault.splitter.documents.path (Digest.of content).hex, existed), written) := by
    rcases hholds.persist_cases (vault.splitter.record content) rfl with
      ⟨-, hrun, -⟩ | ⟨-, -, hrun, -⟩
    · exact ⟨false, _, hrun⟩
    · exact ⟨true, _, hrun⟩
  have hsplit := vault.splitter.split_memory_of_persisted vault.service now state.registry hfits
    hpersist
  refine ⟨⟨existed, congrArg Prod.fst hsplit⟩, h.chunks_step now hfits, ?_, ?_⟩
  · rw [h.after_concat, hpersist]
    simp only [step, hsplit]
  · have hregisters := h.registers
    simp only [published, if_pos hroomy] at hregisters ⊢
    simp only [step, hsplit]
    exact hregisters.concat content now

/-- Where there is no room for its document a content that fits adds its chunks only. -/
theorem Leaves.step_of_not_roomy (hbare : files.Bare vault.splitter.documents.root)
    (hroomy : ¬ vault.splitter.documents.Roomy) (h : vault.Leaves files contents state)
    (now : Instant) {content : Bytes} (hfits : vault.splitter.Fits content) :
    vault.result state (now, content) = .error (.refused (.ofFile .nameTooLong)) ∧
      vault.Leaves files (contents ++ [content]) (vault.step state (.split now content)) := by
  have hstill := (Documents.after_of_not_roomy hbare hroomy
    (contents.map vault.splitter.documentCall)).1
  rw [← h.files] at hstill
  have hpersist : vault.splitter.documents.persist state.storage.files
      (vault.splitter.record content) = _ := Documents.persist_of_not_roomy hstill hroomy rfl
  have hsplit := vault.splitter.split_memory_of_refused vault.service now state.registry hfits
    hpersist
  refine ⟨congrArg Prod.fst hsplit, h.chunks_step now hfits, ?_, ?_⟩
  · rw [h.after_concat, hpersist]
    simp only [step, hsplit]
  · have hregisters := h.registers
    simp only [published, if_neg hroomy] at hregisters ⊢
    simp only [step, hsplit]
    exact hregisters

theorem Leaves.step_of_fits (hbare : files.Bare vault.splitter.documents.root)
    (h : vault.Leaves files contents state) (job : Instant × Bytes)
    (hfits : vault.splitter.Fits job.2) :
    vault.Gives job.2 (vault.result state job) ∧
      vault.Leaves files (contents ++ [job.2]) (vault.step state (.split job.1 job.2)) := by
  rw [Gives, if_pos hfits]
  split
  · rename_i hroomy
    exact h.step_of_roomy hbare hroomy job.1 hfits
  · rename_i hroomy
    exact h.step_of_not_roomy hbare hroomy job.1 hfits

/-- A split that breaks off leaves everything as it was. -/
theorem step_of_not_fits (state : State) {job : Instant × Bytes}
    (hfits : ¬ vault.splitter.Fits job.2) :
    vault.Gives job.2 (vault.result state job) ∧
      vault.step state (.split job.1 job.2) = state := by
  have hsplit := vault.splitter.split_of_not_fits (vault.service.client .none) job.1 state.storage
    state.registry hfits
  constructor
  · rw [Gives, if_neg hfits, result, hsplit]
  · simp only [step, hsplit]

/-! ## All splits -/

/-- Splits leave what is told by the contents that fit, and give their results. -/
theorem Leaves.run (hbare : files.Bare vault.splitter.documents.root)
    (h : vault.Leaves files contents state) (jobs : List (Instant × Bytes)) :
    vault.Leaves files (contents ++ vault.fitting (jobs.map Prod.snd))
        ((jobs.map fun job => Event.split job.1 job.2).foldl vault.step state) ∧
      ∀ entry ∈ vault.results state jobs, vault.Gives entry.1 entry.2 := by
  induction jobs generalizing contents state with
  | nil =>
    rw [List.map_nil, fitting, List.filter_nil, List.append_nil]
    exact ⟨h, fun entry hentry => absurd hentry List.not_mem_nil⟩
  | cons job rest ih =>
    rw [List.map_cons, List.map_cons, List.foldl_cons, results, List.forall_mem_cons]
    by_cases hfits : vault.splitter.Fits job.2
    · obtain ⟨hgives, hnext⟩ := h.step_of_fits hbare job hfits
      obtain ⟨hrest, hresults⟩ := ih hnext
      refine ⟨?_, hgives, hresults⟩
      rw [fitting, List.filter_cons_of_pos (by simpa using hfits), ← fitting, List.append_cons]
      exact hrest
    · obtain ⟨hgives, hnext⟩ := step_of_not_fits state hfits
      rw [hnext]
      obtain ⟨hrest, hresults⟩ := ih h
      refine ⟨?_, hgives, hresults⟩
      rw [fitting, List.filter_cons_of_neg (by simpa using hfits), ← fitting]
      exact hrest

theorem leaves_splits (hbare : files.Bare vault.splitter.documents.root)
    (jobs : List (Instant × Bytes)) :
    vault.Leaves files (vault.fitting (jobs.map Prod.snd)) (vault.splits files jobs) ∧
      ∀ entry ∈ vault.results (vault.splits files []) jobs, vault.Gives entry.1 entry.2 := by
  have hstart : vault.Leaves files [] (vault.splits files []) :=
    ⟨rfl, rfl, by
      rw [published, ite_self]
      exact Splitter.registers_empty⟩
  exact hstart.run hbare jobs

/-! ## Another order -/

/-- The same contents in another order leave the same chunks and documents, and the same entries
    but for their times. -/
theorem Leaves.perm {contents' : List Bytes} {state' : State}
    (hbare : files.Bare vault.splitter.documents.root)
    (h : vault.Leaves files contents state)
    (h' : vault.Leaves files contents' state') (hperm : contents.Perm contents')
    (hcontents : Set.InjOn Digest.of {content | content ∈ contents})
    (hchunks : Set.InjOn Digest.of {data | data ∈ contents.flatMap vault.splitter.chunks}) :
    state.storage.chunks = state'.storage.chunks ∧ state.storage.files = state'.storage.files ∧
      ∀ fileHash, (state.registry.get? fileHash).map RegisteredFile.timeless =
        (state'.registry.get? fileHash).map RegisteredFile.timeless := by
  refine ⟨?_, ?_, fun fileHash => ?_⟩
  · rw [h.chunks, h'.chunks]
    exact MemoryChunks.insertAll_congr _ hchunks fun data => (hperm.flatMap_right _).mem_iff
  · rw [h.files, h'.files]
    refine Documents.after_perm_of_bare hbare ?_ ?_
    · rw [Splitter.recorded_map_documentCall, Splitter.recorded_map_documentCall]
      exact hperm.map _
    · rw [Splitter.recorded_map_documentCall]
      rintro _ hrecord _ hrecord' hhash
      obtain ⟨content, hcontent, rfl⟩ := List.mem_map.mp hrecord
      obtain ⟨other, hother, rfl⟩ := List.mem_map.mp hrecord'
      rw [hcontents hcontent hother (Digest.hex_injective hhash)]
  · rw [h.registers fileHash, h'.registers fileHash, published, published]
    split
    · rw [Splitter.first?_perm hperm hcontents fileHash]
    · rfl

variable (vault)

/-- The byte strings that splits hash: the contents that fit, their stripes and their chunks. -/
def hashed (jobs : List (Instant × Bytes)) : List Bytes :=
  (vault.fitting (jobs.map Prod.snd)).flatMap fun content =>
    content :: (Stripe.segment vault.splitter.stripeSize content ++ vault.splitter.chunks content)

/-- If no two of the byte strings that are hashed have the same digest, splits of the same contents
    in any two orders come to the same chunks, the same files, and the same entries but for their
    times.  All splits of a content give the same report, but for whether there was a document
    before.  Where there is no room for documents they are all refused for it; and a content that
    does not fit breaks its splits off in either order. -/
theorem splits_perm (files : FileTree) (first second : List (Instant × Bytes))
    (hbare : files.Bare vault.splitter.documents.root)
    (hperm : (first.map Prod.snd).Perm (second.map Prod.snd))
    (hdistinct : Set.InjOn Digest.of {bytes | bytes ∈ vault.hashed first}) :
    let state := vault.splits files first
    let state' := vault.splits files second
    state.storage.chunks = state'.storage.chunks ∧ state.storage.files = state'.storage.files ∧
      (∀ fileHash, (state.registry.get? fileHash).map RegisteredFile.timeless =
        (state'.registry.get? fileHash).map RegisteredFile.timeless) ∧
      ∀ entry ∈ vault.results (vault.splits files []) first,
        ∀ other ∈ vault.results (vault.splits files []) second, entry.1 = other.1 →
          if vault.splitter.Fits entry.1 then
            if vault.splitter.documents.Roomy then
              ∃ report existed, entry.2 = .ok report ∧
                other.2 = .ok { report with alreadyStored := existed }
            else
              entry.2 = .error (.refused (.ofFile .nameTooLong)) ∧
                other.2 = .error (.refused (.ofFile .nameTooLong))
          else entry.2 = .error .crash ∧ other.2 = .error .crash := by
  intro state state'
  obtain ⟨hleaves, hresults⟩ := leaves_splits hbare first
  obtain ⟨hleaves', hresults'⟩ := leaves_splits hbare second
  have hcontents : Set.InjOn Digest.of
      {content | content ∈ vault.fitting (first.map Prod.snd)} := by
    refine hdistinct.mono fun content hcontent => ?_
    exact List.mem_flatMap.mpr ⟨content, hcontent, List.mem_cons_self⟩
  have hchunks : Set.InjOn Digest.of
      {data | data ∈ (vault.fitting (first.map Prod.snd)).flatMap vault.splitter.chunks} := by
    refine hdistinct.mono fun data hdata => ?_
    obtain ⟨content, hcontent, hchunk⟩ := List.mem_flatMap.mp hdata
    exact List.mem_flatMap.mpr ⟨content, hcontent,
      List.mem_cons_of_mem _ (List.mem_append_right _ hchunk)⟩
  obtain ⟨hsame, hfiles, hentries⟩ :=
    hleaves.perm hbare hleaves' (hperm.filter _) hcontents hchunks
  refine ⟨hsame, hfiles, hentries, fun entry hentry other hother hcontent => ?_⟩
  have hgives := hresults entry hentry
  have hgives' := hresults' other hother
  rw [← hcontent, Gives] at hgives'
  rw [Gives] at hgives
  split
  · rename_i hfits
    rw [if_pos hfits] at hgives hgives'
    split
    · rename_i hroomy
      rw [if_pos hroomy] at hgives hgives'
      obtain ⟨existed, hreport⟩ := hgives
      obtain ⟨existed', hreport'⟩ := hgives'
      refine ⟨_, existed', hreport, ?_⟩
      rw [hreport', Splitter.report, Splitter.report]
    · rename_i hroomy
      rw [if_neg hroomy] at hgives hgives'
      exact ⟨hgives, hgives'⟩
  · rename_i hfits
    rw [if_neg hfits] at hgives hgives'
    exact ⟨hgives, hgives'⟩

/-! ## Two contents -/

/-- A byte, and then nothing. -/
def sampleJobs (byte : UInt8) : List (Instant × Bytes) :=
  [(.epoch, [byte]), (.epoch, [])]

theorem fitting_sample :
    (sample 1 Nat.one_pos).fitting ((sampleJobs 7).map Prod.snd) = [[7], []] := by
  have hnil : (sample 1 Nat.one_pos).splitter.Fits [] := Splitter.fits_nil _
  simp [fitting, sampleJobs, fits_sample, hnil]

theorem hashed_sampleJobs :
    (sample 1 Nat.one_pos).hashed (sampleJobs 7) = [[7], [7], [7, 0], []] := by
  simp [hashed, fitting_sample, segment_sample, Stripe.segment_nil, Splitter.chunks, Scheme.chunks,
    encode_sample]

theorem injOn_sampleJobs :
    Set.InjOn Digest.of {bytes | bytes ∈ (sample 1 Nat.one_pos).hashed (sampleJobs 7)} := by
  have hnil : Digest.of [] ≠ Digest.of [7] := Digest.of_ne_of_finish (by decide +kernel)
  have hnil' : Digest.of [] ≠ Digest.of [7, 0] := Digest.of_ne_of_finish (by decide +kernel)
  have hseven := Digest.of_seven_ne
  rw [hashed_sampleJobs]
  intro bytes hbytes other hother heq
  simp only [Set.mem_ofPred_eq, List.mem_cons, List.not_mem_nil, or_false] at hbytes hother
  rcases hbytes with rfl | rfl | rfl | rfl <;> rcases hother with rfl | rfl | rfl | rfl <;>
    first
    | rfl
    | exact absurd heq (by assumption)
    | exact absurd heq.symm (by assumption)

theorem splits_perm_sample :
    let vault := sample 1 Nat.one_pos
    FileTree.empty.Bare vault.splitter.documents.root ∧
      ((sampleJobs 7).map Prod.snd).Perm ((sampleJobs 7).reverse.map Prod.snd) ∧
      Set.InjOn Digest.of {bytes | bytes ∈ vault.hashed (sampleJobs 7)} ∧
      (vault.splits .empty (sampleJobs 7)).storage.chunks =
        (vault.splits .empty (sampleJobs 7).reverse).storage.chunks := by
  have hperm : ((sampleJobs 7).map Prod.snd).Perm ((sampleJobs 7).reverse.map Prod.snd) :=
    (List.reverse_perm (sampleJobs 7)).symm.map Prod.snd
  exact ⟨(fresh_sample 1 Nat.one_pos).toBare, hperm, injOn_sampleJobs,
    (splits_perm (sample 1 Nat.one_pos) .empty (sampleJobs 7) (sampleJobs 7).reverse
      (fresh_sample 1 Nat.one_pos).toBare hperm injOn_sampleJobs).1⟩

/-- The vault `sample` with its documents in a directory whose path leaves no room for them. -/
def distant : Vault :=
  let vault := sample 1 Nat.one_pos
  { vault with splitter := { vault.splitter with documents := ⟨FileTree.roundabout 2012⟩ } }

theorem bare_distant : FileTree.empty.Bare distant.splitter.documents.root :=
  (FileTree.bare_roundabout (by decide)).2

/-- A content gets no report unless it fits and there is room for its document. -/
theorem ne_report {vault : Vault} {jobs : List (Instant × Bytes)}
    (hbare : FileTree.empty.Bare vault.splitter.documents.root) {content : Bytes}
    (hnot : ¬ (vault.splitter.Fits content ∧ vault.splitter.documents.Roomy)) :
    ∀ entry ∈ vault.results (vault.splits .empty []) jobs, entry.1 = content →
      ∀ report, entry.2 ≠ .ok report := by
  intro entry hentry hcontent report hreport
  have hgives := (leaves_splits hbare jobs).2 entry hentry
  rw [hcontent, hreport, Gives] at hgives
  split at hgives
  · rename_i hfits
    rw [if_neg fun hroomy => hnot ⟨hfits, hroomy⟩] at hgives
    cases hgives
  · cases hgives

/-- A byte gets no report in either order above the largest stripe size, nor where there is no room
    for its document. -/
theorem splits_perm_no_report :
    let large := sample (2 ^ 63) (by decide)
    (FileTree.empty.Bare large.splitter.documents.root ∧
      ((sampleJobs 0).map Prod.snd).Perm ((sampleJobs 0).reverse.map Prod.snd) ∧
      Set.InjOn Digest.of {bytes | bytes ∈ large.hashed (sampleJobs 0)} ∧
      ∀ jobs ∈ [sampleJobs 0, (sampleJobs 0).reverse],
        ∀ entry ∈ large.results (large.splits .empty []) jobs, entry.1 = [0] →
          ∀ report, entry.2 ≠ .ok report) ∧
    FileTree.empty.Bare distant.splitter.documents.root ∧
      ((sampleJobs 7).map Prod.snd).Perm ((sampleJobs 7).reverse.map Prod.snd) ∧
      Set.InjOn Digest.of {bytes | bytes ∈ distant.hashed (sampleJobs 7)} ∧
      ∀ jobs ∈ [sampleJobs 7, (sampleJobs 7).reverse],
        ∀ entry ∈ distant.results (distant.splits .empty []) jobs, entry.1 = [7] →
          ∀ report, entry.2 ≠ .ok report := by
  intro large
  have hperm (byte : UInt8) :
      ((sampleJobs byte).map Prod.snd).Perm ((sampleJobs byte).reverse.map Prod.snd) :=
    (List.reverse_perm (sampleJobs byte)).symm.map Prod.snd
  have hbare := (fresh_sample (2 ^ 63) (by decide)).toBare
  have hlarge : ¬ large.splitter.Fits [0] := not_not.mpr ⟨by decide, by decide⟩
  have hhashed : large.hashed (sampleJobs 0) = [[]] := by
    have hnil : large.splitter.Fits [] := Splitter.fits_nil _
    simp [hashed, fitting, sampleJobs, hlarge, hnil, Stripe.segment_nil, Splitter.chunks]
  refine ⟨⟨hbare, hperm 0, ?_, fun _ _ => ne_report hbare fun h => hlarge h.1⟩,
    bare_distant, hperm 7, injOn_sampleJobs,
    fun _ _ => ne_report bare_distant fun h => Documents.not_roomy_roundabout h.2⟩
  rw [hhashed]
  intro bytes hbytes other hother _
  rw [List.mem_singleton.mp hbytes, List.mem_singleton.mp hother]

end Vault

end ShardVault
