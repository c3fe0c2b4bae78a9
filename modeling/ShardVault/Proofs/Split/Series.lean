import Mathlib.Data.List.Induction
import ShardVault.Proofs.Documents.Change
import ShardVault.Proofs.Split.HashTree

/-!
Splits one after the other.  However the calls to chunk storage end, and whatever goes wrong with
the files, the documents and the entries are those of the contents whose splits succeeded, each is
that of the first content with its digest, and that is what the reports say (`series_in_step`).
-/

namespace ShardVault

open FileTree (Ground Changes PlainName)

/-- A split, and how each of its calls to chunk storage ends. -/
structure ScriptedSplit where
  now : Instant
  content : Bytes
  script : Nat → Nat → StoreOutcome

/-- What splits have come to. -/
structure Series where
  files : FileTree
  registry : Registry
  /-- The contents whose splits gave a report, in order. -/
  succeeded : List Bytes

namespace Splitter

variable (splitter : Splitter)

/-- One more split. -/
def splitNext (series : Series) (call : ScriptedSplit) :
    Except (Stop StorageError) SplitReport × Storage (List StoreCall) × Registry :=
  splitter.split (.scripted call.script) call.now ⟨[], series.files⟩ series.registry call.content

/-- What splits have come to after one more. -/
def next (series : Series) (call : ScriptedSplit) : Series :=
  let (result, storage, registry) := splitter.splitNext series call
  { files := storage.files, registry
    succeeded :=
      match result with
      | .ok _ => series.succeeded ++ [call.content]
      | .error _ => series.succeeded }

/-- What splits come to. -/
def series (files : FileTree) (calls : List ScriptedSplit) : Series :=
  calls.foldl splitter.next ⟨files, .empty, []⟩

/-! ## Documents -/

/-- The files have the documents of the first contents, and in their directory there is no
    document of another name. -/
structure Documented (prepared : FileTree) (directory : Place) (contents : List Bytes)
    (files : FileTree) : Prop where
  within : files.KeepsDirectories prepared
  absent : ∀ fileHash ∉ hashes contents, files.entry? (directory ++ [fileHash ++ ".json"]) = none
  document : ∀ fileHash content, first? contents fileHash = some content →
    files.read (splitter.documents.path fileHash) =
      .ok (Bytes.ofText (splitter.record content).document)

/-- Documents and entries are those of the contents whose splits gave a report. -/
structure InStep (prepared : FileTree) (directory : Place) (series : Series) : Prop where
  documented : splitter.Documented prepared directory series.succeeded series.files
  registers : splitter.Registers series.succeeded series.registry

variable {splitter}

theorem succeeded_next_of_ok (series : Series) {call : ScriptedSplit} {report : SplitReport}
    (h : (splitter.splitNext series call).1 = .ok report) :
    (splitter.next series call).succeeded = series.succeeded ++ [call.content] := by
  simp only [next, h]

variable {prepared files grown : FileTree} {directory : Place} {contents : List Bytes}
  {content : Bytes} {fileHash : String}

section Persisting

variable (hground : Ground prepared splitter.documents.root directory)
  (hbare : ∀ name, prepared.entry? (directory ++ [name]) = none)
  (h : splitter.Documented prepared directory contents files)

include hground hbare h

/-- A temporary file that is left is no document. -/
theorem Documented.of_temporary {digest : Digest}
    (hchanges : Changes prepared {directory ++ [digest.hex ++ ".json.tmp"]} files grown) :
    splitter.Documented prepared directory contents grown where
  within := hchanges.within
  absent fileHash hnot := hchanges.absent _ (Documents.not_mem_temporary directory fileHash digest)
    (hbare _) (h.absent fileHash hnot)
  document fileHash content hfirst := by
    obtain rfl := hex_of_first? hfirst
    exact hchanges.read hground (Documents.goodName_document _).plain h.within
      (Documents.not_mem_temporary directory _ digest) (h.document _ content hfirst)

omit hground hbare in
/-- A content whose document is there adds none. -/
theorem Documented.concat_old
    (hthere : files.entry? (directory ++ [(Digest.of content).hex ++ ".json"]) ≠ none) :
    (Digest.of content).hex ∈ hashes contents ∧
      splitter.Documented prepared directory (contents ++ [content]) files := by
  have hmem : (Digest.of content).hex ∈ hashes contents := by
    by_contra hnot
    exact hthere (h.absent _ hnot)
  refine ⟨hmem, h.within, fun fileHash hnot => ?_, fun fileHash own hfirst => ?_⟩
  · rw [hashes_concat, List.mem_append, not_or] at hnot
    exact h.absent fileHash hnot.1
  · rw [first?_concat] at hfirst
    cases hold : first? contents fileHash with
    | some old =>
      rw [hold, Option.some_or] at hfirst
      exact h.document fileHash own (hold.trans hfirst)
    | none =>
      rw [hold, Option.none_or] at hfirst
      split at hfirst
      · rename_i hown
        rw [hown, ← isSome_first?_iff, hold] at hmem
        cases hmem
      · cases hfirst

/-- A content whose document is not there adds it. -/
theorem Documented.concat_new
    (hmissing : files.exists? (splitter.documents.path (Digest.of content).hex) = .ok false)
    (hchanges : Changes prepared {directory ++ [(Digest.of content).hex ++ ".json.tmp"],
      directory ++ [(Digest.of content).hex ++ ".json"]} files grown)
    (hread : grown.read (splitter.documents.path (Digest.of content).hex) =
      .ok (Bytes.ofText (splitter.record content).document)) :
    (Digest.of content).hex ∉ hashes contents ∧
      splitter.Documented prepared directory (contents ++ [content]) grown := by
  have hnew : first? contents (Digest.of content).hex = none := by
    cases hfirst : first? contents (Digest.of content).hex with
    | none => rfl
    | some old =>
      rw [FileTree.exists?_of_read (h.document _ old hfirst)] at hmissing
      cases hmissing
  refine ⟨?_, hchanges.within, fun fileHash hnot => ?_, fun fileHash own hfirst => ?_⟩
  · rw [← isSome_first?_iff, hnew]
    exact Bool.false_ne_true
  · rw [hashes_concat, List.mem_append, not_or, List.mem_singleton] at hnot
    exact hchanges.absent _ (Documents.not_mem_written directory hnot.2) (hbare _)
      (h.absent fileHash hnot.1)
  · rw [first?_concat] at hfirst
    cases hold : first? contents fileHash with
    | some old =>
      rw [hold, Option.some_or] at hfirst
      have hne : fileHash ≠ (Digest.of content).hex := by
        rintro rfl
        rw [hnew] at hold
        cases hold
      have hdocument := h.document fileHash own (hold.trans hfirst)
      obtain rfl := hex_of_first? hold
      exact hchanges.read hground (Documents.goodName_document _).plain h.within
        (Documents.not_mem_written directory hne) hdocument
    | none =>
      rw [hold, Option.none_or] at hfirst
      split at hfirst
      · rename_i hown
        cases hfirst
        rw [← hown]
        exact hread
      · cases hfirst

omit hbare in
/-- A document is there exactly for the digests of the contents. -/
theorem Documented.exists?_iff (hslash : '/' ∉ fileHash.toList) :
    files.exists? (splitter.documents.path fileHash) = .ok true ↔ fileHash ∈ hashes contents := by
  constructor
  · intro hexists
    by_contra hnot
    have hname : PlainName (fileHash ++ ".json") := by
      refine ⟨by simpa [String.toList_append] using hslash, ?_⟩
      rw [String.utf8ByteSize_append]
      exact Nat.lt_of_lt_of_le (by decide) (Nat.le_add_left _ _)
    unfold FileTree.exists? at hexists
    split at hexists
    · rename_i place hplace
      rw [hground.place_of_locate hname h.within hplace, h.absent fileHash hnot] at hexists
      cases hexists
    · cases hexists
    · cases hexists
  · intro hmem
    obtain ⟨content, hfirst⟩ := Option.isSome_iff_exists.mp (isSome_first?_iff.mpr hmem)
    exact FileTree.exists?_of_read (h.document fileHash content hfirst)

end Persisting

/-! ## One split -/

section Splitting

variable {series : Series} (hground : Ground prepared splitter.documents.root directory)
  (hbare : ∀ name, prepared.entry? (directory ++ [name]) = none)
  (h : splitter.InStep prepared directory series)

include hground hbare h

/-- To publish a record either fails, and then there is no new document or entry, or tells whether
    there was one with the digest before. -/
theorem InStep.publish (now : Instant) (calls : List StoreCall) (content : Bytes) :
    let run := splitter.publish now (⟨calls, series.files⟩ : Storage (List StoreCall))
      series.registry (splitter.record content) content.length
    ((∃ cause, run.1 = .error cause) ∧ splitter.InStep prepared directory
        ⟨run.2.1.files, run.2.2, series.succeeded⟩) ∨
      ∃ existed, run.1 = .ok (splitter.report content existed) ∧
        (existed = true ↔ (Digest.of content).hex ∈ hashes series.succeeded) ∧
        splitter.InStep prepared directory
          ⟨run.2.1.files, run.2.2, series.succeeded ++ [content]⟩ := by
  intro run
  have hrecord : (splitter.record content).fileHash = (Digest.of content).hex := rfl
  have hcases := Documents.persist_cases hground h.documented.within hrecord
  cases hpersist : splitter.documents.persist series.files (splitter.record content) with
  | mk result written =>
    rw [hpersist] at hcases
    have hregisters := h.registers.concat content now
    rcases hcases with ⟨⟨cause, hcause⟩, hchanges⟩ | ⟨hold, hthere⟩ |
      ⟨hnew, hmissing, hchanges, hread⟩
    · obtain rfl : result = .error cause := hcause
      have hrun : run = _ := splitter.publish_of_failed now series.registry content.length hpersist
      rw [hrun]
      exact .inl ⟨⟨cause, rfl⟩, h.documented.of_temporary hground hbare hchanges, h.registers⟩
    · obtain ⟨rfl, rfl⟩ := Prod.mk.inj hold
      have hrun : run = _ := splitter.publish_of_persisted now series.registry hpersist
      obtain ⟨hmem, hdocumented⟩ := h.documented.concat_old hthere
      rw [hrun]
      exact .inr ⟨true, rfl, by simp [hmem], hdocumented, hregisters⟩
    · obtain rfl : result = _ := hnew
      have hrun : run = _ := splitter.publish_of_persisted now series.registry hpersist
      obtain ⟨hmem, hdocumented⟩ :=
        h.documented.concat_new hground hbare hmissing hchanges hread
      rw [hrun]
      exact .inr ⟨false, rfl, by simp [hmem], hdocumented, hregisters⟩

/-- One more split either gives no report, and then no document and no entry either, or tells
    whether an earlier one with the digest gave a report. -/
theorem InStep.splitNext (call : ScriptedSplit) :
    let run := splitter.splitNext series call
    ((∃ stop, run.1 = .error stop) ∧ splitter.InStep prepared directory
        ⟨run.2.1.files, run.2.2, series.succeeded⟩) ∨
      ∃ existed, run.1 = .ok (splitter.report call.content existed) ∧
        (existed = true ↔ (Digest.of call.content).hex ∈ hashes series.succeeded) ∧
        splitter.InStep prepared directory
          ⟨run.2.1.files, run.2.2, series.succeeded ++ [call.content]⟩ := by
  intro run
  by_cases hfits : splitter.Fits call.content
  · have hcases := splitter.split_cases (.scripted call.script) call.now ⟨[], series.files⟩
      series.registry hfits
    have hstorage := (splitter.storeStripes_scripted call.script
      (Stripe.segment splitter.stripeSize call.content) ⟨[], series.files⟩ 0).1
    generalize splitter.storeStripes (.scripted call.script) ⟨[], series.files⟩ 0
      (Stripe.segment splitter.stripeSize call.content) = stored at hcases hstorage
    obtain ⟨results, after⟩ := stored
    obtain rfl : after = _ := hstorage
    rcases hcases with ⟨-, hrun⟩ | ⟨-, hrun⟩
    · have hrun : run = _ := hrun
      rw [hrun]
      exact .inl ⟨⟨_, rfl⟩, h.documented, h.registers⟩
    · have hrun : run = _ := hrun
      have hpublish := h.publish hground hbare call.now
        ([] ++ splitter.calls (Stripe.segment splitter.stripeSize call.content).zipIdx) call.content
      rw [hrun]
      generalize splitter.publish call.now _ series.registry (splitter.record call.content)
        call.content.length = published at hpublish ⊢
      obtain ⟨result, storage, registry⟩ := published
      rcases hpublish with ⟨⟨cause, rfl⟩, hsame⟩ | ⟨existed, rfl, hexisted, hgrown⟩
      · exact .inl ⟨⟨.refused cause, rfl⟩, hsame⟩
      · exact .inr ⟨existed, rfl, hexisted, hgrown⟩
  · have hrun : run = _ := splitter.split_of_not_fits _ call.now ⟨[], series.files⟩
      series.registry hfits
    rw [hrun]
    exact .inl ⟨⟨.crash, rfl⟩, h.documented, h.registers⟩

theorem InStep.next (call : ScriptedSplit) :
    splitter.InStep prepared directory (splitter.next series call) := by
  simp only [Splitter.next]
  rcases h.splitNext hground hbare call with ⟨⟨stop, hstop⟩, hsame⟩ | ⟨existed, hreport, -, hgrown⟩
  · rw [hstop]
    exact hsame
  · rw [hreport]
    exact hgrown

end Splitting

/-! ## A series -/

/-- Documents and entries are in step after any splits. -/
theorem inStep_series (hground : Ground prepared splitter.documents.root directory)
    (hbare : ∀ name, prepared.entry? (directory ++ [name]) = none)
    (hextends : files.Extends prepared) (calls : List ScriptedSplit) :
    splitter.InStep prepared directory (splitter.series files calls) := by
  -- from the last split back, since a series grows at its end
  induction calls using List.reverseRecOn with
  | nil =>
    refine ⟨⟨hextends.keepsDirectories, fun fileHash _ => ?_, fun _ _ hfirst => nomatch hfirst⟩,
      registers_empty⟩
    cases hentry : files.entry? (directory ++ [fileHash ++ ".json"]) with
    | none => exact hentry
    | some entry =>
      have hthere := hextends _ _ hentry
      rw [hbare] at hthere
      cases hthere
  | append_singleton calls call ih =>
    rw [series, List.foldl_concat, ← series]
    exact ih.next hground hbare call

/-- After any splits in a directory that was empty, however their calls to chunk storage ended,
    there are entries and documents for the digests of those that gave a report, and no others.
    Both are of the first content with the digest: the entry has its size and its counts of stripes
    and chunks, and the document has a record with the same counts.  The next report, too, tells
    whether there was one with its digest before. -/
theorem series_in_step (splitter : Splitter) (files : FileTree)
    (hbare : files.Bare splitter.documents.root) (calls : List ScriptedSplit) :
    let series := splitter.series files calls
    (∀ fileHash, series.registry.contains fileHash ↔ fileHash ∈ hashes series.succeeded) ∧
      (∀ fileHash : String, '/' ∉ fileHash.toList →
        (series.files.exists? (splitter.documents.path fileHash) = .ok true ↔
          fileHash ∈ hashes series.succeeded)) ∧
      (∀ fileHash content, first? series.succeeded fileHash = some content →
        ∃ entry record, series.registry.get? fileHash = some entry ∧
          splitter.documents.load series.files fileHash = .ok record ∧
          entry.fileHash = fileHash ∧ entry.size = content.length ∧
          entry.stripeCount =
            (entry.size + splitter.stripeSize - 1) / splitter.stripeSize ∧
          entry.chunkCount = splitter.scheme.n * entry.stripeCount ∧
          record.stripes.length = entry.stripeCount ∧ record.chunkCount = entry.chunkCount) ∧
      ∀ call report, (splitter.splitNext series call).1 = .ok report →
        report.fileHash = (Digest.of call.content).hex ∧
          (report.alreadyStored = true ↔ report.fileHash ∈ hashes series.succeeded) := by
  intro series
  obtain ⟨prepared, directory, -, hextends, hground, hnone⟩ := hbare.exists_ground
  have hstep : splitter.InStep prepared directory series :=
    inStep_series hground hnone hextends calls
  refine ⟨fun fileHash => hstep.registers.contains_iff,
    fun fileHash hslash => hstep.documented.exists?_iff hground hslash,
    fun fileHash content hfirst => ?_, fun call report hreport => ?_⟩
  · obtain ⟨entry, hentry, htimeless⟩ := hstep.registers.get? hfirst
    have hread := hstep.documented.document fileHash content hfirst
    obtain rfl := hex_of_first? hfirst
    have hsize : entry.size = content.length := congrArg RegisteredFile.size htimeless
    have hstripes : entry.stripeCount = (splitter.record content).stripes.length :=
      congrArg RegisteredFile.stripeCount htimeless
    have hchunks : entry.chunkCount = (splitter.record content).chunkCount :=
      congrArg RegisteredFile.chunkCount htimeless
    refine ⟨entry, splitter.record content, hentry, Documents.load_of_read rfl hread,
      congrArg RegisteredFile.fileHash htimeless, hsize, ?_, ?_, hstripes.symm, hchunks.symm⟩
    · rw [hstripes, hsize, length_stripes_record]
    · rw [hchunks, hstripes, chunkCount_record]
  · rcases hstep.splitNext hground hnone call with ⟨⟨stop, hstop⟩, -⟩ | ⟨existed, hown, hiff, -⟩
    · rw [hstop] at hreport
      cases hreport
    · rw [hown] at hreport
      cases hreport
      exact ⟨rfl, hiff⟩

/-! ## One split that succeeds -/

/-- A split of one byte all of whose calls are acknowledged. -/
def sampleCall : ScriptedSplit :=
  ⟨.epoch, [7], fun _ _ => .success⟩

theorem allAnswered_sampleCall (splitter : Splitter) (stripes : List Bytes) :
    splitter.AllAnswered (.scripted sampleCall.script) ⟨[], .empty⟩ 0 stripes := by
  apply allAnswered_of_forall
  intro storage index stripe outcome houtcome
  obtain ⟨_, -, rfl⟩ := List.mem_map.mp houtcome
  rfl

theorem succeeded_sample :
    ((sample 1 Nat.one_pos).series .empty [sampleCall]).succeeded = [[7]] := by
  have hfits : (sample 1 Nat.one_pos).Fits sampleCall.content := fun h => absurd h.1 (by decide)
  have hstorage := ((sample 1 Nat.one_pos).storeStripes_scripted sampleCall.script
    (Stripe.segment (sample 1 Nat.one_pos).stripeSize sampleCall.content) ⟨[], .empty⟩ 0).1
  have hvacant : (sample 1 Nat.one_pos).documents.Vacant .empty
      (Digest.of sampleCall.content).hex :=
    Documents.vacant_of_fresh Documents.fresh_sample _
  obtain ⟨hreport, -⟩ := ((sample 1 Nat.one_pos).allAnswered_sampleCall _).split hfits
    (by rw [hstorage]; exact hvacant) sampleCall.now .empty
  have hnext : ((sample 1 Nat.one_pos).splitNext ⟨.empty, .empty, []⟩ sampleCall).1 =
      .ok ((sample 1 Nat.one_pos).report sampleCall.content false) :=
    hreport
  rw [series, List.foldl_cons, List.foldl_nil, succeeded_next_of_ok _ hnext]
  rfl

theorem series_in_step_sample :
    let splitter := sample 1 Nat.one_pos
    FileTree.empty.Bare splitter.documents.root ∧
      (splitter.series .empty [sampleCall]).registry.contains (Digest.of [7]).hex := by
  have hbare : FileTree.empty.Bare (sample 1 Nat.one_pos).documents.root :=
    Documents.fresh_sample.toBare
  refine ⟨hbare, ?_⟩
  apply ((series_in_step (sample 1 Nat.one_pos) .empty hbare [sampleCall]).1 _).mpr
  rw [succeeded_sample]
  exact List.mem_singleton_self _

end Splitter

end ShardVault
