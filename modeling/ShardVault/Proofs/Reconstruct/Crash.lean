import ShardVault.Proofs.Documents
import ShardVault.Proofs.Reconstruct.Complete

/-!
When a reconstruction breaks off.  The length search begins past the end of the content if there
are bytes but none in the last stripe, and that is the only way for a reconstruction to end without
a result and without an error (`reconstruct_eq_crash_iff`).
-/

namespace ShardVault.Reconstructor

/-! ## The length search -/

theorem lengthWithoutZeros_le_length (bytes : Bytes) : bytes.lengthWithoutZeros ≤ bytes.length := by
  rw [Bytes.lengthWithoutZeros_le_iff, List.drop_length]
  exact fun _ hbyte => absurd hbyte List.not_mem_nil

/-- The search begins within the content exactly if the last stripe has a byte. -/
theorem searchStart_le_iff {content : Bytes} (hcontent : content ≠ []) (lastLength : Nat) :
    max (content.length - lastLength + 1) content.lengthWithoutZeros ≤ content.length ↔
      lastLength ≠ 0 := by
  have hpos : 0 < content.length := List.length_pos_iff.mpr hcontent
  have hzeros := lengthWithoutZeros_le_length content
  rw [Nat.max_le]
  omega

theorem stripPadding_eq_crash_iff {content : Bytes} {lastLength : Nat} {expected : Digest} :
    stripPadding content lastLength expected = .error .crash ↔
      content ≠ [] ∧ lastLength = 0 := by
  by_cases hcontent : content = []
  · subst hcontent
    simp only [stripPadding, if_true]
    split <;> simp
  · have hstart := searchStart_le_iff hcontent lastLength
    by_cases hlast : lastLength = 0
    · have hlate := Nat.not_le.mp fun hwithin => hstart.mp hwithin hlast
      simp only [stripPadding, if_neg hcontent, if_pos hlate]
      simp [hcontent, hlast]
    · rw [stripPadding_of_start_le hcontent (hstart.mpr hlast)]
      split <;> simp [hlast]

/-- The last of stripes is no longer than all of them. -/
theorem length_getLast_le_length_flatten (stripes : List Bytes) :
    (stripes.getLast?.map List.length).getD 0 ≤ stripes.flatten.length := by
  cases hlast : stripes.getLast? with
  | none => exact Nat.zero_le _
  | some last =>
    obtain ⟨start, rfl⟩ := List.getLast?_eq_some_iff.mp hlast
    simp

theorem length_getLast_eq_zero_iff {stripes : List Bytes} (h : stripes.flatten ≠ []) :
    (stripes.getLast?.map List.length).getD 0 = 0 ↔ stripes.getLast? = some [] := by
  cases hlast : stripes.getLast? with
  | none =>
    rw [List.getLast?_eq_none_iff.mp hlast] at h
    exact absurd rfl h
  | some last => simp

/-! ## The reconstruction -/

variable {κ : Type}

/-- A reconstruction breaks off in one case only: there is a record under the digest asked for, all
    of its stripes are recovered, and there are bytes in them but none in the last.  In any other
    case with bytes the search begins within the content, and the last stripe is never longer than
    the content. -/
theorem reconstruct_eq_crash_iff (reconstructor : Reconstructor) (client : ChunkClient κ)
    (storage : Storage κ) (fileHash : String) :
    (reconstructor.reconstruct client storage fileHash = .error .crash ↔
      ∃ (digest : Digest) (record : FileRecord) (stripes : List Bytes),
        fileHash = digest.hex ∧
        reconstructor.documents.load storage.files fileHash = .ok record ∧
        reconstructor.recoverStripes client storage 0 record.stripes = .ok stripes ∧
        stripes.flatten ≠ [] ∧ stripes.getLast? = some []) ∧
    ∀ record stripes,
      reconstructor.documents.load storage.files fileHash = .ok record →
      reconstructor.recoverStripes client storage 0 record.stripes = .ok stripes →
      let content : Bytes := stripes.flatten
      let lastLength := (stripes.getLast?.map List.length).getD 0
      lastLength ≤ content.length ∧
        (content ≠ [] →
          (max (content.length - lastLength + 1) content.lengthWithoutZeros ≤ content.length ↔
            stripes.getLast? ≠ some [])) := by
  constructor
  · constructor
    · intro h
      simp only [reconstruct] at h
      split at h
      · cases h
      · rename_i digest hparse
        split at h
        · cases h
        · rename_i record hload
          split at h
          · cases h
          · rename_i stripes hstripes
            obtain ⟨hcontent, hlast⟩ := stripPadding_eq_crash_iff.mp h
            exact ⟨digest, record, stripes, Digest.parse_eq_ok_iff.mp hparse, hload, hstripes,
              hcontent, (length_getLast_eq_zero_iff hcontent).mp hlast⟩
    · rintro ⟨digest, record, stripes, rfl, hload, hstripes, hcontent, hlast⟩
      rw [reconstruct_of_recovered hload hstripes]
      exact stripPadding_eq_crash_iff.mpr
        ⟨hcontent, (length_getLast_eq_zero_iff hcontent).mpr hlast⟩
  · intro record stripes hload hstripes content lastLength
    refine ⟨length_getLast_le_length_flatten stripes, fun hcontent => ?_⟩
    rw [searchStart_le_iff hcontent, ne_eq, length_getLast_eq_zero_iff hcontent]

/-! ## A stripe of no bytes -/

/-- A record of a stripe of one byte and a stripe of no bytes, under the digest of another byte. -/
def unevenRecord : FileRecord :=
  .new (Digest.of [8]) ([[7], []].map Scheme.single.stripeRecord)

/-- The chunks of the stripes of `unevenRecord`, and its document. -/
def unevenStorage : Storage MemoryChunks :=
  ⟨(MemoryChunks.empty.insert (Digest.of [7, 0]) [7, 0]).insert (Digest.of [0]) [0],
    (Documents.sample.persist .empty unevenRecord).2⟩

theorem load_unevenStorage :
    Documents.sample.load unevenStorage.files (Digest.of [8]).hex = .ok unevenRecord := by
  obtain ⟨prepared, directory, hholds⟩ :=
    Documents.exists_holds_of_fresh Documents.fresh_sample
  obtain ⟨written, hpersist, hwritten⟩ := hholds.persist_new rfl unevenRecord rfl
  rw [unevenStorage, hpersist]
  exact hwritten.load rfl (if_pos rfl)

theorem genuine?_unevenStorage {stripe : Bytes} (h : stripe ∈ [[7], ([] : Bytes)]) :
    unevenStorage.chunks.genuine? (Digest.of (stripe ++ [0])) = some (stripe ++ [0]) := by
  have hne : Digest.of [7, 0] ≠ Digest.of [0] := Digest.of_ne_of_finish (by decide +kernel)
  rw [MemoryChunks.genuine?_eq_some_iff, unevenStorage]
  simp only [List.mem_cons, List.not_mem_nil, or_false] at h
  rcases h with rfl | rfl
  · rw [List.singleton_append, MemoryChunks.get?_insert_of_ne _ _ hne,
      MemoryChunks.get?_insert_self]
    exact ⟨rfl, rfl⟩
  · rw [List.nil_append, MemoryChunks.get?_insert_self]
    exact ⟨rfl, rfl⟩

/-- A document that lists a stripe of no bytes after one with a byte breaks a reconstruction off. -/
theorem reconstruct_breaks_off :
    let service : ChunkService := ⟨16, ChunkService.standardTimeout⟩
    let reconstructor : Reconstructor := ⟨.single, .sample⟩
    reconstructor.reconstruct (service.client .none) unevenStorage (Digest.of [8]).hex =
      .error .crash := by
  intro service reconstructor
  have hload : reconstructor.documents.load unevenStorage.files (Digest.of [8]).hex =
      .ok unevenRecord := load_unevenStorage
  have hrecovered : reconstructor.recoverStripes (service.client .none) unevenStorage 0
      unevenRecord.stripes = .ok [[7], []] := by
    apply recoverStripes_of_intact (service.answers_memory unevenStorage)
    · intro stripe hstripe shard hshard data hdata
      rw [Scheme.encode_single, List.mem_singleton] at hshard
      subst hshard
      rw [genuine?_unevenStorage hstripe] at hdata
      exact (Option.some.inj hdata).symm
    · intro stripe hstripe
      change 1 ≤ Scheme.single.intact _ stripe
      rw [Scheme.intact, Scheme.encode_single]
      simp [genuine?_unevenStorage hstripe]
  rw [reconstruct_of_recovered hload hrecovered]
  exact stripPadding_eq_crash_iff.mpr ⟨by simp, rfl⟩

end ShardVault.Reconstructor
