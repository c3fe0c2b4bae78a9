import ShardVault.Proofs.Digest
import ShardVault.Proofs.Reconstruct.Length

/-!
What a reconstruction may return, whatever chunk storage answers and whatever the document holds:
only bytes with the digest asked for (`reconstruct_sound`).  To tell what a reconstruction does not
even ask for, `reconstructVia` is the same program with its two questions left to any effects;
without effects it is `reconstruct` (`reconstructVia_eq_reconstruct`).
-/

namespace ShardVault.Reconstructor

variable {κ : Type}

/-! ## The questions asked -/

/-- How a reconstruction gets the record of a file and the chunks of the stripe at a position. -/
structure Surroundings (m : Type → Type) where
  load : String → m (Except StorageError FileRecord)
  fetch : Nat → List GetChunkRequest → m (List (Nat × Option Bytes))

/-- The documents and the chunk storage at hand. -/
def surroundings (reconstructor : Reconstructor) (client : ChunkClient κ) (storage : Storage κ) :
    Surroundings Id where
  load := reconstructor.documents.load storage.files
  fetch := client.fetch storage

section Via

variable {m : Type → Type} [Monad m]

/-- Recovers stripes, with the questions left to their surroundings. -/
def recoverStripesVia (reconstructor : Reconstructor) (surroundings : Surroundings m) :
    Nat → List StripeRecord → m (Except StorageError (List Bytes))
  | _, [] => pure (.ok [])
  | index, record :: rest => do
    let hashes := record.chunkHashes
    let replies ← surroundings.fetch index (hashes.map fun hash => ⟨hash⟩)
    let slots :=
      collect hashes reconstructor.scheme.k replies (List.replicate hashes.length none)
    match reconstructor.reconstructStripe record slots with
    | .error e => return .error (.stripeUnrecoverable index e.message)
    | .ok stripe =>
      match ← recoverStripesVia reconstructor surroundings (index + 1) rest with
      | .error e => return .error e
      | .ok stripes => return .ok (stripe :: stripes)

/-- Rebuilds a file, with the questions left to their surroundings. -/
def reconstructVia (reconstructor : Reconstructor) (surroundings : Surroundings m)
    (fileHash : String) : m (Except (Stop StorageError) Bytes) := do
  match Digest.parse fileHash with
  | .error e => return .error (.refused (.ofSpelling e))
  | .ok expected =>
    match ← surroundings.load fileHash with
    | .error e => return .error (.refused e)
    | .ok record =>
      match ← recoverStripesVia reconstructor surroundings 0 record.stripes with
      | .error e => return .error (.refused e)
      | .ok stripes =>
        return stripPadding stripes.flatten ((stripes.getLast?.map List.length).getD 0) expected

end Via

theorem recoverStripesVia_eq_recoverStripes (reconstructor : Reconstructor)
    (client : ChunkClient κ) (storage : Storage κ) (index : Nat) (records : List StripeRecord) :
    recoverStripesVia reconstructor (reconstructor.surroundings client storage) index records =
      reconstructor.recoverStripes client storage index records := by
  induction records generalizing index with
  | nil => rfl
  | cons record rest ih =>
    rw [recoverStripesVia, recoverStripes, fetchShards]
    simp only [surroundings, bind, pure]
    cases reconstructor.reconstructStripe record _ with
    | error e => rfl
    | ok stripe =>
      have hrest := ih (index + 1)
      simp only [surroundings] at hrest
      simp only [hrest]
      cases reconstructor.recoverStripes client storage (index + 1) rest <;> rfl

/-- The program whose questions are answered at once is the reconstruction. -/
theorem reconstructVia_eq_reconstruct (reconstructor : Reconstructor) (client : ChunkClient κ)
    (storage : Storage κ) (fileHash : String) :
    reconstructVia reconstructor (reconstructor.surroundings client storage) fileHash =
      reconstructor.reconstruct client storage fileHash := by
  rw [reconstructVia, reconstruct]
  cases Digest.parse fileHash with
  | error e => rfl
  | ok expected =>
    simp only [bind, pure, recoverStripesVia_eq_recoverStripes]
    simp only [surroundings]
    cases reconstructor.documents.load storage.files fileHash with
    | error e => rfl
    | ok record =>
      cases reconstructor.recoverStripes client storage 0 record.stripes <;> rfl

/-! ## What is returned -/

variable {reconstructor : Reconstructor} {client : ChunkClient κ} {storage : Storage κ}

theorem hex_of_reconstructStripe {record : StripeRecord} {slots : List (Option Bytes)}
    {stripe : Bytes} (h : reconstructor.reconstructStripe record slots = .ok stripe) :
    (Digest.of stripe).hex = record.stripeHash := by
  simp only [reconstructStripe] at h
  split at h
  · cases h
  · split at h
    · cases h
    · split at h
      · rename_i hhash
        cases h
        exact hhash
      · cases h

/-- One more stripe is recovered if its slots give it and the stripes after it are recovered. -/
theorem recoverStripes_cons_eq_ok {index : Nat} {record : StripeRecord}
    {rest : List StripeRecord} {stripes : List Bytes}
    (h : reconstructor.recoverStripes client storage index (record :: rest) = .ok stripes) :
    ∃ stripe others, stripes = stripe :: others ∧
      reconstructor.reconstructStripe record
        (reconstructor.fetchShards client storage index record) = .ok stripe ∧
      reconstructor.recoverStripes client storage (index + 1) rest = .ok others := by
  simp only [recoverStripes] at h
  split at h
  · cases h
  · rename_i stripe hstripe
    split at h
    · cases h
    · rename_i others hothers
      cases h
      exact ⟨stripe, others, rfl, hstripe, hothers⟩

/-- Stripes that are recovered have the digests recorded for them. -/
theorem map_hex_of_recoverStripes {index : Nat} {records : List StripeRecord}
    {stripes : List Bytes}
    (h : reconstructor.recoverStripes client storage index records = .ok stripes) :
    stripes.map (fun stripe => (Digest.of stripe).hex) =
      records.map StripeRecord.stripeHash := by
  induction records generalizing index stripes with
  | nil =>
    cases h
    rfl
  | cons record rest ih =>
    obtain ⟨stripe, others, rfl, hstripe, hothers⟩ := recoverStripes_cons_eq_ok h
    rw [List.map_cons, List.map_cons, ih hothers, hex_of_reconstructStripe hstripe]

/-- A reconstruction that returns bytes has a record, and stripes recovered from it. -/
theorem of_reconstruct {fileHash : String} {bytes : Bytes}
    (h : reconstructor.reconstruct client storage fileHash = .ok bytes) :
    ∃ expected record stripes, Digest.parse fileHash = .ok expected ∧
      reconstructor.documents.load storage.files fileHash = .ok record ∧
      reconstructor.recoverStripes client storage 0 record.stripes = .ok stripes ∧
      stripPadding stripes.flatten ((stripes.getLast?.map List.length).getD 0) expected =
        .ok bytes := by
  simp only [reconstruct] at h
  split at h
  · cases h
  · rename_i expected hparse
    split at h
    · cases h
    · rename_i record hload
      split at h
      · cases h
      · rename_i stripes hstripes
        exact ⟨expected, record, stripes, hparse, hload, hstripes, h⟩

/-- A text that spells no digest is refused before anything is asked for. -/
theorem reconstructVia_of_not_hex (reconstructor : Reconstructor) {fileHash : String}
    (h : ∀ digest : Digest, fileHash ≠ digest.hex) :
    ∃ reason, ∀ (m : Type → Type) [Monad m] (surroundings : Surroundings m),
      reconstructVia reconstructor surroundings fileHash =
        pure (.error (.refused (.invalidHash reason))) := by
  cases hparse : Digest.parse fileHash with
  | ok digest => exact absurd (Digest.parse_eq_ok_iff.mp hparse) (h digest)
  | error e =>
    refine ⟨e.message, ?_⟩
    intro m _ surroundings
    simp only [reconstructVia, hparse]
    rfl

/-- Whatever chunk storage answers and whatever is in the place of the document, bytes are
    returned only under their own digest: they are what was recovered, stripe by stripe as
    recorded, without some zeros of the last stripe.  A text that spells no digest is refused with
    nothing asked for. -/
theorem reconstruct_sound (reconstructor : Reconstructor) (client : ChunkClient κ)
    (storage : Storage κ) (fileHash : String) :
    (∀ bytes, reconstructor.reconstruct client storage fileHash = .ok bytes →
      fileHash = (Digest.of bytes).hex ∧
      ∃ record stripes,
        reconstructor.documents.load storage.files fileHash = .ok record ∧
        reconstructor.recoverStripes client storage 0 record.stripes = .ok stripes ∧
        stripes.map (fun stripe => (Digest.of stripe).hex) =
          record.stripes.map StripeRecord.stripeHash ∧
        ∃ dropped, stripes.flatten = bytes ++ List.replicate dropped 0 ∧
          (stripes.flatten ≠ [] → ∃ last, stripes.getLast? = some last ∧ dropped < last.length)) ∧
    ((∀ digest : Digest, fileHash ≠ digest.hex) →
      ∃ reason, reconstructor.reconstruct client storage fileHash =
          .error (.refused (.invalidHash reason)) ∧
        ∀ (m : Type → Type) [Monad m] (surroundings : Surroundings m),
          reconstructVia reconstructor surroundings fileHash =
            pure (.error (.refused (.invalidHash reason)))) := by
  constructor
  · intro bytes h
    obtain ⟨expected, record, stripes, hparse, hload, hstripes, hstrip⟩ := of_reconstruct h
    obtain ⟨hdigest, dropped, hcontent, hdropped⟩ := of_stripPadding hstrip
    refine ⟨?_, record, stripes, hload, hstripes, map_hex_of_recoverStripes hstripes, dropped,
      hcontent, ?_⟩
    · rw [hdigest]
      exact Digest.parse_eq_ok_iff.mp hparse
    · intro hne
      cases hlast : stripes.getLast? with
      | none =>
        rw [List.getLast?_eq_none_iff.mp hlast] at hne
        exact absurd rfl hne
      | some last =>
        have hlt := hdropped hne
        rw [hlast] at hlt
        exact ⟨last, rfl, hlt⟩
  · intro h
    obtain ⟨reason, hvia⟩ := reconstructVia_of_not_hex reconstructor h
    refine ⟨reason, ?_, hvia⟩
    rw [← reconstructVia_eq_reconstruct]
    exact hvia Id (reconstructor.surroundings client storage)

end ShardVault.Reconstructor
