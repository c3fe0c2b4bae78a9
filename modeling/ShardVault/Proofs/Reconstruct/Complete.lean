import ShardVault.Proofs.Reconstruct.Fetch
import ShardVault.Proofs.Reconstruct.Length
import ShardVault.Proofs.Split.Stored

/-!
Reconstruction over chunk storage that answers with what it holds.  A stripe is recovered if enough
of its shards are held, and otherwise told how many are (`reconstructStripe_fetchShards`); a file
whose stripes are all recovered comes back if no shorter candidate has its digest
(`reconstruct_of_intact`).
-/

namespace ShardVault

/-- The record that a scheme makes of a stripe. -/
def Scheme.stripeRecord (scheme : Scheme) (stripe : Bytes) : StripeRecord :=
  .new (Digest.of stripe) ((scheme.encode stripe).map fun shard => Digest.of shard.data)

/-- The number of shards of a stripe under whose digests something is held. -/
def Scheme.intact (scheme : Scheme) (held : Digest → Option Bytes) (stripe : Bytes) : Nat :=
  (scheme.encode stripe).countP fun shard => (held (Digest.of shard.data)).isSome

/-- What is held under the digests of the shards of a stripe are the shards. -/
def Scheme.Faithful (scheme : Scheme) (held : Digest → Option Bytes) (stripe : Bytes) : Prop :=
  ∀ shard ∈ scheme.encode stripe, ∀ data, held (Digest.of shard.data) = some data →
    data = shard.data

theorem Scheme.chunkHashes_stripeRecord (scheme : Scheme) (stripe : Bytes) :
    (scheme.stripeRecord stripe).chunkHashes =
      (scheme.encode stripe).map fun shard => (Digest.of shard.data).hex := by
  simp only [stripeRecord, StripeRecord.new, StripeRecord.chunkHashes, List.map_map,
    Function.comp_def]

theorem Scheme.length_chunkHashes_stripeRecord (scheme : Scheme) (stripe : Bytes) :
    (scheme.stripeRecord stripe).chunkHashes.length = scheme.n := by
  rw [chunkHashes_stripeRecord, List.length_map, Scheme.length_encode]

/-- The record of a content is made of those of its stripes. -/
theorem Splitter.record_eq (splitter : Splitter) (content : Bytes) :
    splitter.record content = .new (Digest.of content)
      ((Stripe.segment splitter.stripeSize content).map splitter.scheme.stripeRecord) := by
  have hstripe (stripe : Bytes) :
      recordOf stripe (splitter.requests stripe) = splitter.scheme.stripeRecord stripe := by
    simp only [recordOf, requests, StoreChunkRequest.ofShard, Scheme.stripeRecord,
      StripeRecord.new, List.map_map, Function.comp_def]
  simp only [record, hstripe]

namespace Reconstructor

variable {κ : Type} {client : ChunkClient κ} {storage : Storage κ} {held : Digest → Option Bytes}

/-! ## One stripe -/

section Replies

variable (h : client.Answers storage held) (scheme : Scheme) (index : Nat) (stripe : Bytes)

include h

theorem replies_perm :
    (replies client storage index (scheme.stripeRecord stripe)).Perm
      ((scheme.encode stripe).zipIdx.map fun (shard, position) =>
        (position, held (Digest.of shard.data))) := by
  have hperm := h.perm index ((scheme.encode stripe).map fun shard => Digest.of shard.data)
  rw [List.map_map, List.zipIdx_map, List.map_map] at hperm
  rw [replies, Scheme.chunkHashes_stripeRecord, List.map_map]
  exact hperm

theorem mem_replies {position : Nat} {data : Bytes}
    (hmem : (position, some data) ∈
      replies client storage index (scheme.stripeRecord stripe)) :
    ∃ shard, (scheme.encode stripe)[position]? = some shard ∧
      held (Digest.of shard.data) = some data := by
  have hmem := (replies_perm h scheme index stripe).mem_iff.mp hmem
  obtain ⟨⟨shard, own⟩, hentry, heq⟩ := List.mem_map.mp hmem
  obtain ⟨rfl, hdata⟩ := Prod.mk.inj heq
  exact ⟨shard, List.mem_zipIdx_iff_getElem?.mp hentry, hdata⟩

/-- The replies that count are as many as there are shards held. -/
theorem length_verifiedReplies :
    (verifiedReplies (scheme.stripeRecord stripe).chunkHashes
      (replies client storage index (scheme.stripeRecord stripe))).length =
        scheme.intact held stripe := by
  have hfst := congrArg (List.countP fun shard => (held (Digest.of shard.data)).isSome)
    (List.zipIdx_map_fst 0 (scheme.encode stripe))
  rw [verifiedReplies, ((replies_perm h scheme index stripe).filterMap _).length_eq,
    List.length_filterMap_eq_countP, List.countP_map, Scheme.intact, ← hfst, List.countP_map]
  apply List.countP_congr
  rintro ⟨shard, position⟩ hentry
  have hget := List.mem_zipIdx_iff_getElem?.mp hentry
  -- only what has the digest that is recorded for the call is given
  have hhash : (scheme.stripeRecord stripe).chunkHashes[position]? =
      some (Digest.of shard.data).hex := by
    rw [Scheme.chunkHashes_stripeRecord, List.getElem?_map, hget, Option.map_some]
  simp only [Function.comp_apply, hhash]
  cases hheld : held (Digest.of shard.data) with
  | none => rfl
  | some data =>
    have hdata := h.genuine _ _ hheld
    simp [Option.filter, hdata]

variable {reconstructor : Reconstructor} {stripe}

theorem holdShards_fetchShards (hfaithful : reconstructor.scheme.Faithful held stripe) :
    reconstructor.scheme.HoldShards stripe
      (reconstructor.fetchShards client storage index
        (reconstructor.scheme.stripeRecord stripe)) where
  length := by
    rw [length_fetchShards, Scheme.length_chunkHashes_stripeRecord]
  shard position data hslot := by
    obtain ⟨hreply, -⟩ := getElem?_fetchShards _ _ _ _ _ hslot
    obtain ⟨shard, hget, hheld⟩ := mem_replies h _ index stripe hreply
    rw [hfaithful shard (List.mem_of_getElem? hget) data hheld]
    exact Scheme.getElem?_shardBytes_of_encode _ _ hget

/-- A stripe is recovered if enough of its shards are held, and otherwise told how many are. -/
theorem reconstructStripe_fetchShards (hfaithful : reconstructor.scheme.Faithful held stripe) :
    let intact := reconstructor.scheme.intact held stripe
    reconstructor.reconstructStripe (reconstructor.scheme.stripeRecord stripe)
        (reconstructor.fetchShards client storage index
          (reconstructor.scheme.stripeRecord stripe)) =
      if intact < reconstructor.scheme.k then
        .error (.insufficientShards intact reconstructor.scheme.k)
      else .ok stripe := by
  intro intact
  have hcount := reconstructor.countP_fetchShards client storage index
    (reconstructor.scheme.stripeRecord stripe)
  rw [length_verifiedReplies h] at hcount
  rw [reconstructStripe_of_shards rfl (Scheme.length_chunkHashes_stripeRecord _ _)
    (holdShards_fetchShards h index hfaithful)
    fun position data hslot => (getElem?_fetchShards _ _ _ _ _ hslot).2, hcount]
  by_cases hfew : intact < reconstructor.scheme.k
  · rw [Nat.min_eq_right (Nat.le_of_lt hfew), if_pos hfew]
  · rw [Nat.min_eq_left (Nat.not_lt.mp hfew), if_neg (Nat.lt_irrefl _), if_neg hfew]

end Replies

/-! ## All stripes -/

variable {reconstructor : Reconstructor} (h : client.Answers storage held)

include h

/-- Stripes that all have enough shards held are recovered. -/
theorem recoverStripes_of_intact {stripes : List Bytes}
    (hfaithful : ∀ stripe ∈ stripes, reconstructor.scheme.Faithful held stripe)
    (hintact : ∀ stripe ∈ stripes,
      reconstructor.scheme.k ≤ reconstructor.scheme.intact held stripe) (index : Nat) :
    reconstructor.recoverStripes client storage index
      (stripes.map reconstructor.scheme.stripeRecord) = .ok stripes := by
  induction stripes generalizing index with
  | nil => rfl
  | cons stripe rest ih =>
    have hstripe := reconstructStripe_fetchShards h index (hfaithful stripe List.mem_cons_self)
    simp only [if_neg (Nat.not_lt.mpr (hintact stripe List.mem_cons_self))] at hstripe
    have hrest := ih (fun other hother => hfaithful other (List.mem_cons_of_mem _ hother))
      (fun other hother => hintact other (List.mem_cons_of_mem _ hother)) (index + 1)
    simp only [List.map_cons, recoverStripes, hstripe, hrest]

/-- The first stripe with too few shards held is reported. -/
theorem recoverStripes_of_few {before after : List Bytes} {stripe : Bytes}
    (hfaithful : ∀ other ∈ before ++ stripe :: after, reconstructor.scheme.Faithful held other)
    (hintact : ∀ earlier ∈ before,
      reconstructor.scheme.k ≤ reconstructor.scheme.intact held earlier)
    (hfew : reconstructor.scheme.intact held stripe < reconstructor.scheme.k) (index : Nat) :
    reconstructor.recoverStripes client storage index
        ((before ++ stripe :: after).map reconstructor.scheme.stripeRecord) =
      .error (.stripeUnrecoverable (index + before.length)
        (StorageError.insufficientShards (reconstructor.scheme.intact held stripe)
          reconstructor.scheme.k).message) := by
  induction before generalizing index with
  | nil =>
    have hstripe := reconstructStripe_fetchShards h index (hfaithful stripe List.mem_cons_self)
    simp only [if_pos hfew] at hstripe
    simp only [List.nil_append, List.map_cons, recoverStripes, hstripe]
    rfl
  | cons first rest ih =>
    have hstripe := reconstructStripe_fetchShards h index (hfaithful first List.mem_cons_self)
    simp only [if_neg (Nat.not_lt.mpr (hintact first List.mem_cons_self))] at hstripe
    have hrest := ih (fun other hother => hfaithful other (List.mem_cons_of_mem _ hother))
      (fun other hother => hintact other (List.mem_cons_of_mem _ hother)) (index + 1)
    simp only [List.cons_append, List.map_cons, recoverStripes, hstripe, hrest,
      List.length_cons, Nat.add_assoc, Nat.add_comm 1]

omit h

/-! ## The file -/

/-- Once all stripes are recovered the length decides. -/
theorem reconstruct_of_recovered {digest : Digest} {record : FileRecord} {stripes : List Bytes}
    (hload : reconstructor.documents.load storage.files digest.hex = .ok record)
    (hstripes : reconstructor.recoverStripes client storage 0 record.stripes = .ok stripes) :
    reconstructor.reconstruct client storage digest.hex =
      stripPadding stripes.flatten ((stripes.getLast?.map List.length).getD 0) digest := by
  simp only [reconstruct, Digest.parse_hex, hload, hstripes]

/-- A stripe that is not recovered is reported. -/
theorem reconstruct_of_unrecovered {digest : Digest} {record : FileRecord} {cause : StorageError}
    (hload : reconstructor.documents.load storage.files digest.hex = .ok record)
    (hstripes : reconstructor.recoverStripes client storage 0 record.stripes = .error cause) :
    reconstructor.reconstruct client storage digest.hex = .error (.refused cause) := by
  simp only [reconstruct, Digest.parse_hex, hload, hstripes]

/-- The zeros that fill the last stripe are told from those of the content, if no shorter candidate
    has the content's digest. -/
theorem stripPadding_segment {size : Nat} (hsize : 0 < size) {content : Bytes}
    (hleast : ∀ shorter < content.length,
      Admissible (Stripe.segment size content).flatten size shorter →
        Digest.of (content.take shorter) ≠ Digest.of content) :
    let stripes := Stripe.segment size content
    stripPadding stripes.flatten ((stripes.getLast?.map List.length).getD 0)
      (Digest.of content) = .ok content := by
  intro stripes
  obtain ⟨added, hadded, hflatten⟩ := Stripe.flatten_segment hsize content
  by_cases hcontent : content = []
  · subst hcontent
    simp only [stripes, Stripe.segment_nil]
    simp [stripPadding]
  · have hpos : 0 < content.length := List.length_pos_iff.mpr hcontent
    have hle : size ≤ stripes.flatten.length :=
      Stripe.size_le_length_flatten_segment hsize hcontent
    have hlength : stripes.flatten.length = content.length + added := by
      simp only [stripes, hflatten, List.length_append, List.length_replicate]
    have hne : stripes.flatten ≠ [] := by
      rw [← List.length_pos_iff]
      omega
    have htake {length : Nat} (hlength : length ≤ content.length) :
        stripes.flatten.take length = content.take length := by
      simp only [stripes, hflatten]
      exact List.take_append_of_le_length hlength
    have hadmissible : Admissible stripes.flatten size content.length := by
      refine ⟨by omega, by omega, ?_⟩
      simp only [stripes, hflatten, List.drop_left]
      exact fun byte hbyte => List.eq_of_mem_replicate hbyte
    have hdigest : Digest.of (stripes.flatten.take content.length) = Digest.of content := by
      rw [htake (Nat.le_refl _), List.take_length]
    rw [Stripe.length_getLast_segment hsize hcontent,
      stripPadding_of_least hne hle hadmissible hdigest, htake (Nat.le_refl _), List.take_length]
    intro shorter hshorter hcandidate
    rw [htake (Nat.le_of_lt hshorter)]
    exact hleast shorter hshorter hcandidate

include h

/-- A file whose stripes all have enough shards held comes back, if no shorter candidate has its
    digest. -/
theorem reconstruct_of_intact {size : Nat} (hsize : 0 < size) {content : Bytes}
    (hload : reconstructor.documents.load storage.files (Digest.of content).hex =
      .ok (.new (Digest.of content)
        ((Stripe.segment size content).map reconstructor.scheme.stripeRecord)))
    (hfaithful : ∀ stripe ∈ Stripe.segment size content,
      reconstructor.scheme.Faithful held stripe)
    (hintact : ∀ stripe ∈ Stripe.segment size content,
      reconstructor.scheme.k ≤ reconstructor.scheme.intact held stripe)
    (hleast : ∀ shorter < content.length,
      Admissible (Stripe.segment size content).flatten size shorter →
        Digest.of (content.take shorter) ≠ Digest.of content) :
    reconstructor.reconstruct client storage (Digest.of content).hex = .ok content := by
  rw [reconstruct_of_recovered hload (recoverStripes_of_intact h hfaithful hintact 0)]
  exact stripPadding_segment hsize hleast

end Reconstructor

end ShardVault
