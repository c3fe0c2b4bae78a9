import ShardVault.Proofs.Reconstruct.Complete
import ShardVault.Proofs.Vault.Run

/-!
What a run leaves of its contents.  A content comes back exactly if each of its stripes has enough
shards under whose digests there still are bytes that have them; otherwise the first stripe that
has too few is reported (`reconstruct_run`).
-/

namespace ShardVault.Vault

open Reconstructor (Admissible)

variable (vault : Vault)

/-- Rebuilds a file from what the vault has. -/
def reconstructor : Reconstructor :=
  ⟨vault.splitter.scheme, vault.splitter.documents⟩

/-- What a vault gives for the digest of a file. -/
def reconstruct (state : State) (fileHash : String) : Except (Stop StorageError) Bytes :=
  vault.reconstructor.reconstruct (vault.service.client .none) state.storage fileHash

/-- The number of shards of a stripe under whose digests there are bytes that have them. -/
def intact (state : State) (stripe : Bytes) : Nat :=
  (vault.splitter.scheme.encode stripe).countP fun shard =>
    (state.storage.chunks.genuine? (Digest.of shard.data)).isSome

/-- The byte strings that are hashed for the contents of a run: the contents and their shards when
    they are split, what is under the shards' digests when they are fetched, and the candidates
    among which the length is searched. -/
inductive Hashed (events : List Event) (state : State) : Bytes → Prop
  | content {now content} (hsplit : .split now content ∈ events) : Hashed events state content
  | shard {now content stripe shard} (hsplit : .split now content ∈ events)
      (hstripe : stripe ∈ Stripe.segment vault.splitter.stripeSize content)
      (hshard : shard ∈ vault.splitter.scheme.encode stripe) : Hashed events state shard.data
  | held {now content stripe shard data} (hsplit : .split now content ∈ events)
      (hstripe : stripe ∈ Stripe.segment vault.splitter.stripeSize content)
      (hshard : shard ∈ vault.splitter.scheme.encode stripe)
      (hheld : state.storage.chunks.get? (Digest.of shard.data) = some data) :
      Hashed events state data
  | candidate {now content length} (hsplit : .split now content ∈ events)
      (hintact : ∀ stripe ∈ Stripe.segment vault.splitter.stripeSize content,
        vault.splitter.scheme.k ≤ vault.intact state stripe)
      (hlength : Admissible (Stripe.segment vault.splitter.stripeSize content).flatten
        vault.splitter.stripeSize length)
      (hle : length ≤ content.length) : Hashed events state (content.take length)

/-! ## One content -/

/-- What is under the digests of the shards of a stripe is the shards, if it has the digests. -/
def Faithful (state : State) (stripe : Bytes) : Prop :=
  ∀ shard ∈ vault.splitter.scheme.encode stripe, ∀ data,
    state.storage.chunks.genuine? (Digest.of shard.data) = some data → data = shard.data

variable {state : State} {stripe : Bytes} {events : List Event} {now : Instant} {content : Bytes}

/-- A shorter candidate with the content's digest would be another byte string hashed. -/
theorem digest_take_ne
    (hintact : ∀ stripe ∈ Stripe.segment vault.splitter.stripeSize content,
      vault.splitter.scheme.k ≤ vault.intact state stripe)
    (hdistinct : Set.InjOn Digest.of {bytes | vault.Hashed events state bytes})
    (hsplit : .split now content ∈ events) {shorter : Nat} (hshorter : shorter < content.length)
    (hcandidate : Admissible (Stripe.segment vault.splitter.stripeSize content).flatten
      vault.splitter.stripeSize shorter) :
    Digest.of (content.take shorter) ≠ Digest.of content := by
  intro heq
  have hsame := hdistinct (.candidate hsplit hintact hcandidate (Nat.le_of_lt hshorter))
    (.content hsplit) heq
  have hlengths := congrArg List.length hsame
  rw [List.length_take] at hlengths
  omega

theorem faithful_of_injOn
    (hdistinct : Set.InjOn Digest.of {bytes | vault.Hashed events state bytes})
    (hsplit : .split now content ∈ events)
    (hstripe : stripe ∈ Stripe.segment vault.splitter.stripeSize content) :
    vault.Faithful state stripe := by
  intro shard hshard data hdata
  obtain ⟨hheld, hdigest⟩ := MemoryChunks.genuine?_eq_some_iff.mp hdata
  exact hdistinct (.held hsplit hstripe hshard hheld) (.shard hsplit hstripe hshard) hdigest

theorem mem_contents : content ∈ contents events ↔ ∃ now, .split now content ∈ events := by
  rw [contents, List.mem_filterMap]
  constructor
  · rintro ⟨event, hevent, hcontent⟩
    cases event with
    | split now own =>
      cases hcontent
      exact ⟨now, hevent⟩
    | store data claim => cases hcontent
    | forget digest => cases hcontent
    | corrupt digest data => cases hcontent
  · rintro ⟨now, hsplit⟩
    exact ⟨_, hsplit, rfl⟩

/-- A content that was split has its own document if it fits, and otherwise none. -/
theorem document?_of_split
    (hdistinct : Set.InjOn Digest.of {bytes | vault.Hashed events state bytes})
    (hsplit : .split now content ∈ events) :
    vault.document? (contents events) (Digest.of content) =
      if vault.splitter.Fits content then some (vault.splitter.record content).document
      else none := by
  have hown {other : Bytes} (hother : other ∈ contents events)
      (hdigest : Digest.of other = Digest.of content) : other = content := by
    obtain ⟨_, hother⟩ := mem_contents.mp hother
    exact hdistinct (.content hother) (.content hsplit) hdigest
  rw [document?]
  cases hfind : (contents events).find? fun other =>
      decide (vault.splitter.Fits other ∧ Digest.of other = Digest.of content) with
  | some other =>
    have hfound := List.find?_some hfind
    obtain ⟨hfits, hdigest⟩ := of_decide_eq_true hfound
    obtain rfl := hown (List.mem_of_find?_eq_some hfind) hdigest
    rw [if_pos hfits, Option.map_some]
  | none =>
    rw [if_neg, Option.map_none]
    intro hfits
    have hnone := List.find?_eq_none.mp hfind content (mem_contents.mpr ⟨now, hsplit⟩)
    simp [hfits] at hnone

/-- What has no document is not found. -/
theorem reconstruct_of_no_document {contents : List Bytes} {digest : Digest}
    (h : vault.Keeps contents state.storage.files)
    (hnone : vault.document? contents digest = none) :
    vault.reconstruct state digest.hex = .error (.refused (.fileNotFound digest.hex)) := by
  obtain ⟨prepared, directory, hholds⟩ := h
  have hload : vault.reconstructor.documents.load state.storage.files digest.hex =
      .error (.fileNotFound digest.hex) :=
    hholds.load_none hnone
  simp only [reconstruct, Reconstructor.reconstruct, Digest.parse_hex, hload]

variable {vault}

/-- A file whose stripes all have enough intact shards comes back. -/
theorem reconstruct_of_intact
    (hload : vault.reconstructor.documents.load state.storage.files (Digest.of content).hex =
      .ok (vault.splitter.record content))
    (hintact : ∀ stripe ∈ Stripe.segment vault.splitter.stripeSize content,
      vault.splitter.scheme.k ≤ vault.intact state stripe)
    (hdistinct : Set.InjOn Digest.of {bytes | vault.Hashed events state bytes})
    (hsplit : .split now content ∈ events) :
    vault.reconstruct state (Digest.of content).hex = .ok content := by
  rw [Splitter.record_eq] at hload
  exact Reconstructor.reconstruct_of_intact (vault.service.answers_memory state.storage)
    vault.splitter.stripeSize_pos hload
    (fun _ hstripe => vault.faithful_of_injOn hdistinct hsplit hstripe) hintact
    fun _ hshorter => vault.digest_take_ne hintact hdistinct hsplit hshorter

/-- Of a file with other stripes the first is reported that has too few intact shards. -/
theorem reconstruct_of_few {before after : List Bytes}
    (hload : vault.reconstructor.documents.load state.storage.files (Digest.of content).hex =
      .ok (vault.splitter.record content))
    (hcut : Stripe.segment vault.splitter.stripeSize content = before ++ stripe :: after)
    (hintact : ∀ earlier ∈ before, vault.splitter.scheme.k ≤ vault.intact state earlier)
    (hfew : vault.intact state stripe < vault.splitter.scheme.k)
    (hdistinct : Set.InjOn Digest.of {bytes | vault.Hashed events state bytes})
    (hsplit : .split now content ∈ events) :
    vault.reconstruct state (Digest.of content).hex =
      .error (.refused (.stripeUnrecoverable before.length
        (StorageError.insufficientShards (vault.intact state stripe)
          vault.splitter.scheme.k).message)) := by
  have hfaithful : ∀ other ∈ before ++ stripe :: after, vault.Faithful state other := by
    rw [← hcut]
    exact fun _ hstripe => vault.faithful_of_injOn hdistinct hsplit hstripe
  have hcount : vault.reconstructor.scheme.intact state.storage.chunks.genuine? stripe <
      vault.reconstructor.scheme.k := hfew
  have hreported := Reconstructor.recoverStripes_of_few
    (vault.service.answers_memory state.storage) hfaithful hintact hcount 0
  rw [Splitter.record_eq, hcut] at hload
  rw [Nat.zero_add] at hreported
  exact Reconstructor.reconstruct_of_unrecovered hload hreported

/-- In a list either all satisfy a condition, or there is a first one that does not. -/
private theorem forall_or_first {α : Type} (p : α → Prop) (values : List α) :
    (∀ value ∈ values, p value) ∨
      ∃ before value after, values = before ++ value :: after ∧ (∀ earlier ∈ before, p earlier) ∧
        ¬ p value := by
  induction values with
  | nil => exact .inl fun value hvalue => absurd hvalue List.not_mem_nil
  | cons first rest ih =>
    by_cases hfirst : p first
    · rcases ih with hall | ⟨before, value, after, rfl, hbefore, hvalue⟩
      · exact .inl (List.forall_mem_cons.mpr ⟨hfirst, hall⟩)
      · exact .inr ⟨first :: before, value, after, rfl,
          List.forall_mem_cons.mpr ⟨hfirst, hbefore⟩, hvalue⟩
    · exact .inr ⟨[], first, rest, rfl, fun _ h => absurd h List.not_mem_nil, hfirst⟩

/-- At the end of any run every content that was split comes back, byte for byte, exactly if each
    of its stripes has `k` intact shards; if not, the first stripe with fewer is reported, with
    their number.  A content that does not fit has no document. -/
theorem reconstruct_run (vault : Vault) (files : FileTree) (events : List Event)
    (hfresh : files.Fresh vault.splitter.documents.root Documents.maxName)
    (hdistinct : Set.InjOn Digest.of
      {bytes | vault.Hashed events (vault.run files events) bytes})
    {now : Instant} {content : Bytes} (hsplit : .split now content ∈ events) :
    let state := vault.run files events
    let result := vault.reconstruct state (Digest.of content).hex
    let stripes := Stripe.segment vault.splitter.stripeSize content
    let k := vault.splitter.scheme.k
    if vault.splitter.Fits content then
      (result = .ok content ↔ ∀ stripe ∈ stripes, k ≤ vault.intact state stripe) ∧
        ∀ before stripe after, stripes = before ++ stripe :: after →
          (∀ earlier ∈ before, k ≤ vault.intact state earlier) → vault.intact state stripe < k →
          result = .error (.refused (.stripeUnrecoverable before.length
            (StorageError.insufficientShards (vault.intact state stripe) k).message))
    else result = .error (.refused (.fileNotFound (Digest.of content).hex)) := by
  intro state result stripes k
  have hkeeps : vault.Keeps (contents events) state.storage.files := keeps_run hfresh events
  have hdocument := vault.document?_of_split hdistinct hsplit
  split
  · rename_i hfits
    rw [if_pos hfits] at hdocument
    obtain ⟨prepared, directory, hholds⟩ := hkeeps
    have hload : vault.reconstructor.documents.load state.storage.files (Digest.of content).hex =
        .ok (vault.splitter.record content) :=
      hholds.load rfl hdocument
    refine ⟨⟨?_, fun hintact => reconstruct_of_intact hload hintact hdistinct hsplit⟩, ?_⟩
    · intro hresult
      rcases forall_or_first (fun stripe => k ≤ vault.intact state stripe) stripes with
        hall | ⟨before, stripe, after, hcut, hintact, hfew⟩
      · exact hall
      · have hreported := reconstruct_of_few hload hcut hintact (Nat.not_le.mp hfew) hdistinct
          hsplit
        cases hresult.symm.trans hreported
    · intro before stripe after hcut hintact hfew
      exact reconstruct_of_few hload hcut hintact hfew hdistinct hsplit
  · rename_i hfits
    rw [if_neg hfits] at hdocument
    exact vault.reconstruct_of_no_document hkeeps hdocument

/-! ## Small runs -/

/-- A vault that makes one shard of every stripe. -/
def sample (stripeSize : Nat) (h : 0 < stripeSize) : Vault where
  splitter := ⟨stripeSize, ⟨1, 1, by decide, by decide, by decide⟩, ⟨⟨["metadata"]⟩⟩, h⟩
  service := ⟨16, ChunkService.standardTimeout⟩

theorem fresh_sample (stripeSize : Nat) (h : 0 < stripeSize) :
    FileTree.empty.Fresh (sample stripeSize h).splitter.documents.root Documents.maxName :=
  Documents.fresh_sample

/-- The vault `sample` after a split of one byte into a stripe of one byte. -/
def sampleRun : State :=
  (sample 1 Nat.one_pos).run .empty [.split .epoch [7]]

theorem encode_sample (stripeSize : Nat) (h : 0 < stripeSize) :
    (sample stripeSize h).splitter.scheme.encode [7] = [⟨0, [7, 0], false⟩] :=
  Scheme.encode_single [7]

theorem fits_sample : (sample 1 Nat.one_pos).splitter.Fits [7] := by
  intro h
  exact absurd h.1 (by decide)

theorem segment_sample : Stripe.segment (sample 1 Nat.one_pos).splitter.stripeSize [7] = [[7]] := by
  simp [sample, Stripe.segment, Bytes.windows]

theorem get?_sampleRun :
    sampleRun.storage.chunks.get? (Digest.of [7, 0]) = some [7, 0] := by
  have hrequests : (sample 1 Nat.one_pos).splitter.requests [7] =
      [⟨[7, 0], (Digest.of [7, 0]).hex⟩] := by
    rw [Splitter.requests, encode_sample]
    rfl
  rw [sampleRun, run, List.foldl_cons, List.foldl_nil, chunks_step_split fits_sample,
    segment_sample, Splitter.keepStripes, List.foldl_cons, List.foldl_nil, hrequests,
    ChunkService.keepAll, List.foldl_cons, List.foldl_nil, MemoryChunks.get?, MemoryChunks.insert,
    Std.ExtTreeMap.getElem?_insert_self]

theorem hashed_sample {bytes : Bytes}
    (h : (sample 1 Nat.one_pos).Hashed [.split .epoch [7]] sampleRun bytes) :
    bytes = [7] ∨ bytes = [7, 0] := by
  have hcontent {now : Instant} {content : Bytes}
      (hsplit : Event.split now content ∈ [Event.split .epoch [7]]) : content = [7] := by
    cases List.mem_singleton.mp hsplit
    rfl
  have hshards {stripe : Bytes} {shard : Shard}
      (hstripe : stripe ∈ Stripe.segment (sample 1 Nat.one_pos).splitter.stripeSize [7])
      (hshard : shard ∈ (sample 1 Nat.one_pos).splitter.scheme.encode stripe) :
      shard.data = [7, 0] := by
    rw [segment_sample, List.mem_singleton] at hstripe
    subst hstripe
    rw [encode_sample, List.mem_singleton] at hshard
    rw [hshard]
  cases h with
  | content hsplit => exact .inl (hcontent hsplit)
  | shard hsplit hstripe hshard =>
    obtain rfl := hcontent hsplit
    exact .inr (hshards hstripe hshard)
  | held hsplit hstripe hshard hheld =>
    obtain rfl := hcontent hsplit
    rw [hshards hstripe hshard, get?_sampleRun] at hheld
    exact .inr (Option.some.inj hheld).symm
  | candidate hsplit hintact hlength hle =>
    obtain rfl := hcontent hsplit
    have hone := hlength.lt
    rw [segment_sample] at hone
    exact .inl (List.take_of_length_le (Nat.le_of_lt_succ hone))

theorem reconstruct_run_sample :
    FileTree.empty.Fresh (sample 1 Nat.one_pos).splitter.documents.root Documents.maxName ∧
      Set.InjOn Digest.of
        {bytes | (sample 1 Nat.one_pos).Hashed [.split .epoch [7]] sampleRun bytes} ∧
      (sample 1 Nat.one_pos).reconstruct sampleRun (Digest.of [7]).hex = .ok [7] := by
  have hfresh := fresh_sample 1 Nat.one_pos
  have hdistinct : Set.InjOn Digest.of
      {bytes | (sample 1 Nat.one_pos).Hashed [.split .epoch [7]] sampleRun bytes} := by
    intro bytes hbytes other hother heq
    rcases hashed_sample hbytes with rfl | rfl <;> rcases hashed_sample hother with rfl | rfl
    · rfl
    · exact absurd heq Digest.of_seven_ne
    · exact absurd heq.symm Digest.of_seven_ne
    · rfl
  refine ⟨hfresh, hdistinct, ?_⟩
  have hrun := reconstruct_run (sample 1 Nat.one_pos) .empty [.split .epoch [7]] hfresh hdistinct
    List.mem_cons_self
  rw [if_pos fits_sample] at hrun
  apply hrun.1.mpr
  intro stripe hstripe
  rw [segment_sample, List.mem_singleton] at hstripe
  subst hstripe
  have hgenuine : sampleRun.storage.chunks.genuine? (Digest.of [7, 0]) = some [7, 0] :=
    MemoryChunks.genuine?_eq_some_iff.mpr ⟨get?_sampleRun, rfl⟩
  change 1 ≤ (sample 1 Nat.one_pos).intact sampleRun [7]
  rw [intact, encode_sample]
  simp [hgenuine]

/-- A content that does not fit neither comes back nor has a stripe to report. -/
theorem reconstruct_run_breaks_off :
    let vault := sample (2 ^ 63) (by decide)
    let result := vault.reconstruct (vault.run .empty [.split .epoch [0]]) (Digest.of [0]).hex
    (∀ bytes, result ≠ .ok bytes) ∧
      ∀ index reason, result ≠ .error (.refused (.stripeUnrecoverable index reason)) := by
  intro vault result
  have hnone : vault.document? (contents [.split .epoch [0]]) (Digest.of [0]) = none := by
    have hfits : ¬ vault.splitter.Fits [0] := not_not.mpr ⟨by decide, by decide⟩
    simp [document?, contents, Event.content?, hfits]
  have hresult : result = .error (.refused (.fileNotFound (Digest.of [0]).hex)) :=
    vault.reconstruct_of_no_document
      (keeps_run (fresh_sample (2 ^ 63) (by decide)) [.split .epoch [0]]) hnone
  rw [hresult]
  constructor
  · intro bytes h
    cases h
  · intro index reason h
    cases h

end ShardVault.Vault
