import ShardVault.Chunk.Memory
import ShardVault.Chunk.Store
import ShardVault.Proofs.Digest
import Mathlib.Data.Finset.Card
import Mathlib.Data.Set.Function

/-!
The chunk store over chunks in memory, in runs of calls and damage.  Without damage every chunk is
under its own digest (`Tells`); with it, what is acknowledged stays until its own chunk is damaged,
and nothing is given out under a digest that it does not have (`store_run`).
-/

namespace ShardVault

namespace MemoryChunks

/-! ## The map -/

@[simp] theorem get?_empty (digest : Digest) : empty.get? digest = none := by
  simp [ get?, empty]

@[simp] theorem get?_insert_self (chunks : MemoryChunks) (digest : Digest) (data : Bytes) :
    (chunks.insert digest data).get? digest = some data := by
  simp [ get?, insert]

@[simp] theorem get?_insert_of_ne (chunks : MemoryChunks) {digest other : Digest} (data : Bytes)
    (h : other ≠ digest) : (chunks.insert digest data).get? other = chunks.get? other := by
  simp [ get?, insert, Std.ExtTreeMap.getElem?_insert, Ne.symm h]

@[simp] theorem get?_erase_self (chunks : MemoryChunks) (digest : Digest) :
    (chunks.erase digest).get? digest = none := by
  simp [ get?, erase]

@[simp] theorem get?_erase_of_ne (chunks : MemoryChunks) {digest other : Digest}
    (h : other ≠ digest) : (chunks.erase digest).get? other = chunks.get? other := by
  simp [ get?, erase, Std.ExtTreeMap.getElem?_erase, Ne.symm h]

theorem size_insert (chunks : MemoryChunks) (digest : Digest) (data : Bytes) :
    (chunks.insert digest data).size =
      if (chunks.get? digest).isSome then chunks.size else chunks.size + 1 := by
  have hcontains : chunks.map.contains digest = (chunks.get? digest).isSome :=
    Std.ExtTreeMap.contains_eq_isSome_getElem?
  rw [size, insert, Std.ExtTreeMap.size_insert, hcontains, size]

theorem ext_get? {chunks other : MemoryChunks}
    (h : ∀ digest, chunks.get? digest = other.get? digest) : chunks = other := by
  obtain ⟨map⟩ := chunks
  obtain ⟨map'⟩ := other
  exact congrArg MemoryChunks.mk (Std.ExtTreeMap.ext_getElem? h)

/-- Where there is no chunk, none is lost. -/
theorem erase_of_none {chunks : MemoryChunks} {digest : Digest} (h : chunks.get? digest = none) :
    chunks.erase digest = chunks := by
  apply ext_get?
  intro other
  by_cases hother : other = digest
  · rw [hother, get?_erase_self, h]
  · rw [get?_erase_of_ne _ hother]

/-- The chunks with others put in under their digests, one after the other. -/
def insertAll (chunks : MemoryChunks) (added : List Bytes) : MemoryChunks :=
  added.foldl (fun chunks data => chunks.insert (Digest.of data) data) chunks

theorem insertAll_append (chunks : MemoryChunks) (added more : List Bytes) :
    chunks.insertAll (added ++ more) = (chunks.insertAll added).insertAll more := by
  rw [insertAll, List.foldl_append]
  rfl

theorem get?_insertAll_of_not_mem (chunks : MemoryChunks) {added : List Bytes} {digest : Digest}
    (h : digest ∉ added.map Digest.of) :
    (chunks.insertAll added).get? digest = chunks.get? digest := by
  induction added generalizing chunks with
  | nil => rfl
  | cons data rest ih =>
    rw [List.map_cons, List.mem_cons, not_or] at h
    rw [insertAll, List.foldl_cons, ← insertAll, ih _ h.2, get?_insert_of_ne _ _ h.1]

/-- Chunks of different digests are all there once they are put in. -/
theorem get?_insertAll_of_mem (chunks : MemoryChunks) {added : List Bytes}
    (hdistinct : Set.InjOn Digest.of {data | data ∈ added}) {data : Bytes} (h : data ∈ added) :
    (chunks.insertAll added).get? (Digest.of data) = some data := by
  induction added generalizing chunks with
  | nil => exact absurd h List.not_mem_nil
  | cons first rest ih =>
    rw [insertAll, List.foldl_cons, ← insertAll]
    have hrest : Set.InjOn Digest.of {data | data ∈ rest} :=
      hdistinct.mono fun _ hmem => List.mem_cons_of_mem _ hmem
    by_cases hagain : Digest.of data ∈ rest.map Digest.of
    · obtain ⟨own, hown, heq⟩ := List.mem_map.mp hagain
      obtain rfl := hdistinct (List.mem_cons_of_mem _ hown) h heq
      exact ih _ hrest hown
    · have hfirst : data = first := (List.mem_cons.mp h).resolve_right fun hmem =>
        hagain (List.mem_map_of_mem hmem)
      subst hfirst
      rw [get?_insertAll_of_not_mem _ hagain, get?_insert_self]

/-- It does not matter in which order and how often chunks of different digests are put in. -/
theorem insertAll_congr (chunks : MemoryChunks) {added other : List Bytes}
    (hdistinct : Set.InjOn Digest.of {data | data ∈ added})
    (h : ∀ data, data ∈ added ↔ data ∈ other) :
    chunks.insertAll added = chunks.insertAll other := by
  have hother : Set.InjOn Digest.of {data | data ∈ other} :=
    hdistinct.mono fun data hmem => (h data).mpr hmem
  apply ext_get?
  intro digest
  by_cases hmem : digest ∈ added.map Digest.of
  · obtain ⟨data, hdata, rfl⟩ := List.mem_map.mp hmem
    rw [get?_insertAll_of_mem chunks hdistinct hdata,
      get?_insertAll_of_mem chunks hother ((h data).mp hdata)]
  · have hnot : digest ∉ other.map Digest.of := by
      intro hmem'
      obtain ⟨data, hdata, rfl⟩ := List.mem_map.mp hmem'
      exact hmem (List.mem_map_of_mem ((h data).mpr hdata))
    rw [get?_insertAll_of_not_mem chunks hmem, get?_insertAll_of_not_mem chunks hnot]

end MemoryChunks

/-! ## One call -/

namespace Storage

section Claims

variable {κ : Type} [ChunkBackend κ] (storage : Storage κ) (data : Bytes)

/-- A chunk is refused, and nothing changes, if the claim does not spell its digest. -/
theorem storeChunk_of_false {claim : String} (h : claim ≠ (Digest.of data).hex) :
    storage.storeChunk data claim = (.ok .failure, storage) := by
  cases hparse : Digest.parse claim with
  | error e => simp only [storeChunk, hparse]
  | ok claimed =>
    obtain rfl := Digest.parse_eq_ok_iff.mp hparse
    have hverifies : ¬ claimed.verifies data = true := by
      rw [Digest.verifies_iff]
      rintro rfl
      exact h rfl
    simp only [storeChunk, hparse, if_neg hverifies]

/-- A chunk comes to the backend if the claim spells its digest. -/
theorem storeChunk_of_true :
    storage.storeChunk data (Digest.of data).hex =
      match ChunkBackend.put storage (Digest.of data) data with
      | (.ok (), storage) => (.ok .success, storage)
      | (.error e, storage) => (.error e, storage) := by
  have hverifies : (Digest.of data).verifies data = true := Digest.verifies_iff.mpr rfl
  rw [storeChunk, Digest.parse_hex]
  exact if_pos hverifies

end Claims

section Backends

variable {κ κ' : Type} [ChunkBackend κ] [ChunkBackend κ'] {storage : Storage κ}
  {storage' : Storage κ'}

/-- What a chunk store gives out depends only on what its backend gives. -/
theorem retrieveChunk_congr
    (h : ∀ digest, ChunkBackend.get? storage digest = ChunkBackend.get? storage' digest)
    (hash : String) : storage.retrieveChunk hash = storage'.retrieveChunk hash := by
  simp only [retrieveChunk, h]

theorem containsChunk_congr
    (h : ∀ digest, ChunkBackend.contains storage digest = ChunkBackend.contains storage' digest)
    (hash : String) : storage.containsChunk hash = storage'.containsChunk hash := by
  simp only [containsChunk, h]

end Backends

/-- A chunk is acknowledged and kept if the claim spells its digest, and otherwise refused. -/
theorem storeChunk_memory (storage : Storage MemoryChunks) (data : Bytes) (claim : String) :
    storage.storeChunk data claim =
      if claim = (Digest.of data).hex then
        (.ok .success, { storage with chunks := storage.chunks.insert (Digest.of data) data })
      else (.ok .failure, storage) := by
  split
  · rename_i hclaim
    rw [hclaim, storeChunk_of_true]
    rfl
  · rename_i hclaim
    exact storage.storeChunk_of_false data hclaim

/-- What is under a digest is given out if it has the digest. -/
theorem retrieveChunk_memory (storage : Storage MemoryChunks) (digest : Digest) :
    storage.retrieveChunk digest.hex =
      match storage.chunks.get? digest with
      | none => .ok none
      | some data =>
        if Digest.of data = digest then .ok (some data)
        else .error (.integrity digest.hex (Digest.of data).hex) := by
  have hget : ChunkBackend.get? storage digest = .ok (storage.chunks.get? digest) := rfl
  simp only [retrieveChunk, Digest.parse_hex, hget]
  cases storage.chunks.get? digest with
  | none => rfl
  | some data => simp only [Digest.verifies_iff]

/-- Whatever the backend gives, bytes are given out only under the spelling of their digest. -/
theorem eq_hex_of_retrieveChunk {κ : Type} [ChunkBackend κ] {storage : Storage κ} {hash : String}
    {data : Bytes} (h : storage.retrieveChunk hash = .ok (some data)) :
    hash = (Digest.of data).hex := by
  simp only [retrieveChunk] at h
  split at h
  · cases h
  · rename_i digest hparse
    split at h
    · cases h
    · cases h
    · split at h
      · rename_i hverifies
        cases h
        rw [Digest.verifies_iff.mp hverifies]
        exact Digest.parse_eq_ok_iff.mp hparse
      · cases h

end Storage

namespace MemoryChunks

/-! ## Runs -/

/-- One thing that happens to a chunk store. -/
inductive Event
  /-- Somebody stores a chunk, whatever the claim. -/
  | store (data : Bytes) (claim : String)
  /-- There are other bytes under a digest. -/
  | corrupt (digest : Digest) (data : Bytes)
  /-- The chunk under a digest is lost. -/
  | forget (digest : Digest)

/-- What is under a digest is replaced or lost, and nobody has checked it. -/
def Event.Damages (digest : Digest) : Event → Prop
  | .store _ _ => False
  | .corrupt own _ => own = digest
  | .forget own => own = digest

/-- The chunk that a storage acknowledges. -/
def Event.acknowledged? (storage : Storage MemoryChunks) : Event → Option Bytes
  | .store data claim =>
    match (storage.storeChunk data claim).1 with
    | .ok .success => some data
    | _ => none
  | _ => none

/-- What an event leaves behind. -/
def step (storage : Storage MemoryChunks) : Event → Storage MemoryChunks
  | .store data claim => (storage.storeChunk data claim).2
  | .corrupt digest data => { storage with chunks := storage.chunks.insert digest data }
  | .forget digest => { storage with chunks := storage.chunks.erase digest }

/-- What events leave behind. -/
def after (storage : Storage MemoryChunks) (events : List Event) : Storage MemoryChunks :=
  events.foldl step storage

/-- The chunks that are acknowledged on the way, in order. -/
def acknowledged (storage : Storage MemoryChunks) : List Event → List Bytes
  | [] => []
  | event :: rest => (event.acknowledged? storage).toList ++ acknowledged (step storage event) rest

theorem after_append (storage : Storage MemoryChunks) (before rest : List Event) :
    after storage (before ++ rest) = after (after storage before) rest := by
  rw [after, List.foldl_append]
  rfl

theorem acknowledged_append (storage : Storage MemoryChunks) (before rest : List Event) :
    acknowledged storage (before ++ rest) =
      acknowledged storage before ++ acknowledged (after storage before) rest := by
  induction before generalizing storage with
  | nil => rfl
  | cons event before ih =>
    rw [List.cons_append, acknowledged, ih, acknowledged, List.append_assoc]
    rfl

variable {storage : Storage MemoryChunks} {event : Event} {events : List Event} {digest : Digest}

/-- A call is acknowledged and keeps its chunk, or changes nothing. -/
theorem step_store_cases (storage : Storage MemoryChunks) (data : Bytes) (claim : String) :
    ((Event.store data claim).acknowledged? storage = some data ∧
        step storage (.store data claim) =
          { storage with chunks := storage.chunks.insert (Digest.of data) data }) ∨
      ((Event.store data claim).acknowledged? storage = none ∧
        step storage (.store data claim) = storage) := by
  simp only [Event.acknowledged?, step, Storage.storeChunk_memory]
  by_cases hclaim : claim = (Digest.of data).hex
  · exact .inl (by simp only [if_pos hclaim, and_self])
  · exact .inr (by simp only [if_neg hclaim, and_self])

/-! ## Without damage -/

/-- The chunks are those that have been acknowledged, each under its own digest. -/
structure Tells (chunks : MemoryChunks) (acked : List Bytes) : Prop where
  digest : ∀ digest data, chunks.get? digest = some data → Digest.of data = digest
  isSome_iff : ∀ digest, (chunks.get? digest).isSome ↔ digest ∈ acked.map Digest.of
  size : chunks.size = (acked.map Digest.of).toFinset.card

theorem tells_empty : empty.Tells [] where
  digest digest data h := by simp at h
  isSome_iff digest := by simp
  size := rfl

theorem Tells.insert {chunks : MemoryChunks} {acked : List Bytes} (h : chunks.Tells acked)
    (data : Bytes) : (chunks.insert (Digest.of data) data).Tells (acked ++ [data]) where
  digest own held hheld := by
    by_cases hown : own = Digest.of data
    · subst hown
      rw [get?_insert_self] at hheld
      rw [Option.some.inj hheld]
    · rw [get?_insert_of_ne _ _ hown] at hheld
      exact h.digest own held hheld
  isSome_iff own := by
    rw [List.map_append, List.mem_append, ← h.isSome_iff]
    by_cases hown : own = Digest.of data
    · subst hown
      simp
    · simp [get?_insert_of_ne _ _ hown, hown]
  size := by
    have hnew : ((acked ++ [data]).map Digest.of).toFinset =
        Insert.insert (Digest.of data) (acked.map Digest.of).toFinset := by
      rw [List.map_append, List.toFinset_append, Finset.union_comm]
      rfl
    rw [size_insert, hnew]
    by_cases hheld : (chunks.get? (Digest.of data)).isSome
    · rw [if_pos hheld, h.size,
        Finset.insert_eq_of_mem (List.mem_toFinset.mpr ((h.isSome_iff _).mp hheld))]
    · rw [if_neg hheld, h.size, Finset.card_insert_of_notMem]
      rw [List.mem_toFinset, ← h.isSome_iff]
      exact hheld

/-- A run without damage holds what it has acknowledged. -/
theorem Tells.after {acked : List Bytes} (h : storage.chunks.Tells acked)
    (hdamage : ∀ event ∈ events, ∀ digest, ¬ event.Damages digest) :
    (after storage events).chunks.Tells (acked ++ acknowledged storage events) := by
  induction events generalizing storage acked with
  | nil =>
    rw [acknowledged, List.append_nil]
    exact h
  | cons event rest ih =>
    have hrest : ∀ other ∈ rest, ∀ digest, ¬ other.Damages digest := fun other hother =>
      hdamage other (List.mem_cons_of_mem _ hother)
    rw [acknowledged, ← List.append_assoc]
    refine ih ?_ hrest
    cases event with
    | store data claim =>
      rcases step_store_cases storage data claim with ⟨hacked, hstep⟩ | ⟨hacked, hstep⟩
      · rw [hacked, hstep]
        exact h.insert data
      · rw [hacked, hstep, Option.toList_none, List.append_nil]
        exact h
    | corrupt own _ => exact absurd rfl (hdamage _ List.mem_cons_self own)
    | forget own => exact absurd rfl (hdamage _ List.mem_cons_self own)

/-! ## With damage -/

/-- What is under its digest stays, or gives way to other bytes of the digest, as long as it is not
    damaged. -/
theorem get?_step {held : Bytes} (hheld : storage.chunks.get? (Digest.of held) = some held)
    (hdamage : ¬ event.Damages (Digest.of held)) :
    ∃ next ∈ held :: (event.acknowledged? storage).toList, Digest.of next = Digest.of held ∧
      (step storage event).chunks.get? (Digest.of held) = some next := by
  cases event with
  | store data claim =>
    rcases step_store_cases storage data claim with ⟨hacked, hstep⟩ | ⟨hacked, hstep⟩
    · rw [hacked, hstep]
      by_cases hdata : Digest.of held = Digest.of data
      · exact ⟨data, by simp, hdata.symm, by rw [hdata, get?_insert_self]⟩
      · exact ⟨held, by simp, rfl, by rw [get?_insert_of_ne _ _ hdata, hheld]⟩
    · rw [hstep]
      exact ⟨held, List.mem_cons_self, rfl, hheld⟩
  | corrupt own data =>
    have hne : Digest.of held ≠ own := fun h => hdamage h.symm
    exact ⟨held, List.mem_cons_self, rfl, by rw [step, get?_insert_of_ne _ _ hne, hheld]⟩
  | forget own =>
    have hne : Digest.of held ≠ own := fun h => hdamage h.symm
    exact ⟨held, List.mem_cons_self, rfl, by rw [step, get?_erase_of_ne _ hne, hheld]⟩

/-- What is under its digest stays so over a run that does not damage it: it, or bytes of the same
    digest that are acknowledged later. -/
theorem get?_after {held : Bytes} (hheld : storage.chunks.get? (Digest.of held) = some held)
    (hdamage : ∀ event ∈ events, ¬ event.Damages (Digest.of held)) :
    ∃ last ∈ held :: acknowledged storage events, Digest.of last = Digest.of held ∧
      (after storage events).chunks.get? (Digest.of held) = some last := by
  induction events generalizing storage held with
  | nil => exact ⟨held, List.mem_cons_self, rfl, hheld⟩
  | cons event rest ih =>
    obtain ⟨next, hnext, hdigest, hget⟩ := get?_step hheld (hdamage event List.mem_cons_self)
    rw [← hdigest] at hget hdamage ⊢
    obtain ⟨last, hlast, hlastDigest, hafter⟩ :=
      ih hget fun other hother => hdamage other (List.mem_cons_of_mem _ hother)
    refine ⟨last, ?_, hlastDigest, hafter⟩
    rw [acknowledged]
    simp only [List.mem_cons, List.mem_append] at hnext hlast ⊢
    rcases hlast with rfl | hlast
    · exact hnext.imp_right .inl
    · exact .inr (.inr hlast)

/-- A chunk that is acknowledged can be retrieved until it is damaged. -/
theorem retrieveChunk_after_store {data : Bytes} {claim : String} {later : List Event}
    (hsuccess : (storage.storeChunk data claim).1 = .ok .success)
    (hdamage : ∀ event ∈ later, ¬ event.Damages (Digest.of data)) :
    ∃ held ∈ data :: acknowledged (step storage (.store data claim)) later,
      Digest.of held = Digest.of data ∧
        (after (step storage (.store data claim)) later).retrieveChunk (Digest.of data).hex =
          .ok (some held) := by
  have hget : (step storage (.store data claim)).chunks.get? (Digest.of data) = some data := by
    rw [Storage.storeChunk_memory] at hsuccess
    by_cases hclaim : claim = (Digest.of data).hex
    · rw [step, Storage.storeChunk_memory, if_pos hclaim, get?_insert_self]
    · rw [if_neg hclaim] at hsuccess
      cases hsuccess
  obtain ⟨held, hmem, hdigest, hheld⟩ := get?_after hget hdamage
  refine ⟨held, hmem, hdigest, ?_⟩
  rw [Storage.retrieveChunk_memory, hheld]
  exact if_pos hdigest

/-- All that is acknowledged from a call on is acknowledged in the whole run. -/
theorem acknowledged_from_subset {before : List Event} {data : Bytes} {claim : String}
    (hsuccess : ((after storage before).storeChunk data claim).1 = .ok .success)
    (later : List Event) :
    data :: acknowledged (step (after storage before) (.store data claim)) later ⊆
      acknowledged storage (before ++ .store data claim :: later) := by
  rw [acknowledged_append, acknowledged, Event.acknowledged?, hsuccess]
  exact List.subset_append_right _ _

/-- Over any run: a call is acknowledged exactly if its claim spells the digest of its bytes, and
    a refused one changes nothing.  Without damage every chunk is under its own digest, and there
    are as many chunks as digests acknowledged.  What is acknowledged, also after damage, can be
    retrieved until its own chunk is damaged.  Bytes are given out only under their own digest;
    others are reported with the digest that they have. -/
theorem store_run (files : FileTree) (events : List Event) :
    let start : Storage MemoryChunks := ⟨.empty, files⟩
    let storage := after start events
    let acked := acknowledged start events
    (∀ data claim,
      ((storage.storeChunk data claim).1 = .ok .success ↔ claim = (Digest.of data).hex) ∧
        (claim ≠ (Digest.of data).hex → storage.storeChunk data claim = (.ok .failure, storage))) ∧
      ((∀ event ∈ events, ∀ digest, ¬ event.Damages digest) →
        (∀ digest data, storage.chunks.get? digest = some data → Digest.of data = digest) ∧
          storage.chunks.size = (acked.map Digest.of).toFinset.card) ∧
      (∀ before data claim later, events = before ++ .store data claim :: later →
        ((after start before).storeChunk data claim).1 = .ok .success →
        (∀ event ∈ later, ¬ event.Damages (Digest.of data)) →
        ∃ held ∈ data :: acknowledged (step (after start before) (.store data claim)) later,
          storage.retrieveChunk (Digest.of data).hex = .ok (some held) ∧
            Digest.of held = Digest.of data ∧
            (Set.InjOn Digest.of {bytes | bytes ∈ acked} → held = data)) ∧
      (∀ hash data, storage.retrieveChunk hash = .ok (some data) → hash = (Digest.of data).hex) ∧
      ∀ digest, (storage.chunks.get? digest = none → storage.retrieveChunk digest.hex = .ok none) ∧
        ∀ data, storage.chunks.get? digest = some data → Digest.of data ≠ digest →
          storage.retrieveChunk digest.hex =
            .error (.integrity digest.hex (Digest.of data).hex) := by
  intro start storage acked
  refine ⟨fun data claim => ⟨?_, fun hclaim => ?_⟩, fun hdamage => ?_, ?_,
    fun hash data => Storage.eq_hex_of_retrieveChunk, fun digest => ⟨fun hnone => ?_, ?_⟩⟩
  · rw [Storage.storeChunk_memory]
    by_cases hclaim : claim = (Digest.of data).hex <;> simp [hclaim]
  · rw [Storage.storeChunk_memory, if_neg hclaim]
  · have htells : storage.chunks.Tells ([] ++ acked) := Tells.after tells_empty hdamage
    exact ⟨htells.digest, htells.size⟩
  · rintro before data claim later rfl hsuccess hdamage
    obtain ⟨held, hmem, hdigest, hretrieve⟩ := retrieveChunk_after_store hsuccess hdamage
    refine ⟨held, hmem, ?_, hdigest, fun hdistinct => ?_⟩
    · rw [← hretrieve]
      simp only [storage, after_append]
      rfl
    · have hsubset := acknowledged_from_subset hsuccess later
      exact hdistinct (hsubset hmem) (hsubset List.mem_cons_self) hdigest
  · rw [Storage.retrieveChunk_memory, hnone]
  · intro data hdata hdigest
    rw [Storage.retrieveChunk_memory, hdata]
    exact if_neg hdigest

end MemoryChunks

end ShardVault
