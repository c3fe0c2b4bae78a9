import ShardVault.Proofs.Code.Recovery
import ShardVault.Proofs.Digest
import ShardVault.Reconstruct

/-!
Fetching the chunks of a stripe.  Only replies with the digests recorded count, and the first of
them fill the slots until there are enough (`collect_eq_fill`).  Slots filled with shards of the
stripe give the stripe, or tell how many they are (`reconstructStripe_of_shards`).
-/

namespace ShardVault.Reconstructor

/-! ## Verified replies -/

variable {hashes : List String}

/-- The replies that count, with their positions. -/
def verifiedReplies (hashes : List String) (replies : List (Nat × Option Bytes)) :
    List (Nat × Bytes) :=
  replies.filterMap fun (index, data) =>
    (data.filter fun data => decide (hashes[index]? = some (Digest.of data).hex)).map (index, ·)

/-- The slots with these replies at their positions. -/
def fill (slots : List (Option Bytes)) (entries : List (Nat × Bytes)) : List (Option Bytes) :=
  entries.foldl (fun slots (index, data) => slots.set index (some data)) slots

/-- The slots are filled with the first replies that count, as many as are needed. -/
theorem collect_eq_fill (needed : Nat) (replies : List (Nat × Option Bytes))
    (slots : List (Option Bytes)) :
    collect hashes needed replies slots =
      fill slots ((verifiedReplies hashes replies).take needed) := by
  induction replies generalizing needed slots with
  | nil => cases needed <;> simp [collect, verifiedReplies, fill]
  | cons reply rest ih =>
    obtain ⟨index, data⟩ := reply
    cases needed with
    | zero => simp [collect, fill]
    | succ needed =>
      cases data with
      | none =>
        rw [collect, ih]
        rfl
      | some data =>
        by_cases hdata : hashes[index]? = some (Digest.of data).hex
        · rw [collect, if_pos hdata, ih]
          simp [verifiedReplies, fill, hdata, Option.filter]
        · rw [collect, if_neg hdata, ih]
          simp [verifiedReplies, hdata, Option.filter]

theorem length_fill (slots : List (Option Bytes)) (entries : List (Nat × Bytes)) :
    (fill slots entries).length = slots.length := by
  induction entries generalizing slots with
  | nil => rfl
  | cons entry rest ih =>
    rw [fill, List.foldl_cons, ← fill, ih, List.length_set]

/-- What a slot holds was there before or has come with an entry. -/
theorem getElem?_fill {slots : List (Option Bytes)} {entries : List (Nat × Bytes)} {index : Nat}
    {data : Bytes} (h : (fill slots entries)[index]? = some (some data)) :
    slots[index]? = some (some data) ∨ (index, data) ∈ entries := by
  induction entries generalizing slots with
  | nil => exact .inl h
  | cons entry rest ih =>
    obtain ⟨own, held⟩ := entry
    rw [fill, List.foldl_cons, ← fill] at h
    rcases ih h with hset | hrest
    · rw [List.getElem?_set] at hset
      split at hset
      · rename_i hown
        subst hown
        split at hset
        · cases hset
          exact .inr List.mem_cons_self
        · cases hset
      · exact .inl hset
    · exact .inr (List.mem_cons_of_mem _ hrest)

theorem getElem?_fill_of_notMem {slots : List (Option Bytes)} {entries : List (Nat × Bytes)}
    {index : Nat} (h : index ∉ entries.map Prod.fst) :
    (fill slots entries)[index]? = slots[index]? := by
  induction entries generalizing slots with
  | nil => rfl
  | cons entry rest ih =>
    obtain ⟨own, held⟩ := entry
    rw [List.map_cons, List.mem_cons, not_or] at h
    rw [fill, List.foldl_cons, ← fill, ih h.2, List.getElem?_set_ne (Ne.symm h.1)]

/-- Of entries no two of which are for one slot, each is what its slot holds in the end. -/
theorem getElem?_fill_of_mem {slots : List (Option Bytes)} {entries : List (Nat × Bytes)}
    (hnodup : (entries.map Prod.fst).Nodup)
    (hplace : ∀ entry ∈ entries, entry.1 < slots.length) {index : Nat} {data : Bytes}
    (h : (index, data) ∈ entries) : (fill slots entries)[index]? = some (some data) := by
  induction entries generalizing slots with
  | nil => cases h
  | cons entry rest ih =>
    rw [List.map_cons, List.nodup_cons] at hnodup
    rw [fill, List.foldl_cons, ← fill]
    rcases List.mem_cons.mp h with rfl | hrest
    · rw [getElem?_fill_of_notMem hnodup.1,
        List.getElem?_set_self (hplace _ List.mem_cons_self)]
    · refine ih hnodup.2 (fun other hother => ?_) hrest
      rw [List.length_set]
      exact hplace other (List.mem_cons_of_mem _ hother)

/-- Entries for empty slots, no two for one, fill as many slots as there are entries. -/
theorem countP_fill {slots : List (Option Bytes)} {entries : List (Nat × Bytes)}
    (hnodup : (entries.map Prod.fst).Nodup)
    (hempty : ∀ entry ∈ entries, slots[entry.1]? = some none) :
    (fill slots entries).countP Option.isSome = slots.countP Option.isSome + entries.length := by
  induction entries generalizing slots with
  | nil => rfl
  | cons entry rest ih =>
    obtain ⟨index, data⟩ := entry
    rw [List.map_cons, List.nodup_cons] at hnodup
    obtain ⟨hlt, hslot⟩ := List.getElem?_eq_some_iff.mp (hempty (index, data) List.mem_cons_self)
    have hrest : ∀ entry ∈ rest, (slots.set index (some data))[entry.1]? = some none := by
      intro entry hentry
      have hne : index ≠ entry.1 := by
        rintro rfl
        exact hnodup.1 (List.mem_map.mpr ⟨entry, hentry, rfl⟩)
      rw [List.getElem?_set_ne hne]
      exact hempty entry (List.mem_cons_of_mem _ hentry)
    rw [fill, List.foldl_cons, ← fill, ih hnodup.2 hrest, List.countP_set hlt, hslot,
      List.length_cons]
    simp
    omega

theorem mem_verifiedReplies {replies : List (Nat × Option Bytes)} {index : Nat} {data : Bytes} :
    (index, data) ∈ verifiedReplies hashes replies ↔
      (index, some data) ∈ replies ∧ hashes[index]? = some (Digest.of data).hex := by
  rw [verifiedReplies, List.mem_filterMap]
  constructor
  · rintro ⟨⟨own, reply⟩, hmem, hreply⟩
    obtain ⟨held, hheld, heq⟩ := Option.map_eq_some_iff.mp hreply
    obtain ⟨rfl, hhash⟩ := Option.filter_eq_some_iff.mp hheld
    cases heq
    exact ⟨hmem, of_decide_eq_true hhash⟩
  · rintro ⟨hmem, hhash⟩
    refine ⟨(index, some data), hmem, ?_⟩
    simp [Option.filter, hhash]

theorem sublist_verifiedReplies (hashes : List String) (replies : List (Nat × Option Bytes)) :
    ((verifiedReplies hashes replies).map Prod.fst).Sublist (replies.map Prod.fst) := by
  induction replies with
  | nil => exact .slnil
  | cons reply rest ih =>
    obtain ⟨index, data⟩ := reply
    rw [verifiedReplies, List.filterMap_cons]
    split
    · exact ih.cons _
    · rename_i entry hentry
      obtain ⟨held, -, rfl⟩ := Option.map_eq_some_iff.mp hentry
      exact ih.cons_cons _

/-! ## Collecting -/

section Collect

variable {replies : List (Nat × Option Bytes)} (needed : Nat)

/-- The slots for chunks with these digests, once enough replies have been looked at. -/
def collected (hashes : List String) (needed : Nat) (replies : List (Nat × Option Bytes)) :
    List (Option Bytes) :=
  collect hashes needed replies (List.replicate hashes.length none)

theorem length_collected : (collected hashes needed replies).length = hashes.length := by
  rw [collected, collect_eq_fill, length_fill, List.length_replicate]

variable (hperm : (replies.map Prod.fst).Perm (List.range hashes.length))

include hperm

theorem lt_of_mem_verifiedReplies {entry : Nat × Bytes}
    (h : entry ∈ (verifiedReplies hashes replies).take needed) : entry.1 < hashes.length := by
  obtain ⟨hreply, -⟩ := mem_verifiedReplies.mp (List.mem_of_mem_take h)
  exact List.mem_range.mp (hperm.mem_iff.mp (List.mem_map_of_mem hreply))

theorem nodup_verifiedReplies :
    (((verifiedReplies hashes replies).take needed).map Prod.fst).Nodup := by
  have hverified := (sublist_verifiedReplies hashes replies).nodup
    (hperm.nodup_iff.mpr List.nodup_range)
  exact ((List.take_sublist _ _).map _).nodup hverified

/-- A slot holds what came with the reply for it, if that is one of the first that count. -/
theorem getElem?_collected_iff {position : Nat} {data : Bytes} :
    (collected hashes needed replies)[position]? = some (some data) ↔
      (position, data) ∈ (verifiedReplies hashes replies).take needed := by
  rw [collected, collect_eq_fill]
  constructor
  · intro h
    rcases getElem?_fill h with hempty | hentry
    · rw [List.getElem?_replicate] at hempty
      split at hempty <;> cases hempty
    · exact hentry
  · apply getElem?_fill_of_mem (nodup_verifiedReplies needed hperm)
    intro entry hentry
    rw [List.length_replicate]
    exact lt_of_mem_verifiedReplies needed hperm hentry

/-- As many slots are filled as there are replies that count, but no more than are needed. -/
theorem countP_collected :
    (collected hashes needed replies).countP Option.isSome =
      min needed (verifiedReplies hashes replies).length := by
  rw [collected, collect_eq_fill, countP_fill (nodup_verifiedReplies needed hperm)]
  · rw [List.length_take, List.countP_replicate]
    simp
  · intro entry hentry
    rw [List.getElem?_replicate, if_pos (lt_of_mem_verifiedReplies needed hperm hentry)]

end Collect

/-! ## Slots of a stripe -/

variable {κ : Type} (reconstructor : Reconstructor) (client : ChunkClient κ)
  (storage : Storage κ) (index : Nat) (record : StripeRecord)

/-- The replies to the calls for a stripe. -/
def replies : List (Nat × Option Bytes) :=
  client.fetch storage index (record.chunkHashes.map fun hash => ⟨hash⟩)

theorem fetchShards_eq_collected :
    reconstructor.fetchShards client storage index record =
      collected record.chunkHashes reconstructor.scheme.k
        (replies client storage index record) :=
  rfl

theorem perm_replies : ((replies client storage index record).map Prod.fst).Perm
    (List.range record.chunkHashes.length) := by
  have hperm := client.fetch_perm storage index (record.chunkHashes.map fun hash => ⟨hash⟩)
  rwa [List.length_map] at hperm

theorem length_fetchShards :
    (reconstructor.fetchShards client storage index record).length =
      record.chunkHashes.length := by
  rw [fetchShards_eq_collected, length_collected]

/-- What a slot holds was given by its own call and has the digest recorded. -/
theorem getElem?_fetchShards {position : Nat} {data : Bytes}
    (h : (reconstructor.fetchShards client storage index record)[position]? = some (some data)) :
    (position, some data) ∈ replies client storage index record ∧
      record.chunkHashes[position]? = some (Digest.of data).hex := by
  rw [fetchShards_eq_collected,
    getElem?_collected_iff _ (perm_replies client storage index record)] at h
  exact mem_verifiedReplies.mp (List.mem_of_mem_take h)

/-- As many slots are filled as there are replies that count, but no more than are needed. -/
theorem countP_fetchShards :
    (reconstructor.fetchShards client storage index record).countP Option.isSome =
      min reconstructor.scheme.k
        (verifiedReplies record.chunkHashes (replies client storage index record)).length := by
  rw [fetchShards_eq_collected,
    countP_collected _ (perm_replies client storage index record)]

/-! ## Stripes -/

variable {reconstructor record} {stripe : Bytes} {slots : List (Option Bytes)}

/-- Nothing is left out of slots that have the digests recorded. -/
theorem verified_eq_self (hlength : slots.length = record.chunkHashes.length)
    (hhash : ∀ (position : Nat) (data : Bytes), slots[position]? = some (some data) →
      record.chunkHashes[position]? = some (Digest.of data).hex) :
    verified record slots = slots := by
  apply List.ext_getElem
  · rw [verified, List.length_map, List.length_zip, hlength, Nat.min_self]
  · intro position _ hposition
    have hslot := hhash position
    rw [List.getElem?_eq_getElem hposition] at hslot
    simp only [verified, List.getElem_map, List.getElem_zip]
    cases hdata : slots[position] with
    | none => rfl
    | some data =>
      have heq := hslot data (by rw [hdata])
      obtain ⟨hlt, hget⟩ := List.getElem?_eq_some_iff.mp heq
      simp [Option.filter, hget]

/-- Slots that hold shards of a stripe, with the digests recorded, give the stripe if there are
    enough of them, and otherwise tell how many there are. -/
theorem reconstructStripe_of_shards (hrecord : record.stripeHash = (Digest.of stripe).hex)
    (hlength : record.chunkHashes.length = reconstructor.scheme.n)
    (hhold : reconstructor.scheme.HoldShards stripe slots)
    (hhash : ∀ (position : Nat) (data : Bytes), slots[position]? = some (some data) →
      record.chunkHashes[position]? = some (Digest.of data).hex) :
    reconstructor.reconstructStripe record slots =
      if slots.countP Option.isSome < reconstructor.scheme.k then
        .error (.insufficientShards (slots.countP Option.isSome) reconstructor.scheme.k)
      else .ok stripe := by
  have hslots : slots.length = record.chunkHashes.length := hhold.length.trans hlength.symm
  have hchunks : slots.length = record.chunks.length := by
    rw [hslots, StripeRecord.chunkHashes, List.length_map]
  rw [reconstructStripe, if_neg (not_not.mpr hchunks), verified_eq_self hslots hhash,
    Scheme.decode_of_shards hhold]
  by_cases hfew : slots.countP Option.isSome < reconstructor.scheme.k
  · rw [if_pos hfew, if_pos hfew]
    rfl
  · rw [if_neg hfew, if_neg hfew]
    simp only [hrecord, if_true]

end ShardVault.Reconstructor
