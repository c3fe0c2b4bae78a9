import ShardVault.Code.Recovery
import ShardVault.Proofs.Code.Shard

/-!
Recovery of blocks.  Slots that hold shards of a block, each at its own position, give the block
back if they hold `k` of them, whichever these are, and otherwise tell how many they hold
(`decodePadded_of_shards`, `decode_of_shards`).
-/

namespace ShardVault.Scheme

open Polynomial

/-! ## Slots in use -/

/-- The positions of the slots that hold something, with what they hold. -/
def held (slots : List (Option Bytes)) : List (Nat × Bytes) :=
  slots.zipIdx.filterMap fun (slot, index) => slot.map (index, ·)

theorem mem_held {slots : List (Option Bytes)} {entry : Nat × Bytes} :
    entry ∈ held slots ↔ slots[entry.1]? = some (some entry.2) := by
  obtain ⟨index, data⟩ := entry
  rw [held, List.mem_filterMap]
  constructor
  · rintro ⟨⟨slot, own⟩, hmem, hsome⟩
    obtain ⟨bytes, rfl, heq⟩ := Option.map_eq_some_iff.mp hsome
    obtain ⟨rfl, rfl⟩ := Prod.mk.inj heq
    exact List.mem_zipIdx_iff_getElem?.mp hmem
  · intro hget
    exact ⟨(some data, index), List.mem_zipIdx_iff_getElem?.mpr hget, rfl⟩

/-- As many slots are in use as hold something. -/
theorem length_held (slots : List (Option Bytes)) :
    (held slots).length = slots.countP Option.isSome := by
  have hfst := congrArg (List.countP Option.isSome) (List.zipIdx_map_fst 0 slots)
  rw [List.countP_map] at hfst
  rw [held, List.length_filterMap_eq_countP, ← hfst]
  congr 1
  funext entry
  simp

theorem held_append (before after : List (Option Bytes)) :
    held (before ++ after) = held before ++
      (after.zipIdx before.length).filterMap fun (slot, index) => slot.map (index, ·) := by
  rw [held, List.zipIdx_append, List.filterMap_append, Nat.zero_add]
  rfl

private theorem positions_filterMap_slots (entries : List (Option Bytes × Nat)) :
    ((entries.filterMap fun (slot, index) => slot.map (index, ·)).map Prod.fst).Sublist
      (entries.map Prod.snd) := by
  induction entries with
  | nil => exact .slnil
  | cons entry rest ih =>
    obtain ⟨slot, index⟩ := entry
    cases slot with
    | none => exact ih.cons _
    | some data => exact ih.cons_cons _

theorem nodup_held (slots : List (Option Bytes)) : ((held slots).map Prod.fst).Nodup := by
  apply (positions_filterMap_slots slots.zipIdx).nodup
  rw [List.zipIdx_map_snd]
  exact List.nodup_range'

/-- The shards present are what the slots in use hold, at the points of their positions. -/
theorem present_eq_map_held (slots : List (Option Bytes)) :
    present slots = (held slots).map fun (index, data) => (GF256.ofIndex index, data) := by
  rw [present, held, List.map_filterMap]
  congr 1
  funext entry
  rw [Option.map_map]
  rfl

theorem mem_present {slots : List (Option Bytes)} {entry : GF256 × Bytes} :
    entry ∈ present slots ↔
      ∃ index, slots[index]? = some (some entry.2) ∧ GF256.ofIndex index = entry.1 := by
  rw [present_eq_map_held, List.mem_map]
  constructor
  · rintro ⟨own, hown, rfl⟩
    exact ⟨own.1, mem_held.mp hown, rfl⟩
  · rintro ⟨index, hget, hpoint⟩
    exact ⟨(index, entry.2), mem_held.mpr hget, Prod.ext hpoint rfl⟩

theorem length_present (slots : List (Option Bytes)) :
    (present slots).length = slots.countP Option.isSome := by
  rw [present_eq_map_held, List.length_map, length_held]

theorem position_lt_of_mem_held {slots : List (Option Bytes)} {entry : Nat × Bytes}
    (h : entry ∈ held slots) : entry.1 < slots.length :=
  (List.getElem?_eq_some_iff.mp (mem_held.mp h)).1

theorem nodup_points_present {slots : List (Option Bytes)} (h : slots.length ≤ 256) :
    ((present slots).map Prod.fst).Nodup := by
  have hpoints : (present slots).map Prod.fst =
      ((held slots).map Prod.fst).map GF256.ofIndex := by
    rw [present_eq_map_held, List.map_map, List.map_map]
    rfl
  have hposition {index : Nat} (hindex : index ∈ (held slots).map Prod.fst) : index < 256 := by
    obtain ⟨entry, hentry, rfl⟩ := List.mem_map.mp hindex
    exact (position_lt_of_mem_held hentry).trans_le h
  rw [hpoints]
  apply List.Nodup.map_on _ (nodup_held slots)
  intro index hindex other hother heq
  exact GF256.ofIndex_injOn (hposition hindex) (hposition hother) heq

/-! ## Recovery -/

variable (s : Scheme) (block : Bytes)

/-- As many shards of a block as it has data shards, each at the point of its position. -/
structure Enough (chosen : List (GF256 × Bytes)) : Prop where
  length : chosen.length = s.k
  nodup : (chosen.map Prod.fst).Nodup
  shard : ∀ entry ∈ chosen, ∃ index, (s.shardBytes block)[index]? = some entry.2 ∧
    GF256.ofIndex index = entry.1

/-- There is a slot for every shard of a block, and what slots hold are the shards of their
    positions. -/
structure HoldShards (slots : List (Option Bytes)) : Prop where
  length : slots.length = s.n
  shard : ∀ (index : Nat) (data : Bytes), slots[index]? = some (some data) →
    (s.shardBytes block)[index]? = some data

variable {s block} {slots : List (Option Bytes)} {chosen : List (GF256 × Bytes)}

theorem Enough.length_of_mem (h : s.Enough block chosen) {entry : GF256 × Bytes}
    (hentry : entry ∈ chosen) : entry.2.length = block.length / s.k + 1 := by
  obtain ⟨own, hown, -⟩ := h.shard entry hentry
  exact s.length_of_mem_shardBytes block (List.mem_of_getElem? hown)

/-- Any `k` shards at points of their own determine every data shard. -/
theorem Enough.valueAt_eq (h : s.Enough block chosen) {index : Nat} {shard : Bytes}
    (hget : (s.dataShards block)[index]? = some shard) :
    Interpolation.valueAt (block.length / s.k + 1) chosen (GF256.ofIndex index) = shard := by
  have hmax : (s.dataShards block).length ≤ 256 := by
    rw [length_dataShards]
    exact s.k_le_max
  have hlength : ∀ entry ∈ chosen, entry.2.length = block.length / s.k + 1 :=
    fun _ hentry => h.length_of_mem hentry
  have hvalue := Interpolation.length_valueAt hlength (GF256.ofIndex index)
  have hshard := s.length_of_mem_dataShards block (List.mem_of_getElem? hget)
  apply eq_of_byteAt (hvalue.trans hshard.symm)
  intro place hplace
  rw [hvalue] at hplace
  rw [← eval_column hmax hget]
  apply Interpolation.byteAt_valueAt h.nodup hlength hplace
  · have hdegree := degree_column_lt hmax place
    rwa [length_dataShards, ← h.length] at hdegree
  · intro entry hentry
    obtain ⟨own, hown, hpoint⟩ := h.shard entry hentry
    rw [s.byteAt_of_getElem?_shardBytes block hown hplace, hpoint]

theorem Enough.map_valueAt (h : s.Enough block chosen) :
    (List.range s.k).map (fun index =>
      Interpolation.valueAt (block.length / s.k + 1) chosen (GF256.ofIndex index)) =
        s.dataShards block := by
  apply List.ext_getElem
  · rw [List.length_map, List.length_range, length_dataShards]
  · intro index _ hindex
    rw [List.getElem_map, List.getElem_range]
    exact h.valueAt_eq (List.getElem?_eq_getElem hindex)

/-- The first `k` shards that slots hold are enough, if they hold as many. -/
theorem HoldShards.enough (h : s.HoldShards block slots)
    (hk : s.k ≤ slots.countP Option.isSome) : s.Enough block ((present slots).take s.k) where
  length := by
    rw [List.length_take, length_present]
    omega
  nodup :=
    ((List.take_sublist _ _).map _).nodup (nodup_points_present (h.length ▸ s.n_le))
  shard entry hentry := by
    obtain ⟨index, hget, hpoint⟩ := mem_present.mp (List.mem_of_mem_take hentry)
    exact ⟨index, h.shard index _ hget, hpoint⟩

/-- Shards of different lengths among the first ones present cannot be put together. -/
theorem decodePadded_of_unequal (hslots : slots.length = s.n)
    (hmany : s.k ≤ slots.countP Option.isSome) {left right : GF256 × Bytes}
    (hleft : left ∈ (present slots).take s.k) (hright : right ∈ (present slots).take s.k)
    (hne : left.2.length ≠ right.2.length) :
    s.decodePadded slots = .error (.coding .unequalLengths) := by
  simp only [decodePadded]
  rw [if_neg (not_not.mpr hslots), length_present, if_neg (Nat.not_lt.mpr hmany), if_pos]
  rw [List.any_eq_true]
  generalize (((present slots).take s.k).head?.map (·.2.length)).getD 0 = length
  by_cases hlength : left.2.length = length
  · exact ⟨right, hright, by simpa [hlength] using hne.symm⟩
  · exact ⟨left, hleft, by simpa using hlength⟩

/-- The first shards present, as many as there are data shards, give all data shards if they have
    one length, unless there are parity shards and the shards have no bytes. -/
theorem decodePadded_of_equal (hslots : slots.length = s.n)
    (hmany : s.k ≤ slots.countP Option.isSome) {length : Nat}
    (hequal : ∀ entry ∈ (present slots).take s.k, entry.2.length = length) :
    s.decodePadded slots =
      if s.k < s.n ∧ length = 0 then .error (.coding .noBytes)
      else .ok ((List.range s.k).flatMap fun index =>
        Interpolation.valueAt length ((present slots).take s.k) (GF256.ofIndex index)) := by
  have hcount : ((present slots).take s.k).length = s.k := by
    rw [List.length_take, length_present]
    omega
  simp only [decodePadded]
  rw [if_neg (not_not.mpr hslots), length_present, if_neg (Nat.not_lt.mpr hmany)]
  generalize (present slots).take s.k = chosen at hequal hcount
  obtain ⟨first, rest, rfl⟩ : ∃ first rest, chosen = first :: rest :=
    List.exists_cons_of_length_pos (hcount ▸ s.k_pos)
  have hfirst := hequal first List.mem_cons_self
  have hnone : ((first :: rest).any fun entry => decide (entry.2.length ≠ length)) = false := by
    rw [List.any_eq_false]
    intro entry hentry
    simpa using hequal entry hentry
  simp only [List.head?_cons, Option.map_some, Option.getD_some, hfirst, hnone,
    Bool.false_eq_true, if_false]

/-- Slots with enough shards of a block give the padded block; others tell how many they have. -/
theorem decodePadded_of_shards (h : s.HoldShards block slots) :
    s.decodePadded slots =
      if slots.countP Option.isSome < s.k then
        .error (.tooFew (slots.countP Option.isSome) s.k)
      else .ok (Padding.pad s.k block) := by
  by_cases hfew : slots.countP Option.isSome < s.k
  · simp only [decodePadded]
    rw [if_neg (not_not.mpr h.length), length_present, if_pos hfew, if_pos hfew]
  · have henough := h.enough (Nat.not_lt.mp hfew)
    rw [decodePadded_of_equal h.length (Nat.not_lt.mp hfew)
        fun _ hentry => henough.length_of_mem hentry,
      if_neg fun hnone => Nat.succ_ne_zero _ hnone.2, if_neg hfew, ← s.flatten_dataShards block,
      List.flatMap_def, henough.map_valueAt]

/-- Slots with enough shards of a block give the block; others tell how many they have. -/
theorem decode_of_shards (h : s.HoldShards block slots) :
    s.decode slots =
      if slots.countP Option.isSome < s.k then
        .error (.tooFew (slots.countP Option.isSome) s.k)
      else .ok block := by
  by_cases hfew : slots.countP Option.isSome < s.k
  · rw [decode, decodePadded_of_shards h, if_pos hfew, if_pos hfew]
  · rw [decode, decodePadded_of_shards h, if_neg hfew, if_neg hfew]
    simp only [Padding.unpad_pad s.k_pos s.k_le_max]

/-! ## Lost shards -/

/-- The slots of shards of which some are lost. -/
def retained (keep : Nat → Bool) (shards : List Shard) : List (Option Bytes) :=
  shards.map fun shard => if keep shard.index then some shard.data else none

theorem getElem?_retained_encode (s : Scheme) (block : Bytes) (keep : Nat → Bool) (index : Nat) :
    (retained keep (s.encode block))[index]? =
      (s.shardBytes block)[index]?.map fun data => if keep index then some data else none := by
  rw [retained, encode_eq, List.map_map, List.getElem?_map, List.getElem?_zipIdx]
  cases (s.shardBytes block)[index]? <;> simp

theorem holdShards_retained (s : Scheme) (block : Bytes) (keep : Nat → Bool) :
    s.HoldShards block (retained keep (s.encode block)) where
  length := by simp [retained, encode_eq, length_shardBytes]
  shard index data hget := by
    rw [getElem?_retained_encode] at hget
    obtain ⟨shard, hshard, hkeep⟩ := Option.map_eq_some_iff.mp hget
    split at hkeep
    · rwa [← Option.some.inj hkeep]
    · cases hkeep

theorem countP_retained_encode (s : Scheme) (block : Bytes) (keep : Nat → Bool) :
    (retained keep (s.encode block)).countP Option.isSome = (List.range s.n).countP keep := by
  have hindexes : (s.shardBytes block).zipIdx.map Prod.snd = List.range s.n := by
    rw [List.zipIdx_map_snd, length_shardBytes, List.range_eq_range']
  rw [retained, encode_eq, List.map_map, List.countP_map, ← hindexes, List.countP_map]
  congr 1
  funext entry
  by_cases hkeep : keep entry.2 <;> simp [hkeep]

/-- A block survives the loss of any shards that leaves `k` of them, and no other loss: whichever
    shards are kept, decoding gives the padded block and the block, or tells that there are too
    few. -/
theorem decode_retained_encode (s : Scheme) (block : Bytes) (keep : Nat → Bool) :
    let slots := retained keep (s.encode block)
    let kept := (List.range s.n).countP keep
    s.decodePadded slots =
        (if kept < s.k then .error (.tooFew kept s.k) else .ok (Padding.pad s.k block)) ∧
      s.decode slots = if kept < s.k then .error (.tooFew kept s.k) else .ok block := by
  intro slots kept
  have hold := holdShards_retained s block keep
  have hcount : slots.countP Option.isSome = kept := countP_retained_encode s block keep
  rw [decodePadded_of_shards hold, decode_of_shards hold, hcount]
  exact ⟨rfl, rfl⟩

end ShardVault.Scheme
