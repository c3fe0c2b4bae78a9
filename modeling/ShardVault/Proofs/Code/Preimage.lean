import ShardVault.Proofs.Code.Matrix
import ShardVault.Proofs.Code.Recovery

/-!
Decoding of slots with anything in them.  Whatever bytes the first `k` slots in use hold, if they
are as long as each other there is one byte string of `k` blocks of which they are shards, and it
is what is decoded; slots after them do not matter (`decodePadded_arbitrary`).
-/

namespace ShardVault

/-! ## Blocks -/

/-- The block at a position of a byte string that is cut into blocks of one length. -/
def blockAt (length : Nat) (data : Bytes) (index : Nat) : Bytes :=
  (data.drop (index * length)).take length

theorem length_blockAt {length count index : Nat} {data : Bytes}
    (hlength : data.length = count * length) (hindex : index < count) :
    (blockAt length data index).length = length := by
  have hend : (index + 1) * length ≤ count * length := Nat.mul_le_mul_right length hindex
  rw [Nat.succ_mul] at hend
  rw [blockAt, List.length_take, List.length_drop]
  omega

theorem blockAt_flatten {length : Nat} {blocks : List Bytes}
    (h : ∀ block ∈ blocks, block.length = length) {index : Nat} {block : Bytes}
    (hget : blocks[index]? = some block) : blockAt length blocks.flatten index = block := by
  induction blocks generalizing index with
  | nil => simp at hget
  | cons first rest ih =>
    obtain ⟨hfirst, hrest⟩ := List.forall_mem_cons.mp h
    rw [List.flatten_cons, blockAt]
    cases index with
    | zero =>
      rw [List.getElem?_cons_zero, Option.some.injEq] at hget
      rw [Nat.zero_mul, List.drop_zero, List.take_left' hfirst, hget]
    | succ index =>
      rw [Nat.succ_mul, Nat.add_comm, ← List.drop_drop, List.drop_left' hfirst]
      exact ih hrest (by simpa using hget)

/-- A byte string of whole blocks is made of them. -/
theorem flatMap_blockAt {length count : Nat} {data : Bytes}
    (hlength : data.length = count * length) :
    (List.range count).flatMap (blockAt length data) = data := by
  induction count generalizing data with
  | zero =>
    rw [Nat.zero_mul, List.length_eq_zero_iff] at hlength
    rw [hlength]
    rfl
  | succ count ih =>
    rw [Nat.succ_mul] at hlength
    have hnext (index : Nat) :
        blockAt length data (index + 1) = blockAt length (data.drop length) index := by
      rw [blockAt, blockAt, List.drop_drop, Nat.succ_mul, Nat.add_comm]
    have hrest : (data.drop length).length = count * length := by
      rw [List.length_drop]
      omega
    rw [List.range_succ_eq_map, List.flatMap_cons, List.flatMap_map]
    simp only [Nat.succ_eq_add_one, hnext]
    rw [ih hrest, blockAt, Nat.zero_mul, List.drop_zero, List.take_append_drop]

namespace Scheme

open Matrix

variable (s : Scheme)

/-! ## Shards of blocks -/

/-- The shard that a row of the code makes of blocks, place by place. -/
noncomputable def rowShard (length : Nat) (data : Bytes) (row : Fin s.n) : Bytes :=
  (List.range length).map fun place =>
    ((s.generator *ᵥ fun index : Fin s.k => byteAt (blockAt length data index) place) row).byte

/-- `k` blocks of one length of which these are the shards at their positions. -/
structure Preimage (length : Nat) (entries : List (Nat × Bytes)) (data : Bytes) : Prop where
  length_eq : data.length = s.k * length
  shard : ∀ (row : Fin s.n) (bytes : Bytes), (row.val, bytes) ∈ entries →
    s.rowShard length data row = bytes

variable {s} {length : Nat}

theorem length_rowShard (data : Bytes) (row : Fin s.n) :
    (s.rowShard length data row).length = length := by
  rw [rowShard, List.length_map, List.length_range]

theorem byteAt_rowShard (data : Bytes) (row : Fin s.n) {place : Nat} (hplace : place < length) :
    byteAt (s.rowShard length data row) place =
      (s.generator *ᵥ fun index : Fin s.k => byteAt (blockAt length data index) place) row := by
  rw [byteAt_eq_getElem (by rwa [length_rowShard])]
  simp only [rowShard, List.getElem_map, List.getElem_range]

/-! ## One preimage -/

section Rows

variable {rows : Fin s.k → Fin s.n} {shards : Fin s.k → Bytes}

/-- What is decoded from `k` shards, whatever bytes they have. -/
def recovered (length : Nat) (rows : Fin s.k → Fin s.n) (shards : Fin s.k → Bytes) : Bytes :=
  (List.range s.k).flatMap fun index => Interpolation.valueAt length
    (List.ofFn fun own => (GF256.ofIndex (rows own), shards own)) (GF256.ofIndex index)

variable (hrows : Function.Injective rows) (hlength : ∀ own, (shards own).length = length)

include hlength

theorem length_valueAt_ofFn (x : GF256) :
    (Interpolation.valueAt length
      (List.ofFn fun own => (GF256.ofIndex (rows own), shards own)) x).length = length := by
  apply Interpolation.length_valueAt
  intro entry hentry
  obtain ⟨own, rfl⟩ := List.mem_ofFn.mp hentry
  exact hlength own

theorem blockAt_recovered (index : Fin s.k) :
    blockAt length (recovered length rows shards) index =
      Interpolation.valueAt length
        (List.ofFn fun own => (GF256.ofIndex (rows own), shards own)) (GF256.ofIndex index) := by
  rw [recovered, List.flatMap_def]
  apply blockAt_flatten
  · intro block hblock
    obtain ⟨_, -, rfl⟩ := List.mem_map.mp hblock
    exact length_valueAt_ofFn hlength _
  · rw [List.getElem?_map, List.getElem?_range index.isLt, Option.map_some]

include hrows

/-- Blocks have these shards in their rows, at a place, exactly if the inverse of the rows takes the
    shards to the blocks there. -/
theorem mulVec_eq_iff (blocks : Fin s.k → Bytes) {place : Nat} (hplace : place < length) :
    ((s.generator.submatrix rows id *ᵥ fun index => byteAt (blocks index) place) =
        fun own => byteAt (shards own) place) ↔
      ∀ index : Fin s.k, byteAt (blocks index) place =
        byteAt (Interpolation.valueAt length
          (List.ofFn fun own => (GF256.ofIndex (rows own), shards own))
          (GF256.ofIndex index)) place := by
  have hinverse := inverse_mulVec_eq_valueAt hrows hlength hplace
  have hunit := isUnit_det_generator hrows
  constructor
  · intro h index
    rw [← h, mulVec_mulVec, nonsing_inv_mul _ hunit, one_mulVec] at hinverse
    exact congrFun hinverse index
  · intro h
    rw [funext h, ← hinverse, mulVec_mulVec, mul_nonsing_inv _ hunit, one_mulVec]

/-- Shards of one length at different positions are those of one byte string, the one that is
    decoded from them. -/
theorem preimage_iff (data : Bytes) :
    s.Preimage length (List.ofFn fun own => ((rows own).val, shards own)) data ↔
      data = recovered length rows shards := by
  constructor
  · rintro ⟨hsize, hshard⟩
    have hblock (index : Fin s.k) : blockAt length data index =
        Interpolation.valueAt length
          (List.ofFn fun own => (GF256.ofIndex (rows own), shards own)) (GF256.ofIndex index) := by
      have hown := length_blockAt hsize index.isLt
      apply eq_of_byteAt (hown.trans (length_valueAt_ofFn hlength _).symm)
      intro place hplace
      rw [hown] at hplace
      apply (mulVec_eq_iff hrows hlength (blockAt length data ·) hplace).mp
      funext own
      rw [← hshard (rows own) (shards own) (List.mem_ofFn.mpr ⟨own, rfl⟩),
        byteAt_rowShard _ _ hplace]
      rfl
    rw [← flatMap_blockAt hsize, recovered]
    apply List.flatMap_congr
    intro index hindex
    exact hblock ⟨index, List.mem_range.mp hindex⟩
  · rintro rfl
    refine ⟨?_, fun row bytes hmem => ?_⟩
    · rw [recovered, List.length_flatMap]
      simp [length_valueAt_ofFn hlength]
    · obtain ⟨own, heq⟩ := List.mem_ofFn.mp hmem
      obtain ⟨hrow, rfl⟩ := Prod.mk.inj heq
      obtain rfl : rows own = row := Fin.ext hrow
      apply eq_of_byteAt ((length_rowShard _ _).trans (hlength own).symm)
      intro place hplace
      rw [length_rowShard] at hplace
      have hblocks := (mulVec_eq_iff hrows hlength
        (blockAt length (recovered length rows shards) ·) hplace).mpr fun index => by
          rw [blockAt_recovered hlength]
      rw [byteAt_rowShard _ _ hplace]
      exact congrFun hblocks own

end Rows

/-! ## Slots -/

variable {slots : List (Option Bytes)}

/-- The first slots in use, as many as are needed, as rows of the code and what they hold. -/
theorem exists_rows (hslots : slots.length = s.n) (hmany : s.k ≤ slots.countP Option.isSome) :
    ∃ (rows : Fin s.k → Fin s.n) (shards : Fin s.k → Bytes), Function.Injective rows ∧
      (held slots).take s.k = List.ofFn fun own => ((rows own).val, shards own) := by
  have hcount : ((held slots).take s.k).length = s.k := by
    rw [List.length_take, length_held, Nat.min_eq_left hmany]
  have hrow (entry : Nat × Bytes) (hentry : entry ∈ (held slots).take s.k) : entry.1 < s.n :=
    hslots ▸ position_lt_of_mem_held (List.mem_of_mem_take hentry)
  have hnodup : (((held slots).take s.k).map Prod.fst).Nodup :=
    ((List.take_sublist _ _).map _).nodup (nodup_held slots)
  generalize (held slots).take s.k = chosen at hcount hrow hnodup
  obtain ⟨entries, rfl⟩ : ∃ entries : Fin s.k → Nat × Bytes, chosen = List.ofFn entries :=
    ⟨fun own => chosen[own.val], by
      apply List.ext_getElem
      · exact hcount.trans List.length_ofFn.symm
      · intro index _ _
        rw [List.getElem_ofFn]⟩
  rw [List.map_ofFn, List.nodup_ofFn] at hnodup
  refine ⟨fun own => ⟨(entries own).1, hrow _ (List.mem_ofFn.mpr ⟨own, rfl⟩)⟩,
    fun own => (entries own).2, fun left right heq => ?_, rfl⟩
  exact hnodup (Fin.mk.inj heq)

/-- Equally long bytes in the first slots in use are the shards of one byte string, and it is
    decoded. -/
theorem decodePadded_of_held (hslots : slots.length = s.n)
    (hmany : s.k ≤ slots.countP Option.isSome)
    (hequal : ∀ entry ∈ (held slots).take s.k, entry.2.length = length)
    (hbytes : s.k = s.n ∨ length ≠ 0) :
    ∃ data, s.decodePadded slots = .ok data ∧
      ∀ other, s.Preimage length ((held slots).take s.k) other ↔ other = data := by
  obtain ⟨rows, shards, hrows, hchosen⟩ := exists_rows hslots hmany
  have hlength (own : Fin s.k) : (shards own).length = length :=
    hequal ((rows own).val, shards own) (hchosen ▸ List.mem_ofFn.mpr ⟨own, rfl⟩)
  have hpresent : (present slots).take s.k =
      List.ofFn fun own => (GF256.ofIndex (rows own), shards own) := by
    rw [present_eq_map_held, ← List.map_take, hchosen, List.map_ofFn]
    rfl
  have hpoints : ∀ entry ∈ (present slots).take s.k, entry.2.length = length := by
    rw [hpresent]
    intro entry hentry
    obtain ⟨own, rfl⟩ := List.mem_ofFn.mp hentry
    exact hlength own
  refine ⟨recovered length rows shards, ?_, ?_⟩
  · rw [decodePadded_of_equal hslots hmany hpoints, if_neg (by omega), hpresent]
    rfl
  · rw [hchosen]
    exact preimage_iff hrows hlength

/-- Slots after the last one needed do not matter. -/
theorem decodePadded_append (s : Scheme) {before after after' : List (Option Bytes)}
    (hmany : s.k ≤ before.countP Option.isSome) (hlength : after'.length = after.length) :
    s.decodePadded (before ++ after') = s.decodePadded (before ++ after) := by
  have htake (more : List (Option Bytes)) :
      (present (before ++ more)).take s.k = (present before).take s.k := by
    rw [present_eq_map_held, held_append, List.map_append, ← present_eq_map_held,
      List.take_append_of_le_length (length_present before ▸ hmany)]
  have hcount (more : List (Option Bytes)) : ¬ (present (before ++ more)).length < s.k := by
    rw [length_present, List.countP_append]
    omega
  simp only [decodePadded, htake, if_neg (hcount after), if_neg (hcount after'),
    List.length_append, hlength]

/-- Whatever is in the slots: a wrong number of them is refused, and so are too few in use.
    Otherwise the first `k` in use decide.  If what they hold is not equally long, or has no bytes
    though there are parity shards, it cannot be decoded; else there is exactly one byte string of
    `k` blocks of that length whose shards are in these slots, and it is what is decoded.  Slots
    after the `k` in use do not matter. -/
theorem decodePadded_arbitrary (s : Scheme) (slots : List (Option Bytes)) :
    let present := slots.countP Option.isSome
    let chosen := (held slots).take s.k
    (slots.length ≠ s.n → s.decodePadded slots = .error (.slotCount s.n slots.length)) ∧
      (slots.length = s.n → present < s.k →
        s.decodePadded slots = .error (.tooFew present s.k)) ∧
      (slots.length = s.n → s.k ≤ present →
        ((∃ left ∈ chosen, ∃ right ∈ chosen, left.2.length ≠ right.2.length) →
          s.decodePadded slots = .error (.coding .unequalLengths)) ∧
        ∀ length, (∀ entry ∈ chosen, entry.2.length = length) →
          (s.k < s.n → length = 0 → s.decodePadded slots = .error (.coding .noBytes)) ∧
          (s.k = s.n ∨ length ≠ 0 → ∃ data, s.decodePadded slots = .ok data ∧
            ∀ other, s.Preimage length chosen other ↔ other = data)) ∧
      ∀ before after after' : List (Option Bytes), slots = before ++ after →
        s.k ≤ before.countP Option.isSome → after'.length = after.length →
          s.decodePadded (before ++ after') = s.decodePadded slots := by
  intro found chosen
  have hentries {entry : Nat × Bytes} (hentry : entry ∈ chosen) :
      (GF256.ofIndex entry.1, entry.2) ∈ (present slots).take s.k := by
    rw [present_eq_map_held, ← List.map_take]
    exact List.mem_map_of_mem hentry
  refine ⟨fun hslots => ?_, fun hslots hfew => ?_, fun hslots hmany => ⟨?_, ?_⟩, ?_⟩
  · simp only [decodePadded, if_pos hslots]
  · simp only [decodePadded]
    rw [if_neg (not_not.mpr hslots), length_present, if_pos hfew]
  · rintro ⟨left, hleft, right, hright, hne⟩
    exact decodePadded_of_unequal hslots hmany (hentries hleft) (hentries hright) hne
  · intro length hequal
    refine ⟨fun hparity hempty => ?_, decodePadded_of_held hslots hmany hequal⟩
    have hpoints : ∀ entry ∈ (present slots).take s.k, entry.2.length = length := by
      rw [present_eq_map_held, ← List.map_take]
      intro entry hentry
      obtain ⟨own, hown, rfl⟩ := List.mem_map.mp hentry
      exact hequal own hown
    rw [decodePadded_of_equal hslots hmany hpoints, if_pos ⟨hparity, hempty⟩]
  · rintro before after after' rfl hmany hlength
    exact s.decodePadded_append hmany hlength

/-- Two shards of different lengths, and two of one length that were chosen freely. -/
theorem decodePadded_arbitrary_sample :
    twoOfThree.decodePadded [none, some [1], some []] = .error (.coding .unequalLengths) ∧
      ∃ data, twoOfThree.decodePadded [none, some [1, 2], some [3, 4]] = .ok data ∧
        ∀ other, twoOfThree.Preimage 2 [(1, [1, 2]), (2, [3, 4])] other ↔ other = data := by
  obtain ⟨-, -, hunequal, -⟩ := decodePadded_arbitrary twoOfThree [none, some [1], some []]
  obtain ⟨-, -, hequal, -⟩ :=
    decodePadded_arbitrary twoOfThree [none, some [1, 2], some [3, 4]]
  refine ⟨(hunequal rfl (by decide)).1 ⟨(1, [1]), by decide, (2, []), by decide, by decide⟩, ?_⟩
  exact ((hequal rfl (by decide)).2 2 (by decide)).2 (.inr (by decide))

end Scheme

end ShardVault
