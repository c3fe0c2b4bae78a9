import ShardVault.Code.Shard
import ShardVault.Proofs.Bytes
import ShardVault.Proofs.Code.Interpolation
import ShardVault.Proofs.Code.Padding

/-!
All shards of a block, data and parity, are values of one polynomial for each place: the column of
the data shards (`byteAt_of_getElem?_shardBytes`).
-/

namespace ShardVault.Scheme

open Polynomial

variable (s : Scheme) (block : Bytes)

theorem k_pos : 0 < s.k := s.one_le_k

theorem k_le_max : s.k ≤ 256 := s.k_le_n.trans s.n_le

/-! ## Data shards -/

/-- The data shards of a block, in order. -/
def dataShards : List Bytes :=
  s.cut (Padding.pad s.k block)

/-- The bytes of all shards of a block, data first. -/
def shardBytes : List Bytes :=
  s.extend (Padding.pad s.k block)

/-- A padded block is cut into shards of this length. -/
theorem length_pad_div : (Padding.pad s.k block).length / s.k = block.length / s.k + 1 := by
  rw [Padding.length_pad s.k_pos, Nat.mul_div_cancel_left _ s.k_pos]

theorem windows_pad :
    (s.dataShards block).length = s.k ∧
      ∀ shard ∈ s.dataShards block, shard.length = block.length / s.k + 1 := by
  rw [dataShards, cut, length_pad_div]
  exact Bytes.windows_of_length_eq (Nat.succ_ne_zero _) (Padding.length_pad s.k_pos block)

theorem length_dataShards : (s.dataShards block).length = s.k :=
  (s.windows_pad block).1

theorem length_of_mem_dataShards {shard : Bytes} (h : shard ∈ s.dataShards block) :
    shard.length = block.length / s.k + 1 :=
  (s.windows_pad block).2 shard h

theorem flatten_dataShards : (s.dataShards block).flatten = Padding.pad s.k block := by
  apply Bytes.flatten_windows
  rw [length_pad_div]
  exact Nat.succ_ne_zero _

/-! ## Shards at points -/

theorem mem_located {shards : List Bytes} {entry : GF256 × Bytes} :
    entry ∈ located shards ↔
      ∃ index, shards[index]? = some entry.2 ∧ GF256.ofIndex index = entry.1 := by
  obtain ⟨point, shard⟩ := entry
  simp only [located, List.mem_map, Prod.mk.injEq]
  constructor
  · rintro ⟨⟨other, index⟩, hmem, hpoint, rfl⟩
    exact ⟨index, List.mem_zipIdx_iff_getElem?.mp hmem, hpoint⟩
  · rintro ⟨index, hget, hpoint⟩
    exact ⟨(shard, index), List.mem_zipIdx_iff_getElem?.mpr hget, hpoint, rfl⟩

/-- Up to 256 positions have points of their own. -/
theorem nodup_map_ofIndex {count : Nat} (h : count ≤ 256) :
    ((List.range count).map GF256.ofIndex).Nodup := by
  apply List.Nodup.map_on _ List.nodup_range
  intro i hi j hj hpoint
  rw [List.mem_range] at hi hj
  exact GF256.ofIndex_injOn (by omega) (by omega) hpoint

theorem points_located (shards : List Bytes) :
    (located shards).map Prod.fst = (List.range shards.length).map GF256.ofIndex := by
  rw [located, List.map_map, List.range_eq_range', ← List.zipIdx_map_snd, List.map_map]
  rfl

/-! ## Columns -/

/-- The polynomial through the bytes at a place of shards. -/
noncomputable def column (shards : List Bytes) (place : Nat) : GF256[X] :=
  Lagrange.interpolate (Finset.range shards.length) GF256.ofIndex
    fun index => byteAt (shards.getD index []) place

theorem injOn_ofIndex {count : Nat} (h : count ≤ 256) :
    Set.InjOn GF256.ofIndex (Finset.range count : Set Nat) := by
  intro i hi j hj hpoint
  rw [Finset.mem_coe, Finset.mem_range] at hi hj
  exact GF256.ofIndex_injOn (by omega) (by omega) hpoint

theorem degree_column_lt {shards : List Bytes} (h : shards.length ≤ 256) (place : Nat) :
    (column shards place).degree < shards.length := by
  have hdegree := Lagrange.degree_interpolate_lt
    (fun index => byteAt (shards.getD index []) place) (injOn_ofIndex h)
  rwa [Finset.card_range] at hdegree

theorem eval_column {shards : List Bytes} (h : shards.length ≤ 256) {index : Nat} {shard : Bytes}
    (hget : shards[index]? = some shard) (place : Nat) :
    (column shards place).eval (GF256.ofIndex index) = byteAt shard place := by
  have hindex : index < shards.length := (List.getElem?_eq_some_iff.mp hget).1
  rw [column, Lagrange.eval_interpolate_at_node _ (injOn_ofIndex h) (Finset.mem_range.mpr hindex),
    List.getD_eq_getElem?_getD, hget, Option.getD_some]

/-! ## All shards -/

theorem shardBytes_eq : s.shardBytes block = s.dataShards block ++
    (List.range' s.k (s.n - s.k)).map fun index =>
      Interpolation.valueAt (block.length / s.k + 1) (located (s.dataShards block))
        (GF256.ofIndex index) := by
  rw [shardBytes, extend, length_pad_div]
  rfl

theorem encode_eq : s.encode block = (s.shardBytes block).zipIdx.map fun (data, index) =>
    ⟨index, data, decide (s.k ≤ index)⟩ :=
  rfl

/-- A block has shards unless it is above the largest size once it is padded. -/
theorem encode?_eq : s.encode? block =
    if Bytes.maxSize < (block.length / s.k + 1) * s.k then none else some (s.encode block) := by
  rw [encode?, Padding.pad?_eq s.k_pos]
  split <;> rfl

theorem length_shardBytes : (s.shardBytes block).length = s.n := by
  have hle := s.k_le_n
  rw [shardBytes_eq, List.length_append, length_dataShards, List.length_map, List.length_range']
  omega

/-- The data shards come first. -/
theorem take_shardBytes : (s.shardBytes block).take s.k = s.dataShards block := by
  rw [shardBytes_eq, List.take_left' (s.length_dataShards block)]

theorem length_of_mem_shardBytes {shard : Bytes} (h : shard ∈ s.shardBytes block) :
    shard.length = block.length / s.k + 1 := by
  rw [shardBytes_eq] at h
  rcases List.mem_append.mp h with hdata | hparity
  · exact s.length_of_mem_dataShards block hdata
  · obtain ⟨index, -, rfl⟩ := List.mem_map.mp hparity
    apply Interpolation.length_valueAt
    intro entry hentry
    obtain ⟨own, hget, -⟩ := mem_located.mp hentry
    exact s.length_of_mem_dataShards block (List.mem_of_getElem? hget)

/-- Every byte of every shard is the value of the column of its place. -/
theorem byteAt_of_getElem?_shardBytes {index place : Nat} {shard : Bytes}
    (hget : (s.shardBytes block)[index]? = some shard) (hplace : place < block.length / s.k + 1) :
    byteAt shard place = (column (s.dataShards block) place).eval (GF256.ofIndex index) := by
  have hmax : (s.dataShards block).length ≤ 256 := by
    rw [length_dataShards]
    exact s.k_le_max
  rw [shardBytes_eq] at hget
  by_cases hindex : index < (s.dataShards block).length
  · rw [List.getElem?_append_left hindex] at hget
    exact (eval_column hmax hget place).symm
  · rw [List.getElem?_append_right (by omega), List.getElem?_map] at hget
    obtain ⟨point, hpoint, rfl⟩ := Option.map_eq_some_iff.mp hget
    obtain ⟨_, hvalue⟩ := List.getElem?_eq_some_iff.mp hpoint
    rw [List.getElem_range', Nat.one_mul] at hvalue
    have hown : point = index := by
      rw [length_dataShards] at hindex hvalue
      omega
    subst hown
    apply Interpolation.byteAt_valueAt
    · rw [points_located]
      exact nodup_map_ofIndex hmax
    · intro entry hentry
      obtain ⟨own, hown, -⟩ := mem_located.mp hentry
      exact s.length_of_mem_dataShards block (List.mem_of_getElem? hown)
    · exact hplace
    · rw [located, List.length_map, List.length_zipIdx]
      exact degree_column_lt hmax place
    · intro entry hentry
      obtain ⟨own, hown, hpoint⟩ := mem_located.mp hentry
      rw [← hpoint, eval_column hmax hown]

theorem length_encode : (s.encode block).length = s.n := by
  rw [encode_eq, List.length_map, List.length_zipIdx, length_shardBytes]

theorem index_of_getElem?_encode {index : Nat} {shard : Shard}
    (h : (s.encode block)[index]? = some shard) : shard.index = index := by
  rw [encode_eq, List.getElem?_map, List.getElem?_zipIdx] at h
  obtain ⟨⟨data, own⟩, hget, rfl⟩ := Option.map_eq_some_iff.mp h
  obtain ⟨_, -, heq⟩ := Option.map_eq_some_iff.mp hget
  have hown := congrArg Prod.snd heq
  simpa using hown.symm

theorem getElem?_shardBytes_of_encode {index : Nat} {shard : Shard}
    (h : (s.encode block)[index]? = some shard) :
    (s.shardBytes block)[index]? = some shard.data := by
  rw [encode_eq, List.getElem?_map, List.getElem?_zipIdx] at h
  obtain ⟨⟨data, own⟩, hget, rfl⟩ := Option.map_eq_some_iff.mp h
  obtain ⟨_, hdata, heq⟩ := Option.map_eq_some_iff.mp hget
  rw [hdata]
  exact congrArg some (congrArg Prod.fst heq)

theorem isParity_of_getElem?_encode {index : Nat} {shard : Shard}
    (h : (s.encode block)[index]? = some shard) : shard.isParity = true ↔ s.k ≤ index := by
  have hindex := s.index_of_getElem?_encode block h
  rw [encode_eq, List.getElem?_map] at h
  obtain ⟨⟨data, own⟩, -, rfl⟩ := Option.map_eq_some_iff.mp h
  rw [← hindex]
  exact decide_eq_true_iff

theorem map_data_encode : (s.encode block).map Shard.data = s.shardBytes block := by
  rw [encode_eq, List.map_map]
  exact List.zipIdx_map_fst 0 (s.shardBytes block)

/-- A shard is at the position that it bears. -/
theorem mem_encode {shard : Shard} :
    shard ∈ s.encode block ↔ (s.encode block)[shard.index]? = some shard := by
  constructor
  · intro h
    obtain ⟨index, hget⟩ := List.mem_iff_getElem?.mp h
    rwa [s.index_of_getElem?_encode block hget]
  · exact List.mem_of_getElem?

/-! ## One shard -/

theorem one_le_maxShards : 1 ≤ maxShards := by
  decide

/-- One shard is enough, and there is no other. -/
def single : Scheme :=
  ⟨1, 1, Nat.one_pos, Nat.one_pos, one_le_maxShards⟩

/-- The one shard of a block is the block with its padding. -/
theorem encode_single (block : Bytes) : single.encode block = [⟨0, block ++ [0], false⟩] := by
  have hpad : Padding.pad 1 block = block ++ [0] := by
    rw [Padding.pad, Padding.amount, Nat.mod_one]
    rfl
  have hdata : single.dataShards block = [block ++ [0]] := by
    have hsize : (block ++ [0]).length ≠ 0 := by simp
    simp only [dataShards, cut, single, hpad, Nat.div_one]
    rw [Bytes.windows_of_ne_nil hsize (by simp), List.take_length, List.drop_length,
      Bytes.windows_nil]
  rw [encode_eq, shardBytes_eq, hdata]
  rfl

/-! ## Three shards -/

/-- Two shards of three are enough. -/
def twoOfThree : Scheme :=
  ⟨2, 3, by decide, by decide, by decide⟩

theorem encode_twoOfThree :
    twoOfThree.encode [7] = [⟨0, [7], false⟩, ⟨1, [1], false⟩, ⟨2, [11], true⟩] := by
  have hpad : Padding.pad 2 [7] = [7, 1] := by decide
  have hdata : twoOfThree.dataShards [7] = [[7], [1]] := by
    simp only [dataShards, cut, twoOfThree, hpad]
    simp [Bytes.windows]
  rw [encode_eq, shardBytes_eq, hdata]
  decide +kernel

end ShardVault.Scheme
