import ShardVault.Error
import ShardVault.Proofs.Code.Matrix
import ShardVault.Stop

/-!
The codec with its error exits.  Parity is computed by a library, which is a parameter here, and
which may refuse numbers of shards, shards of unequal lengths and shards of no bytes.  With what it
documents (`ParityLibrary.Documented`) none of this is ever met: every scheme has a codec, and a
codec encodes every block that can be padded as the scheme says (`Codec.encode_eq`).
-/

namespace ShardVault

open Matrix

/-! ## The library -/

/-- What computes parity.  A coder is made for numbers of data and of parity shards, and replaces
    the parity shards among all shards of a block.  Both may fail, with a reason in words. -/
structure ParityLibrary where
  Coder : Type
  new : (dataShards parityShards : Nat) → Except String Coder
  encode : Coder → List Bytes → Except String (List Bytes)

/-- What a parity library documents.  There is a coder for positive numbers of shards, up to the
    size of the field.  It takes as many shards as it was made for, of one length and not empty, and
    puts after the data shards their products with the rows of the code. -/
structure ParityLibrary.Documented (library : ParityLibrary) : Prop where
  new : ∀ {dataShards parityShards : Nat}, 1 ≤ dataShards → 1 ≤ parityShards →
    dataShards + parityShards ≤ maxShards →
    ∃ coder, library.new dataShards parityShards = .ok coder
  encode : ∀ (s : Scheme) {coder : library.Coder} {shards : List Bytes} {size : Nat},
    library.new s.k (s.n - s.k) = .ok coder → shards.length = s.n → 0 < size →
    (∀ shard ∈ shards, shard.length = size) →
    ∃ parity, library.encode coder shards = .ok (shards.take s.k ++ parity) ∧
      parity.length = s.n - s.k ∧ (∀ shard ∈ parity, shard.length = size) ∧
      ∀ place < size, ∀ row : Fin s.n, s.k ≤ row →
        byteAt (parity.getD (row - s.k) []) place =
          (s.generator *ᵥ fun index : Fin s.k => byteAt (shards.getD index []) place) row

/-! ## The codec -/

/-- A redundancy, with what computes its parity if there is any. -/
structure Codec (library : ParityLibrary) where
  redundancy : Redundancy
  coder : Option library.Coder

namespace Codec

variable {library : ParityLibrary}

/-- The codec of a redundancy. -/
def new (library : ParityLibrary) (r : Redundancy) : Except StorageError (Codec library) :=
  match r.scheme with
  | .error e => .error (.ofScheme e)
  | .ok scheme =>
    if scheme.parityShards = 0 then .ok ⟨r, none⟩
    else
      match library.new r.k scheme.parityShards with
      | .error reason => .error (.coding reason)
      | .ok coder => .ok ⟨r, some coder⟩

/-- The list cut, or filled with a value, to a length. -/
def resize (length : Nat) (value : Bytes) (shards : List Bytes) : List Bytes :=
  shards.take length ++ List.replicate (length - shards.length) value

/-- The shards with their parity. -/
def fill (codec : Codec library) (shards : List Bytes) : Except String (List Bytes) :=
  match codec.coder with
  | none => .ok shards
  | some coder => library.encode coder shards

/-- All shards of a padded block.  There is no cutting into pieces of no bytes. -/
def encodePadded (codec : Codec library) (padded : Bytes) :
    Except (Stop StorageError) (List Shard) :=
  let k := codec.redundancy.k
  let size := padded.length / k
  if size = 0 then .error .crash
  else
    let pieces := Bytes.windows size padded
    match codec.fill (resize codec.redundancy.n (List.replicate size 0) pieces) with
    | .error reason => .error (.refused (.coding reason))
    | .ok shards =>
      .ok (shards.zipIdx.map fun (data, index) => ⟨index, data, decide (k ≤ index)⟩)

/-- All shards of a block. -/
def encode (codec : Codec library) (block : Bytes) :
    Except (Stop StorageError) (List Shard) :=
  match Padding.pad? codec.redundancy.k block with
  | none => .error .crash
  | some padded => codec.encodePadded padded

end Codec

/-! ## Schemes -/

theorem Redundancy.scheme_eq_ok_iff {r : Redundancy} {s : Scheme} :
    r.scheme = .ok s ↔ r = s.redundancy := by
  obtain ⟨k, n⟩ := r
  obtain ⟨k', n', hk, hkn, hn⟩ := s
  rw [scheme, Scheme.redundancy]
  constructor
  · intro h
    split at h
    · cases h
    · split at h
      · cases h
      · split at h
        · cases h
        · cases h
          rfl
  · intro h
    cases h
    rw [dif_neg (Nat.ne_of_gt hk), dif_neg (Nat.not_lt.mpr hkn), dif_neg (Nat.not_lt.mpr hn)]

/-- There is a scheme for `1 ≤ k ≤ n ≤ 256`. -/
theorem Redundancy.exists_scheme_iff {r : Redundancy} :
    (∃ s, r.scheme = .ok s) ↔ 1 ≤ r.k ∧ r.k ≤ r.n ∧ r.n ≤ maxShards := by
  constructor
  · rintro ⟨s, h⟩
    rw [scheme_eq_ok_iff.mp h]
    exact ⟨s.one_le_k, s.k_le_n, s.n_le⟩
  · rintro ⟨hk, hkn, hn⟩
    exact ⟨⟨r.k, r.n, hk, hkn, hn⟩, scheme_eq_ok_iff.mpr rfl⟩

theorem Scheme.getD_take {s : Scheme} (shards : List Bytes) (index : Fin s.k) :
    (shards.take s.k).getD index [] = shards.getD index [] := by
  rw [List.getD_eq_getElem?_getD, List.getD_eq_getElem?_getD,
    List.getElem?_take_of_lt index.isLt]

namespace Codec

variable {library : ParityLibrary} (hdoc : library.Documented) {s : Scheme}

/-! ## A codec for every scheme -/

include hdoc in
theorem exists_new (s : Scheme) : ∃ codec, new library s.redundancy = .ok codec := by
  rw [new, Redundancy.scheme_eq_ok_iff.mpr rfl]
  by_cases hparity : s.parityShards = 0
  · exact ⟨_, if_pos hparity⟩
  · have hsum : s.k + s.parityShards ≤ maxShards := by
      have hle := s.k_le_n
      have hmax := s.n_le
      rw [Scheme.parityShards]
      omega
    obtain ⟨coder, hcoder⟩ := hdoc.new s.one_le_k (Nat.pos_of_ne_zero hparity) hsum
    refine ⟨⟨s.redundancy, some coder⟩, ?_⟩
    simp only [if_neg hparity, Scheme.redundancy, hcoder]

/-- A codec has the redundancy asked for, and a coder if there is parity. -/
theorem of_new {codec : Codec library} (h : new library s.redundancy = .ok codec) :
    codec.redundancy = s.redundancy ∧
      (s.n - s.k = 0 ∧ codec.coder = none ∨
        ∃ coder, library.new s.k (s.n - s.k) = .ok coder ∧ codec.coder = some coder) := by
  rw [new, Redundancy.scheme_eq_ok_iff.mpr rfl] at h
  by_cases hparity : s.parityShards = 0
  · simp only [if_pos hparity] at h
    cases h
    exact ⟨rfl, .inl ⟨hparity, rfl⟩⟩
  · simp only [if_neg hparity] at h
    split at h
    · cases h
    · rename_i coder hcoder
      cases h
      exact ⟨rfl, .inr ⟨coder, hcoder, rfl⟩⟩

theorem exists_scheme {r : Redundancy} {codec : Codec library}
    (h : new library r = .ok codec) : ∃ s, r.scheme = .ok s := by
  cases hscheme : r.scheme with
  | error e =>
    rw [new, hscheme] at h
    cases h
  | ok s => exact ⟨s, rfl⟩

/-! ## Encoding -/

variable (s) (block : Bytes)

/-- The data shards of a block with empty parity shards of their length. -/
def blank : List Bytes :=
  s.dataShards block ++
    List.replicate (s.n - s.k) (List.replicate (block.length / s.k + 1) 0)

theorem resize_dataShards (value : Bytes) :
    resize s.n value (s.dataShards block) =
      s.dataShards block ++ List.replicate (s.n - s.k) value := by
  rw [resize, s.length_dataShards, List.take_of_length_le]
  rw [s.length_dataShards]
  exact s.k_le_n

theorem length_blank : (blank s block).length = s.n := by
  have hle := s.k_le_n
  rw [blank, List.length_append, s.length_dataShards, List.length_replicate]
  omega

theorem length_of_mem_blank {shard : Bytes} (h : shard ∈ blank s block) :
    shard.length = block.length / s.k + 1 := by
  rcases List.mem_append.mp h with hdata | hblank
  · exact s.length_of_mem_dataShards block hdata
  · rw [List.eq_of_mem_replicate hblank, List.length_replicate]

theorem take_blank : (blank s block).take s.k = s.dataShards block := by
  rw [blank, List.take_left' (s.length_dataShards block)]

/-- The parity that a library documents is that of the scheme. -/
theorem parity_eq {parity : List Bytes} (hlength : parity.length = s.n - s.k)
    (hsize : ∀ shard ∈ parity, shard.length = block.length / s.k + 1)
    (hbytes : ∀ place < block.length / s.k + 1, ∀ row : Fin s.n, s.k ≤ row →
      byteAt (parity.getD (row - s.k) []) place =
        (s.generator *ᵥ fun index : Fin s.k =>
          byteAt ((blank s block).getD index []) place) row) :
    parity = (s.shardBytes block).drop s.k := by
  have hcount := s.length_shardBytes block
  apply List.ext_getElem
  · rw [hlength, List.length_drop, hcount]
  intro index hparity hdrop
  have hsum : s.k + index < (s.shardBytes block).length := by
    rw [List.length_drop] at hdrop
    omega
  have hshard := s.length_of_mem_shardBytes block (List.getElem_mem hsum)
  rw [List.getElem_drop]
  apply eq_of_byteAt
  · rw [hsize _ (List.getElem_mem hparity), hshard]
  intro place hplace
  rw [hsize _ (List.getElem_mem hparity)] at hplace
  have hrow := hbytes place hplace ⟨s.k + index, hcount ▸ hsum⟩ (Nat.le_add_right _ _)
  have hdata := congrFun (s.generator_mulVec_dataShards block hplace) ⟨s.k + index, hcount ▸ hsum⟩
  simp only [← Scheme.getD_take (blank s block), take_blank] at hrow
  rw [hdata] at hrow
  simpa [List.getD_eq_getElem?_getD, List.getElem?_eq_getElem hparity,
    List.getElem?_eq_getElem hsum] using hrow

variable {s} in
include hdoc in
/-- The parity shards are filled in as the scheme says. -/
theorem fill_blank {codec : Codec library} (h : new library s.redundancy = .ok codec) :
    codec.fill (blank s block) = .ok (s.shardBytes block) := by
  obtain ⟨-, ⟨hnone, hcoder⟩ | ⟨coder, hnew, hcoder⟩⟩ := of_new h
  · have hshards : blank s block = s.shardBytes block := by
      rw [blank, Scheme.shardBytes_eq, hnone]
      rfl
    simp only [fill, hcoder, hshards]
  · obtain ⟨parity, hencode, hlength, hsize, hbytes⟩ :=
      hdoc.encode s hnew (length_blank s block) (Nat.succ_pos _)
        fun shard => length_of_mem_blank s block
    have hparity := parity_eq s block hlength hsize hbytes
    simp only [fill, hcoder, hencode]
    rw [take_blank, hparity, ← s.take_shardBytes, List.take_append_drop]

variable {s} in
include hdoc in
/-- A codec encodes every padded block, as its scheme says. -/
theorem encodePadded_eq {codec : Codec library} (h : new library s.redundancy = .ok codec) :
    codec.encodePadded (Padding.pad s.k block) = .ok (s.encode block) := by
  have hpieces : resize s.n (List.replicate (block.length / s.k + 1) 0)
      (Bytes.windows (block.length / s.k + 1) (Padding.pad s.k block)) = blank s block := by
    rw [blank, ← resize_dataShards, Scheme.dataShards, Scheme.cut, s.length_pad_div]
  have hfill := fill_blank hdoc block h
  rw [encodePadded, (of_new h).1]
  simp only [Scheme.redundancy, s.length_pad_div, if_neg (Nat.succ_ne_zero _), hpieces, hfill]
  rfl

variable {s} in
include hdoc in
/-- A codec encodes every block that can be padded, as its scheme says. -/
theorem encode_eq {codec : Codec library} (h : new library s.redundancy = .ok codec) :
    codec.encode block =
      if Bytes.maxSize < (block.length / s.k + 1) * s.k then .error .crash
      else .ok (s.encode block) := by
  have hk : codec.redundancy.k = s.k := congrArg Redundancy.k (of_new h).1
  rw [encode, hk, Padding.pad?_eq s.k_pos]
  by_cases hlarge : Bytes.maxSize < (block.length / s.k + 1) * s.k
  · rw [if_pos hlarge, if_pos hlarge]
  · rw [if_neg hlarge, if_neg hlarge]
    exact encodePadded_eq hdoc block h

/-- A redundancy has a codec exactly if it has a scheme.  The codec encodes every block: into `n`
    shards of one length, at their positions, with parity from `k` on.  The first `k` are the padded
    block, and all are, place by place, the rows of the code times these.  Encoding has no error; it
    breaks off only where the block with its padding would be above the largest size of bytes. -/
theorem encode_shape {library : ParityLibrary} (hdoc : library.Documented) (r : Redundancy) :
    ((∃ codec, new library r = .ok codec) ↔ ∃ s, r.scheme = .ok s) ∧
    ((∃ s, r.scheme = .ok s) ↔ 1 ≤ r.k ∧ r.k ≤ r.n ∧ r.n ≤ maxShards) ∧
    (∀ reason, new library r ≠ .error (.coding reason)) ∧
    ∀ codec, new library r = .ok codec → ∃ s, r.scheme = .ok s ∧ ∀ block, ∃ shards,
      codec.encodePadded (Padding.pad r.k block) = .ok shards ∧
      codec.encode block =
        (if Bytes.maxSize < (block.length / r.k + 1) * r.k then .error .crash
        else .ok shards) ∧
      shards = s.encode block ∧ shards.length = r.n ∧
      (∀ index shard, shards[index]? = some shard →
        shard.index = index ∧ (shard.isParity = true ↔ r.k ≤ index) ∧
          shard.data.length = block.length / r.k + 1) ∧
      ((shards.take r.k).map Shard.data).flatten = Padding.pad r.k block ∧
      ∀ place < block.length / r.k + 1, ∀ row : Fin s.n,
        byteAt ((shards.map Shard.data).getD row []) place =
          (s.generator *ᵥ fun index : Fin s.k =>
            byteAt ((shards.map Shard.data).getD index []) place) row := by
  refine ⟨⟨?_, ?_⟩, Redundancy.exists_scheme_iff, ?_, ?_⟩
  · rintro ⟨codec, h⟩
    exact exists_scheme h
  · rintro ⟨s, hscheme⟩
    rw [Redundancy.scheme_eq_ok_iff.mp hscheme]
    exact exists_new hdoc s
  · intro reason h
    cases hscheme : r.scheme with
    | error e =>
      rw [new, hscheme] at h
      cases h
    | ok s =>
      obtain ⟨codec, hnew⟩ := exists_new hdoc s
      rw [Redundancy.scheme_eq_ok_iff.mp hscheme, hnew] at h
      cases h
  · intro codec h
    obtain ⟨s, hscheme⟩ := exists_scheme h
    obtain rfl := Redundancy.scheme_eq_ok_iff.mp hscheme
    refine ⟨s, hscheme, fun block => ⟨s.encode block, encodePadded_eq hdoc block h,
      encode_eq hdoc block h, rfl, s.length_encode block, fun index shard hget => ?_, ?_,
      fun place hplace row => ?_⟩⟩
    · refine ⟨s.index_of_getElem?_encode block hget, s.isParity_of_getElem?_encode block hget, ?_⟩
      exact s.length_of_mem_shardBytes block
        (List.mem_of_getElem? (s.getElem?_shardBytes_of_encode block hget))
    · rw [List.map_take, s.map_data_encode]
      exact (congrArg List.flatten (s.take_shardBytes block)).trans (s.flatten_dataShards block)
    · have hindex (index : Fin s.k) : (s.shardBytes block).getD index [] =
          (s.dataShards block).getD index [] := by
        rw [← s.take_shardBytes, Scheme.getD_take]
      simp only [s.map_data_encode, hindex]
      exact (congrFun (s.generator_mulVec_dataShards block hplace) row).symm

end Codec

/-! ## A library that interpolates -/

namespace ParityLibrary

/-- The length of the first shard, which all have to have. -/
def firstLength (shards : List Bytes) : Nat :=
  (shards.head?.map List.length).getD 0

/-- The shards after data shards of a length, by interpolation. -/
def interpolated (count size : Nat) (data : List Bytes) : List Bytes :=
  (List.range' data.length count).map fun index =>
    Interpolation.valueAt size (Scheme.located data) (GF256.ofIndex index)

/-- The library that checks what it is given, and computes parity by interpolation. -/
def interpolating : ParityLibrary where
  Coder := Nat × Nat
  new dataShards parityShards :=
    if dataShards = 0 then
      .error "The number of provided data shards is smaller than the one in codec"
    else if parityShards = 0 then
      .error "The number of provided parity shards is smaller than the one in codec"
    else if maxShards < dataShards + parityShards then
      .error "The number of provided shards is greater than the one in codec"
    else .ok (dataShards, parityShards)
  encode := fun (dataShards, parityShards) shards =>
    if shards.length < dataShards + parityShards then
      .error "The number of provided shards is smaller than the one in codec"
    else if dataShards + parityShards < shards.length then
      .error "The number of provided shards is greater than the one in codec"
    else if firstLength shards = 0 then .error CodingFault.noBytes.reason
    else if shards.any (·.length ≠ firstLength shards) then
      .error "At least one of the provided shards is not of the correct size"
    else
      let data := shards.take dataShards
      .ok (data ++ interpolated parityShards (firstLength shards) data)

theorem interpolating_new {dataShards parityShards : Nat} (hdata : 1 ≤ dataShards)
    (hparity : 1 ≤ parityShards) (hsum : dataShards + parityShards ≤ maxShards) :
    interpolating.new dataShards parityShards = .ok (dataShards, parityShards) := by
  simp only [interpolating]
  rw [if_neg (Nat.ne_of_gt hdata), if_neg (Nat.ne_of_gt hparity), if_neg (Nat.not_lt.mpr hsum)]

theorem of_interpolating_new {dataShards parityShards : Nat} {coder : Nat × Nat}
    (h : interpolating.new dataShards parityShards = .ok coder) :
    coder = (dataShards, parityShards) := by
  simp only [interpolating] at h
  split at h
  · cases h
  · split at h
    · cases h
    · split at h
      · cases h
      · cases h
        rfl

theorem interpolating_encode {dataShards parityShards size : Nat} {shards : List Bytes}
    (hcount : shards.length = dataShards + parityShards) (hpos : 0 < size) (hdata : 1 ≤ dataShards)
    (hsize : ∀ shard ∈ shards, shard.length = size) :
    interpolating.encode (dataShards, parityShards) shards =
      .ok (shards.take dataShards ++
        interpolated parityShards size (shards.take dataShards)) := by
  have hfirst : firstLength shards = size := by
    cases shards with
    | nil =>
      rw [List.length_nil] at hcount
      omega
    | cons first rest => exact hsize first List.mem_cons_self
  have hany : ¬ shards.any (·.length ≠ size) := by
    simpa using hsize
  simp only [interpolating, hfirst]
  rw [if_neg (by omega), if_neg (by omega), if_neg (Nat.ne_of_gt hpos), if_neg hany]

theorem length_of_mem_interpolated {count size : Nat} {data : List Bytes} {shard : Bytes}
    (hsize : ∀ shard ∈ data, shard.length = size) (h : shard ∈ interpolated count size data) :
    shard.length = size := by
  obtain ⟨index, -, rfl⟩ := List.mem_map.mp h
  apply Interpolation.length_valueAt
  intro entry hentry
  obtain ⟨position, hget, -⟩ := Scheme.mem_located.mp hentry
  exact hsize _ (List.mem_of_getElem? hget)

/-- Interpolated shards are the products of the data shards with the rows of the code. -/
theorem byteAt_interpolated (s : Scheme) {size place : Nat} {data : List Bytes}
    (hcount : data.length = s.k) (hsize : ∀ shard ∈ data, shard.length = size)
    (hplace : place < size) {row : Fin s.n} (hrow : s.k ≤ row) :
    byteAt ((interpolated (s.n - s.k) size data).getD (row - s.k) []) place =
      (s.generator *ᵥ fun index : Fin s.k => byteAt (data.getD index []) place) row := by
  have hindex : (row : Nat) - s.k < (List.range' s.k (s.n - s.k)).length := by
    rw [List.length_range']
    omega
  rw [s.generator_mulVec_eq_valueAt hcount hsize hplace row, interpolated, hcount,
    List.getD_eq_getElem?_getD, List.getElem?_map, List.getElem?_eq_getElem hindex,
    List.getElem_range', Nat.one_mul, Option.map_some, Option.getD_some,
    Nat.add_sub_cancel' hrow]

theorem interpolating_documented : interpolating.Documented where
  new hdata hparity hsum := ⟨_, interpolating_new hdata hparity hsum⟩
  encode := by
    intro s coder shards size hnew hcount hpos hsize
    obtain rfl := of_interpolating_new hnew
    have hle := s.k_le_n
    have htake : (shards.take s.k).length = s.k := by
      rw [List.length_take, hcount, Nat.min_eq_left hle]
    have htaken : ∀ shard ∈ shards.take s.k, shard.length = size :=
      fun shard hshard => hsize shard (List.mem_of_mem_take hshard)
    refine ⟨interpolated (s.n - s.k) size (shards.take s.k),
      interpolating_encode (by omega) hpos s.one_le_k hsize, ?_,
      fun shard => length_of_mem_interpolated htaken, fun place hplace row hrow => ?_⟩
    · rw [interpolated, List.length_map, List.length_range']
    · simp only [← Scheme.getD_take shards]
      exact byteAt_interpolated s htake htaken hplace hrow

end ParityLibrary

theorem Codec.encode_shape_sample :
    ParityLibrary.interpolating.Documented ∧
      ∃ codec, Codec.new .interpolating ⟨2, 3⟩ = .ok codec ∧
        codec.encode [7] = .ok [⟨0, [7], false⟩, ⟨1, [1], false⟩, ⟨2, [11], true⟩] := by
  have hdoc := ParityLibrary.interpolating_documented
  obtain ⟨hnew, hscheme, -, hencode⟩ := Codec.encode_shape hdoc ⟨2, 3⟩
  obtain ⟨codec, hcodec⟩ := hnew.mpr (hscheme.mpr (by decide))
  obtain ⟨s, hs, hblock⟩ := hencode codec hcodec
  obtain ⟨shards, -, hshards, heq, -⟩ := hblock [7]
  rw [if_neg (by decide)] at hshards
  have htwo : s = Scheme.twoOfThree := by
    have hok : (⟨2, 3⟩ : Redundancy).scheme = .ok Scheme.twoOfThree := rfl
    rw [hok] at hs
    cases hs
    rfl
  rw [htwo, Scheme.encode_twoOfThree] at heq
  exact ⟨hdoc, codec, hcodec, heq ▸ hshards⟩

end ShardVault
