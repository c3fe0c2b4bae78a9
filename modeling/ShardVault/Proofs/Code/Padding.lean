import ShardVault.Code.Padding

/-!
Padding takes a block to the next multiple of `k` above its length.  What the last byte of a padded
block tells is how much was added, exactly if the length is less than 256 over a multiple of `k`; so
padding is undone always as long as `k` is at most 256 (`pad_unpad_inverse`).
-/

namespace ShardVault.Padding

/-- A padded block has the next multiple of `k` above the block's length. -/
theorem length_pad {k : Nat} (hk : 0 < k) (block : Bytes) :
    (pad k block).length = k * (block.length / k + 1) := by
  have hmod := Nat.mod_lt block.length hk
  have hdiv := Nat.div_add_mod block.length k
  rw [pad, List.length_append, List.length_replicate, amount, Nat.mul_succ]
  omega

theorem pad_eq_append {k : Nat} (hk : 0 < k) (block : Bytes) :
    pad k block = block ++
      List.replicate (k - block.length % k) (UInt8.ofNat (block.length % k)) := by
  have hmod := Nat.mod_lt block.length hk
  have hadded : k - amount block.length k = block.length % k := by
    rw [amount]
    omega
  rw [pad, hadded, amount]

theorem getLast?_pad {k : Nat} (hk : 0 < k) (block : Bytes) :
    (pad k block).getLast? = some (UInt8.ofNat (block.length % k)) := by
  have hmod := Nat.mod_lt block.length hk
  rw [pad_eq_append hk, List.getLast?_append, List.getLast?_replicate, if_neg (by omega)]
  rfl

/-! ## Stripping -/

/-- A buffer is stripped exactly if its last byte is below `k` and tells of no more bytes than there
    are. -/
theorem unpad_eq_ok_iff {k : Nat} {buffer result : Bytes} :
    unpad k buffer = .ok result ↔ ∃ last, buffer.getLast? = some last ∧ last.toNat < k ∧
      k - last.toNat ≤ buffer.length ∧
      result = buffer.take (buffer.length - (k - last.toNat)) := by
  cases hlast : buffer.getLast? with
  | none => simp [unpad, hlast]
  | some last =>
    simp only [unpad, hlast, Option.some.injEq, exists_eq_left']
    by_cases hmarker : k ≤ last.toNat
    · simp [hmarker, Nat.not_lt.mpr hmarker]
    · rw [if_neg hmarker]
      by_cases hexcess : buffer.length < k - last.toNat
      · simp [hexcess, Nat.not_le.mpr hexcess]
      · simp [hexcess, Nat.not_le.mp hmarker, Nat.not_lt.mp hexcess, eq_comm]

/-- The byte that tells of the padding is cut to eight bits.  What the cut takes away from it is
    stripped from the block as well. -/
theorem unpad_pad_eq_take {k : Nat} (hk : 0 < k) (block : Bytes) :
    let residue := block.length % k
    unpad k (pad k block) =
      .ok (block.take (block.length - (residue - residue % 256))) := by
  intro residue
  have hmod : residue < k := Nat.mod_lt block.length hk
  have hle : residue ≤ block.length := Nat.mod_le block.length k
  have hcut : residue % 256 ≤ residue := Nat.mod_le residue 256
  have hlast : (UInt8.ofNat residue).toNat = residue % 256 := UInt8.toNat_ofNat'
  have hlength : (pad k block).length = block.length + (k - residue) := by
    rw [pad_eq_append hk, List.length_append, List.length_replicate]
  rw [unpad_eq_ok_iff]
  refine ⟨UInt8.ofNat residue, getLast?_pad hk block, by omega, by omega, ?_⟩
  have hkept : block.length + (k - residue) - (k - residue % 256) =
      block.length - (residue - residue % 256) := by
    omega
  rw [hlast, hlength, hkept, pad_eq_append hk, List.take_append_of_le_length (Nat.sub_le _ _)]

/-- Stripping undoes padding exactly if the byte that tells of it is whole. -/
theorem unpad_pad_iff {k : Nat} (hk : 0 < k) (block : Bytes) :
    unpad k (pad k block) = .ok block ↔ block.length % k < 256 := by
  have hle : block.length % k ≤ block.length := Nat.mod_le block.length k
  rw [unpad_pad_eq_take hk, Except.ok.injEq]
  constructor
  · intro htake
    have hlength := congrArg List.length htake
    rw [List.length_take] at hlength
    omega
  · intro hresidue
    exact List.take_of_length_le (by omega)

/-- Stripping undoes padding. -/
theorem unpad_pad {k : Nat} (hk : 0 < k) (hmax : k ≤ 256) (block : Bytes) :
    unpad k (pad k block) = .ok block :=
  (unpad_pad_iff hk block).mpr (Nat.lt_of_lt_of_le (Nat.mod_lt block.length hk) hmax)

/-! ## Whole multiples -/

section Multiples

variable {k : Nat} {buffer : Bytes} (hdvd : k ∣ buffer.length) (hbuffer : buffer ≠ [])

include hdvd hbuffer

/-- A buffer of whole multiples has room for any padding. -/
theorem le_length_of_dvd : k ≤ buffer.length :=
  Nat.le_of_dvd (List.length_pos_iff.mpr hbuffer) hdvd

theorem unpad_ne_excess (padding length : Nat) :
    unpad k buffer ≠ .error (.excess padding length) := by
  have hroom := le_length_of_dvd hdvd hbuffer
  intro h
  simp only [unpad] at h
  split at h
  · cases h
  · split at h
    · cases h
    · split at h
      · omega
      · cases h

/-- What is stripped comes back by padding exactly if it is one byte all along. -/
theorem pad_unpad_iff {result : Bytes} (h : unpad k buffer = .ok result) :
    pad k result = buffer ↔
      ∀ byte ∈ buffer.drop result.length, buffer.getLast? = some byte := by
  obtain ⟨last, hlast, hmarker, hle, rfl⟩ := unpad_eq_ok_iff.mp h
  have hroom := le_length_of_dvd hdvd hbuffer
  generalize hkept : buffer.length - (k - last.toNat) = kept
  have hlength : (buffer.take kept).length = kept := by
    rw [List.length_take]
    omega
  -- up to the last byte the marker is a residue, since the rest are whole multiples
  have hresidue : kept % k = last.toNat := by
    obtain ⟨count, hcount⟩ := hdvd
    obtain ⟨less, rfl⟩ : ∃ less, count = less + 1 := by
      refine Nat.exists_eq_add_one.mpr (Nat.pos_of_ne_zero ?_)
      rintro rfl
      omega
    have hsplit : kept = last.toNat + k * less := by
      rw [Nat.mul_succ] at hcount
      omega
    rw [hsplit, Nat.add_mul_mod_self_left, Nat.mod_eq_of_lt hmarker]
  have hdrop : (buffer.drop kept).length = k - last.toNat := by
    rw [List.length_drop]
    omega
  have hpad : pad k (buffer.take kept) =
      buffer.take kept ++ List.replicate (buffer.drop kept).length last := by
    rw [pad_eq_append (Nat.zero_lt_of_lt hmarker), hlength, hresidue, hdrop, UInt8.ofNat_toNat]
  rw [hpad, hlength, hlast]
  constructor
  · intro heq byte hbyte
    have hreplicate := List.append_cancel_left
      (heq.trans (List.take_append_drop kept buffer).symm)
    rw [← hreplicate] at hbyte
    rw [List.eq_of_mem_replicate hbyte]
  · intro hall
    have hreplicate : List.replicate (buffer.drop kept).length last = buffer.drop kept :=
      (List.eq_replicate_of_mem fun byte hbyte => (Option.some.inj (hall byte hbyte)).symm).symm
    rw [hreplicate, List.take_append_drop]

end Multiples

/-! ## Both directions -/

/-- A padded block is there unless it is above the largest size. -/
theorem pad?_eq {k : Nat} (hk : 0 < k) (block : Bytes) :
    pad? k block =
      if Bytes.maxSize < (block.length / k + 1) * k then none else some (pad k block) := by
  have hlength := length_pad hk block
  rw [pad, List.length_append, List.length_replicate] at hlength
  rw [pad?, hlength, Nat.mul_comm]
  simp only [Nat.ne_of_gt hk, false_or]

/-- Padding adds to a block up to the next multiple of `k`, if no size above the largest is asked
    for.  Stripping gives the block back exactly if what the length has over a multiple fits in a
    byte.  A buffer is stripped exactly if it has a last byte, which is below `k` and tells of no
    more bytes than there are, and then of these.  If its length is a multiple of `k` there are
    always as many, and padding gives it back exactly if what was stripped is the last byte all
    along. -/
theorem pad_unpad_inverse {k : Nat} (hk : 1 ≤ k) :
    (∀ block : Bytes,
      pad? k block =
          (if Bytes.maxSize < (block.length / k + 1) * k then none else some (pad k block)) ∧
        (pad k block).length = (block.length / k + 1) * k ∧ block <+: pad k block ∧
        (unpad k (pad k block) = .ok block ↔ block.length % k < 256)) ∧
      ∀ buffer : Bytes,
        (∀ result, unpad k buffer = .ok result ↔
          ∃ last, buffer.getLast? = some last ∧ last.toNat < k ∧
            k - last.toNat ≤ buffer.length ∧
            result = buffer.take (buffer.length - (k - last.toNat))) ∧
        (buffer ≠ [] → k ∣ buffer.length →
          (∀ padding length, unpad k buffer ≠ .error (.excess padding length)) ∧
          ∀ result, unpad k buffer = .ok result →
            (pad k result = buffer ↔
              ∀ byte ∈ buffer.drop result.length, buffer.getLast? = some byte)) := by
  refine ⟨fun block => ⟨pad?_eq hk block, ?_, ?_, unpad_pad_iff hk block⟩, fun buffer =>
    ⟨fun _ => unpad_eq_ok_iff, fun hbuffer hdvd => ⟨unpad_ne_excess hdvd hbuffer, ?_⟩⟩⟩
  · rw [length_pad hk, Nat.mul_comm]
  · exact List.prefix_append _ _
  · intro result
    exact pad_unpad_iff hdvd hbuffer

/-- A length that is 256 over a multiple, and padding of two different bytes. -/
theorem pad_unpad_inverse_sample :
    let block : Bytes := List.replicate 256 7
    let buffer : Bytes := [7, 9, 1]
    1 ≤ 300 ∧ unpad 300 (pad 300 block) ≠ .ok block ∧
      1 ≤ 3 ∧ buffer ≠ [] ∧ 3 ∣ buffer.length ∧ unpad 3 buffer = .ok [7] ∧
        pad 3 [7] ≠ buffer := by
  intro block buffer
  obtain ⟨hpad, -⟩ := pad_unpad_inverse (k := 300) (by decide)
  obtain ⟨-, -, -, hinverse⟩ := hpad block
  obtain ⟨-, hunpad⟩ := pad_unpad_inverse (k := 3) (by decide)
  obtain ⟨hresult, hmultiple⟩ := hunpad buffer
  have hstripped : unpad 3 [7, 9, 1] = .ok [7] := (hresult [7]).mpr (by decide)
  obtain ⟨-, hback⟩ := hmultiple (by decide) (by decide)
  refine ⟨by decide, fun h => ?_, by decide, by decide, by decide, hstripped, fun h => ?_⟩
  · rw [hinverse, List.length_replicate] at h
    omega
  · exact absurd ((hback [7] hstripped).mp h) (by decide)

/-- No byte string longer than the longest can be asked for, so there the empty block has no padded
    form. -/
theorem pad_breaks_off :
    let k := Bytes.maxSize + 1
    1 ≤ k ∧ (([] : Bytes).length / k + 1) * k = k ∧ ∀ padded, pad? k [] ≠ some padded := by
  intro k
  have hlarge : Bytes.maxSize < ([] : Bytes).length + amount ([] : Bytes).length k := by
    decide
  have hnone : pad? k [] = none := if_pos (.inr hlarge)
  refine ⟨by decide, by decide, fun padded h => ?_⟩
  rw [hnone] at h
  cases h

end ShardVault.Padding
