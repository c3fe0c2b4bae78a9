import ShardVault.Digest.Incremental
import ShardVault.Proofs.Bytes

/-!
Digests of content in pieces.  A hasher that was given some bytes finishes with the digest of
those bytes.  What carries this over a whole run is that the pending bytes are as many as the
length leaves over whole blocks.
-/

namespace ShardVault

namespace Sha256

theorem length_wordBytes (word : UInt32) : (wordBytes word).length = 4 := rfl

/-- A message and its padding fill whole blocks. -/
theorem length_add_padding (length : Nat) : (length + (padding length).length) % 64 = 0 := by
  simp only [padding, List.length_append, List.length_cons, List.length_replicate,
    length_wordBytes]
  omega

namespace State

theorem length_push (s : State) (byte : UInt8) : (s.push byte).length = s.length + 1 := by
  simp only [push]
  split <;> rfl

theorem length_absorb (s : State) (bytes : Bytes) :
    (s.absorb bytes).length = s.length + bytes.length := by
  induction bytes generalizing s with
  | nil => rfl
  | cons byte rest ih =>
    rw [absorb, List.foldl_cons, ← absorb, ih, length_push, List.length_cons]
    omega

/-- The pending bytes are those after the last whole block. -/
def Aligned (s : State) : Prop :=
  s.pending.length = s.length % 64

theorem aligned_initial : initial.Aligned := rfl

theorem aligned_push {s : State} (h : s.Aligned) (byte : UInt8) : (s.push byte).Aligned := by
  rw [Aligned] at h ⊢
  simp only [push]
  split
  · rename_i hblock
    exact hblock.symm
  · rename_i hblock
    change s.pending.length + 1 = (s.length + 1) % 64
    omega

/-- Bytes that complete the last block are compressed block by block. -/
theorem chain_absorb {s : State} (h : s.Aligned) {bytes : Bytes}
    (hblocks : (s.length + bytes.length) % 64 = 0) :
    (s.absorb bytes).chain =
      (Bytes.windows 64 (s.pending.reverse ++ bytes)).foldl compress s.chain := by
  induction bytes generalizing s with
  | nil =>
    have hnone : s.pending = [] := by
      rw [← List.length_eq_zero_iff, h]
      simpa using hblocks
    simp [absorb, hnone, Bytes.windows_nil]
  | cons byte rest ih =>
    have hstep := ih (aligned_push h byte) (by
      rw [length_push]
      rw [List.length_cons] at hblocks
      omega)
    rw [absorb, List.foldl_cons, ← absorb, hstep]
    rw [Aligned] at h
    simp only [push]
    split
    · rename_i hfull
      have hblock : (s.pending.reverse ++ [byte]).length = 64 := by
        rw [List.length_append, List.length_reverse, List.length_singleton]
        omega
      have hsplit : s.pending.reverse ++ byte :: rest = (s.pending.reverse ++ [byte]) ++ rest := by
        rw [List.append_assoc, List.singleton_append]
      rw [hsplit, Bytes.windows_append (by decide) hblock, List.foldl_cons]
      simp
    · simp

theorem finish_absorb (message : Bytes) : (initial.absorb message).finish = hash message := by
  have hlength : (initial.absorb message).length = message.length := by
    rw [length_absorb]
    exact Nat.zero_add _
  rw [finish, hlength, ← absorb_append, chain_absorb aligned_initial]
  · rfl
  · rw [List.length_append]
    simpa [initial] using length_add_padding message.length

end State

end Sha256

namespace Hasher

/-- A hasher has read these bytes, in this order. -/
def HasRead (hasher : Hasher) (bytes : Bytes) : Prop :=
  hasher.state = Sha256.State.initial.absorb bytes

theorem hasRead_new : Hasher.new.HasRead [] := rfl

theorem HasRead.update {hasher : Hasher} {bytes : Bytes} (h : hasher.HasRead bytes)
    (piece : Bytes) : (hasher.update piece).HasRead (bytes ++ piece) := by
  rw [HasRead] at h ⊢
  rw [Hasher.update, h, Sha256.State.absorb_append]

/-- A hasher finishes with the digest of what it has read. -/
theorem HasRead.finish {hasher : Hasher} {bytes : Bytes} (h : hasher.HasRead bytes) :
    hasher.finish = Digest.of bytes := by
  rw [Hasher.finish, h, Sha256.State.finish_absorb]
  rfl

end Hasher

/-- Contents on which a hasher finishes with different first bytes have different digests. -/
theorem Digest.of_ne_of_finish {left right : Bytes}
    (h : (Hasher.new.update left).finish.bytes[0] ≠ (Hasher.new.update right).finish.bytes[0]) :
    of left ≠ of right := by
  have hleft := (Hasher.hasRead_new.update left).finish
  have hright := (Hasher.hasRead_new.update right).finish
  rw [List.nil_append] at hleft hright
  rw [hleft, hright] at h
  exact fun heq => h (congrArg (fun digest => digest.bytes[0]) heq)

/-- One byte and its shard have different digests. -/
theorem Digest.of_seven_ne : of [7] ≠ of [7, 0] :=
  of_ne_of_finish (by decide +kernel)

end ShardVault
