import ShardVault.Digest.Incremental
import ShardVault.Stop

/-!
Digests of content that is read through a buffer.  A reader is given by what its calls will meet:
blocks of bytes and failures.  One call takes at most a buffer of the block in front and leaves
the rest of it for the next call; an empty block, or nothing more to meet, is the end of the
content.
-/

namespace ShardVault

/-- What a reader meets. -/
inductive Reading
  | block (bytes : Bytes)
  | failure (reason : String)
deriving DecidableEq, Repr

namespace Reading

/-- A bound on the calls that a reader can still answer. -/
def weight : List Reading → Nat
  | [] => 0
  | .block bytes :: rest => bytes.length + 1 + weight rest
  | .failure _ :: rest => 1 + weight rest

/-- One call with a buffer of `size` bytes: the bytes read and what the next call meets, or the
    failure.  No bytes are read at the end of the content. -/
def read (size : Nat) : List Reading → Except String (Bytes × List Reading)
  | [] => .ok ([], [])
  | .failure reason :: _ => .error reason
  | .block bytes :: rest =>
    if bytes.length ≤ size then .ok (bytes, rest)
    else .ok (bytes.take size, .block (bytes.drop size) :: rest)

theorem weight_read {size : Nat} (hsize : 0 < size) {readings rest : List Reading} {bytes : Bytes}
    (h : read size readings = .ok (bytes, rest)) (hbytes : bytes ≠ []) :
    weight rest < weight readings := by
  match readings with
  | [] => simp only [read, Except.ok.injEq, Prod.mk.injEq] at h; exact absurd h.1.symm hbytes
  | .failure _ :: _ => simp [read] at h
  | .block _ :: _ =>
    simp only [read] at h
    split at h
    · simp only [Except.ok.injEq, Prod.mk.injEq] at h
      obtain ⟨_, rfl⟩ := h
      simp only [weight]
      omega
    · simp only [Except.ok.injEq, Prod.mk.injEq] at h
      obtain ⟨_, rfl⟩ := h
      simp only [weight, List.length_drop]
      omega

/-- Feeds a hasher with a buffer of `size + 1` bytes until the end of the content. -/
def feed (size : Nat) (hasher : Hasher) (readings : List Reading) : Except String Digest :=
  match h : read (size + 1) readings with
  | .error reason => .error reason
  | .ok (bytes, rest) =>
    if hbytes : bytes = [] then .ok hasher.finish
    else
      have _ := weight_read (Nat.succ_pos size) h hbytes
      feed size (hasher.update bytes) rest
termination_by weight readings

/-- The digest of what a reader gives through a buffer of the wanted size, which is one byte if
    none is wanted.  There is no buffer above `Bytes.maxSize`. -/
def digest (bufferSize : Nat) (readings : List Reading) : Except (Stop String) Digest :=
  if Bytes.maxSize < bufferSize then .error .crash
  else (feed (bufferSize - 1) .new readings).mapError .refused

end Reading

end ShardVault
