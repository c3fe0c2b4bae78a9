import ShardVault.Digest.Reader
import ShardVault.Proofs.Digest.Incremental

/-!
Digests of content that is read through a buffer.  What a reader gives is settled by what it meets
before its first empty block, so the digest is the same through every buffer that there can be
(`digest_any_buffer`).  The loop of `feed` keeps no buffer; `feedBuffer` keeps one, with whatever
earlier calls have left behind in it, and comes to the same.
-/

namespace ShardVault.Reading

/-! ## What a reader gives -/

/-- The bytes of a block. -/
def bytes : Reading → Bytes
  | .block bytes => bytes
  | .failure _ => []

/-- The reason of a failure. -/
def failure? : Reading → Option String
  | .block _ => none
  | .failure reason => some reason

/-- What is met before the end of the content. -/
def beforeEnd (readings : List Reading) : List Reading :=
  readings.takeWhile fun reading => decide (reading ≠ .block [])

/-- The content that a reader gives, or the first failure if there is one before its end. -/
def content (readings : List Reading) : Except String Bytes :=
  match (beforeEnd readings).findSome? failure? with
  | some reason => .error reason
  | none => .ok ((beforeEnd readings).flatMap bytes)

theorem content_end (rest : List Reading) : content (.block [] :: rest) = .ok [] := by
  simp [content, beforeEnd]

theorem content_failure (reason : String) (rest : List Reading) :
    content (.failure reason :: rest) = .error reason := by
  rw [content, beforeEnd, List.takeWhile_cons_of_pos (by simp), List.findSome?_cons, failure?]

theorem content_block {block : Bytes} (h : block ≠ []) (rest : List Reading) :
    content (.block block :: rest) = (content rest).map (block ++ ·) := by
  have hbefore : beforeEnd (.block block :: rest) = .block block :: beforeEnd rest := by
    simp [beforeEnd, h]
  rw [content, content, hbefore, List.findSome?_cons, failure?, List.flatMap_cons, bytes]
  cases (beforeEnd rest).findSome? failure? <;> rfl

/-- The content in front of one call is what the call reads and the content behind it. -/
theorem content_eq_of_read {size : Nat} (hsize : 0 < size) (readings : List Reading) :
    content readings =
      match read size readings with
      | .error reason => .error reason
      | .ok (piece, rest) => if piece = [] then .ok [] else (content rest).map (piece ++ ·) := by
  cases readings with
  | nil => rfl
  | cons reading rest =>
    cases reading with
    | failure reason => exact content_failure reason rest
    | block block =>
      by_cases hblock : block = []
      · subst hblock
        exact content_end rest
      by_cases hfits : block.length ≤ size
      · have hread : read size (.block block :: rest) = .ok (block, rest) := if_pos hfits
        simp only [hread, if_neg hblock]
        exact content_block hblock rest
      · have hread : read size (.block block :: rest) =
            .ok (block.take size, .block (block.drop size) :: rest) := if_neg hfits
        have htake : block.take size ≠ [] := by
          simp [List.take_eq_nil_iff, hblock, Nat.ne_of_gt hsize]
        have hdrop : block.drop size ≠ [] := by
          rw [ne_eq, List.drop_eq_nil_iff]
          exact hfits
        simp only [hread, if_neg htake]
        rw [content_block hblock, content_block hdrop]
        cases content rest with
        | error reason => rfl
        | ok more =>
          change Except.ok (block ++ more) = .ok (block.take size ++ (block.drop size ++ more))
          rw [← List.append_assoc, List.take_append_drop]

/-- A hasher that has read some bytes goes on to the digest of them and the content. -/
theorem feed_eq_content (size : Nat) {hasher : Hasher} {seen : Bytes} (h : hasher.HasRead seen)
    (readings : List Reading) :
    feed size hasher readings = (content readings).map fun more => Digest.of (seen ++ more) := by
  fun_induction feed size hasher readings generalizing seen with
  | case1 hasher readings reason hread =>
    rw [content_eq_of_read size.succ_pos, hread]
    rfl
  | case2 hasher readings rest hread =>
    rw [content_eq_of_read size.succ_pos, hread]
    simp only [if_true, Except.map, List.append_nil, h.finish]
  | case3 hasher readings piece rest hread hpiece _ ih =>
    rw [content_eq_of_read size.succ_pos, hread, ih (h.update piece)]
    simp only [if_neg hpiece]
    cases content rest with
    | error reason => simp only [Except.map]
    | ok more => simp only [Except.map, List.append_assoc]

/-! ## One buffer for all calls -/

/-- One call that writes into a buffer: how many bytes it has read, the buffer with these in front
    and with what was behind them still there, and what the next call meets. -/
def readInto (buffer : Bytes) (readings : List Reading) :
    Except String (Nat × Bytes × List Reading) :=
  (read buffer.length readings).map fun (piece, rest) =>
    (piece.length, piece ++ buffer.drop piece.length, rest)

theorem length_of_read {size : Nat} {readings rest : List Reading} {piece : Bytes}
    (h : read size readings = .ok (piece, rest)) : piece.length ≤ size := by
  cases readings with
  | nil =>
    cases h
    exact Nat.zero_le size
  | cons reading more =>
    cases reading with
    | failure reason => cases h
    | block block =>
      rw [read] at h
      split at h
      · rename_i hfits
        cases h
        exact hfits
      · cases h
        exact List.length_take_le size block

/-- What a call puts into a buffer is what it reads. -/
theorem of_readInto {buffer after : Bytes} {readings rest : List Reading} {count : Nat}
    (h : readInto buffer readings = .ok (count, after, rest)) :
    read buffer.length readings = .ok (after.take count, rest) ∧
      (after.take count).length = count ∧ after.length = buffer.length := by
  rw [readInto] at h
  cases hread : read buffer.length readings with
  | error reason =>
    rw [hread] at h
    cases h
  | ok result =>
    obtain ⟨piece, more⟩ := result
    have hlength := length_of_read hread
    rw [hread] at h
    cases h
    rw [List.take_left]
    refine ⟨rfl, rfl, ?_⟩
    rw [List.length_append, List.length_drop]
    omega

theorem weight_readInto {buffer after : Bytes} {readings rest : List Reading} {count : Nat}
    (h : readInto buffer readings = .ok (count, after, rest)) (hcount : count ≠ 0) :
    weight rest < weight readings := by
  obtain ⟨hread, hlength, -⟩ := of_readInto h
  have hsize := length_of_read hread
  have hpiece : after.take count ≠ [] := by
    rw [ne_eq, ← List.length_eq_zero_iff, hlength]
    exact hcount
  exact weight_read (by omega) hread hpiece

/-- Feeds a hasher through one buffer, call by call, with the bytes that each call has read. -/
def feedBuffer (buffer : Bytes) (hasher : Hasher) (readings : List Reading) :
    Except String Digest :=
  match h : readInto buffer readings with
  | .error reason => .error reason
  | .ok (count, after, rest) =>
    if hcount : count = 0 then .ok hasher.finish
    else
      have _ := weight_readInto h hcount
      feedBuffer after (hasher.update (after.take count)) rest
termination_by weight readings

theorem feed_eq_of_read (size : Nat) (hasher : Hasher) (readings : List Reading) :
    feed size hasher readings =
      match read (size + 1) readings with
      | .error reason => .error reason
      | .ok (piece, rest) =>
        if piece = [] then .ok hasher.finish else feed size (hasher.update piece) rest := by
  rw [feed]
  split
  · rename_i hread
    rw [hread]
  · rename_i hread
    simp only [hread, dite_eq_ite]

/-- What calls leave behind in the buffer is never read. -/
theorem feedBuffer_eq_feed {size : Nat} {buffer : Bytes} (hbuffer : buffer.length = size + 1)
    (hasher : Hasher) (readings : List Reading) :
    feedBuffer buffer hasher readings = feed size hasher readings := by
  rw [feed_eq_of_read]
  fun_induction feedBuffer buffer hasher readings with
  | case1 buffer hasher readings reason hinto =>
    rw [readInto, hbuffer] at hinto
    cases hread : read (size + 1) readings with
    | error own =>
      rw [hread] at hinto
      cases hinto
      rfl
    | ok result =>
      rw [hread] at hinto
      cases hinto
  | case2 buffer hasher readings after rest hinto =>
    obtain ⟨hread, -, -⟩ := of_readInto hinto
    rw [hbuffer] at hread
    rw [hread]
    rfl
  | case3 buffer hasher readings count after rest hinto hcount _ ih =>
    obtain ⟨hread, hlength, hafter⟩ := of_readInto hinto
    have hpiece : after.take count ≠ [] := by
      rw [ne_eq, ← List.length_eq_zero_iff, hlength]
      exact hcount
    rw [hbuffer] at hread
    rw [hread, ih (hafter.trans hbuffer), ← feed_eq_of_read]
    exact (if_neg hpiece).symm

/-! ## Any buffer -/

theorem digest_eq_content {size : Nat} (h : size ≤ Bytes.maxSize) (readings : List Reading) :
    digest size readings = ((content readings).map Digest.of).mapError .refused := by
  rw [digest, if_neg (Nat.not_lt.mpr h), feed_eq_content _ Hasher.hasRead_new]
  rfl

/-- Through every buffer that there can be, one byte if none is wanted, a reader comes to an end
    with the digest of all blocks before the first empty one, or with the first failure if there is
    one before it; so the size of the buffer makes no difference.  The buffer may be one for all
    calls.  There is none above the most bytes that can be asked for, and then nothing is read. -/
theorem digest_any_buffer (readings : List Reading) :
    (∀ size ≤ Bytes.maxSize,
      digest size readings =
          (match (beforeEnd readings).findSome? failure? with
            | some reason => .error (.refused reason)
            | none => .ok (Digest.of ((beforeEnd readings).flatMap bytes))) ∧
        digest size readings =
          (feedBuffer (List.replicate (max size 1) 0) .new readings).mapError .refused ∧
        ∀ other ≤ Bytes.maxSize, digest other readings = digest size readings) ∧
      ∀ size > Bytes.maxSize, digest size readings = .error .crash := by
  refine ⟨fun size hsize => ⟨?_, ?_, fun other hother => ?_⟩, fun size hsize => if_pos hsize⟩
  · rw [digest_eq_content hsize, content]
    cases (beforeEnd readings).findSome? failure? <;> rfl
  · have hbuffer : (List.replicate (max size 1) (0 : UInt8)).length = size - 1 + 1 := by
      rw [List.length_replicate]
      omega
    rw [feedBuffer_eq_feed hbuffer, digest, if_neg (Nat.not_lt.mpr hsize)]
  · rw [digest_eq_content hsize, digest_eq_content hother]

/-- Short reads, a block longer than the buffer, and a failure after the end. -/
theorem digest_any_buffer_sample :
    0 ≤ Bytes.maxSize ∧ 3 ≤ Bytes.maxSize ∧
      digest 0 [.block [1, 2], .block [3, 4, 5, 6], .block [], .failure "late"] =
        .ok (Digest.of [1, 2, 3, 4, 5, 6]) ∧
      digest 3 [.block [1, 2], .block [3, 4, 5, 6], .block [], .failure "late"] =
        digest 0 [.block [1, 2], .block [3, 4, 5, 6], .block [], .failure "late"] ∧
      digest 3 [.block [1, 2], .failure "early", .block []] = .error (.refused "early") := by
  have hzero : 0 ≤ Bytes.maxSize := Nat.zero_le _
  have hthree : 3 ≤ Bytes.maxSize := by decide
  obtain ⟨hdigest, -, hany⟩ := (digest_any_buffer
    [.block [1, 2], .block [3, 4, 5, 6], .block [], .failure "late"]).1 0 hzero
  obtain ⟨hfailure, -, -⟩ := (digest_any_buffer
    [.block [1, 2], .failure "early", .block []]).1 3 hthree
  exact ⟨hzero, hthree, hdigest, hany 3 hthree, hfailure⟩

/-- There is no buffer of 2^63 bytes, so a content of one byte gets no digest. -/
theorem digest_breaks_off :
    digest (Bytes.maxSize + 1) [.block [0]] = .error .crash ∧
      beforeEnd [.block [0]] = [.block [0]] ∧ failure? (.block [0]) = none ∧
      digest (Bytes.maxSize + 1) [.block [0]] ≠ .ok (Digest.of [0]) ∧
      digest (Bytes.maxSize + 1) [.block [0]] ≠ digest 1 [.block [0]] := by
  have hcrash : digest (Bytes.maxSize + 1) [.block [0]] = .error .crash := if_pos (by decide)
  have hdigest : digest 1 [.block [0]] = .ok (Digest.of [0]) :=
    digest_eq_content (by decide) [.block [0]]
  refine ⟨hcrash, rfl, rfl, ?_, ?_⟩
  · rw [hcrash]
    intro h
    cases h
  · rw [hcrash, hdigest]
    intro h
    cases h

end ShardVault.Reading
