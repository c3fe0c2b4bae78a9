import ShardVault.Proofs.Bytes
import ShardVault.Proofs.Digest.Incremental
import ShardVault.Reconstruct

/-!
The length search.  The hasher has always read the candidate in front of it, so the search finds
the first length at which the content has the digest (`searchLength_eq_find?`).
-/

namespace ShardVault.Reconstructor

variable {expected : Digest}

/-- The search goes through the lengths in order, with the hasher one candidate long. -/
theorem searchLength_eq_find? {hasher : Hasher} {read : Bytes} (h : hasher.HasRead read)
    (length : Nat) (rest : Bytes) :
    searchLength expected hasher length rest =
      ((List.range (rest.length + 1)).find? fun more =>
        decide (Digest.of (read ++ rest.take more) = expected)).map (length + ·) := by
  induction rest generalizing hasher read length with
  | nil =>
    simp only [searchLength, h.finish]
    by_cases hfound : Digest.of read = expected <;> simp [hfound]
  | cons byte rest ih =>
    rw [List.length_cons, List.range_succ_eq_map, List.find?_cons]
    simp only [searchLength, h.finish, List.take_zero, List.append_nil]
    by_cases hfound : Digest.of read = expected
    · simp [hfound]
    · rw [if_neg hfound, ih (h.update [byte]), List.find?_map]
      simp only [hfound, decide_false, Option.map_map]
      simp only [Function.comp_def, List.append_assoc, List.singleton_append, List.take_succ_cons,
        Nat.add_assoc, Nat.add_comm 1]
      rfl

/-- The search of a content from a length on goes through its prefixes. -/
theorem searchLength_take (content : Bytes) (start : Nat) :
    searchLength expected (Hasher.new.update (content.take start)) start (content.drop start) =
      ((List.range (content.length - start + 1)).find? fun more =>
        decide (Digest.of (content.take (start + more)) = expected)).map (start + ·) := by
  rw [searchLength_eq_find? (Hasher.hasRead_new.update _), List.length_drop]
  simp only [List.nil_append, List.take_add]

/-- A found length is in the range searched, and the content has the digest there. -/
theorem of_searchLength {content : Bytes} {start length : Nat} (hstart : start ≤ content.length)
    (h : searchLength expected (Hasher.new.update (content.take start)) start
      (content.drop start) = some length) :
    start ≤ length ∧ length ≤ content.length ∧ Digest.of (content.take length) = expected := by
  rw [searchLength_take, Option.map_eq_some_iff] at h
  obtain ⟨more, hmore, rfl⟩ := h
  have hrange := List.mem_range.mp (List.mem_of_find?_eq_some hmore)
  have hfound := List.find?_some hmore
  exact ⟨by omega, by omega, of_decide_eq_true hfound⟩

/-- What comes out of a content of which some is dropped: it has the digest, and what was dropped
    are zeros, fewer than the last stripe has bytes. -/
theorem of_stripPadding {content bytes : Bytes} {lastLength : Nat}
    (h : stripPadding content lastLength expected = .ok bytes) :
    Digest.of bytes = expected ∧
      ∃ dropped, content = bytes ++ List.replicate dropped 0 ∧
        (content ≠ [] → dropped < lastLength) := by
  simp only [stripPadding] at h
  split at h
  · rename_i hempty
    split at h
    · rename_i hdigest
      cases h
      exact ⟨hdigest, 0, by simp, fun hne => absurd hempty hne⟩
    · cases h
  · rename_i hcontent
    have hpos : 0 < content.length := List.length_pos_iff.mpr hcontent
    split at h
    · cases h
    · rename_i hstart
      split at h
      · rename_i length hsearch
        cases h
        obtain ⟨hle, hlength, hdigest⟩ := of_searchLength (by omega) hsearch
        have hzeros : ∀ byte ∈ content.drop length, byte = 0 :=
          Bytes.lengthWithoutZeros_le_iff.mp (by omega)
        refine ⟨hdigest, content.length - length, ?_, fun _ => by omega⟩
        calc content = content.take length ++ content.drop length :=
              (List.take_append_drop length content).symm
          _ = content.take length ++ List.replicate (content.length - length) 0 := by
              rw [← List.length_drop, ← List.eq_replicate_of_mem hzeros]
      · cases h

/-! ## The length found -/

/-- A length that a content filled up with zeros may have had before, with a last stripe of
    `lastLength` bytes. -/
structure Admissible (content : Bytes) (lastLength length : Nat) : Prop where
  lt : content.length < length + lastLength
  le : length ≤ content.length
  zeros : ∀ byte ∈ content.drop length, byte = 0

theorem admissible_iff {content : Bytes} {lastLength length : Nat}
    (hlast : lastLength ≤ content.length) :
    Admissible content lastLength length ↔
      max (content.length - lastLength + 1) content.lengthWithoutZeros ≤ length ∧
        length ≤ content.length := by
  rw [Nat.max_le, Bytes.lengthWithoutZeros_le_iff]
  constructor
  · rintro ⟨hlt, hle, hzeros⟩
    exact ⟨⟨by omega, hzeros⟩, hle⟩
  · rintro ⟨⟨hlow, hzeros⟩, hle⟩
    exact ⟨by omega, hle, hzeros⟩

/-- A search that begins in the content says what comes out. -/
theorem stripPadding_of_start_le {content : Bytes} {lastLength : Nat} (hcontent : content ≠ [])
    (hstart : max (content.length - lastLength + 1) content.lengthWithoutZeros ≤ content.length) :
    let start := max (content.length - lastLength + 1) content.lengthWithoutZeros
    stripPadding content lastLength expected =
      match searchLength expected (Hasher.new.update (content.take start)) start
          (content.drop start) with
      | some length => .ok (content.take length)
      | none => .error (.refused (.integrity expected.hex (Digest.of content).hex)) := by
  intro start
  have hwithin : ¬ content.length < start := Nat.not_lt.mpr hstart
  exact (if_neg hcontent).trans (if_neg hwithin)

/-- The content is cut at the least admissible length at which it has the digest. -/
theorem stripPadding_of_least {content : Bytes} {lastLength length : Nat}
    (hcontent : content ≠ []) (hlast : lastLength ≤ content.length)
    (hlength : Admissible content lastLength length)
    (hdigest : Digest.of (content.take length) = expected)
    (hleast : ∀ shorter < length, Admissible content lastLength shorter →
      Digest.of (content.take shorter) ≠ expected) :
    stripPadding content lastLength expected = .ok (content.take length) := by
  obtain ⟨hstart, hle⟩ := (admissible_iff hlast).mp hlength
  rw [stripPadding_of_start_le hcontent (Nat.le_trans hstart hle)]
  generalize hmax : max (content.length - lastLength + 1) content.lengthWithoutZeros = start
    at hstart
  have hfind : ((List.range (content.length - start + 1)).find? fun more =>
      decide (Digest.of (content.take (start + more)) = expected)) = some (length - start) := by
    rw [List.find?_range_eq_some, Nat.add_sub_cancel' hstart]
    refine ⟨decide_eq_true hdigest, ?_, ?_⟩
    · rw [List.mem_range]
      omega
    · intro more hmore
      rw [Bool.not_eq_true', decide_eq_false_iff_not]
      exact hleast (start + more) (by omega)
        ((admissible_iff hlast).mpr ⟨by omega, by omega⟩)
  rw [searchLength_take, hfind]
  simp only [Option.map_some, Nat.add_sub_cancel' hstart]

end ShardVault.Reconstructor
