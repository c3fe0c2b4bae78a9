import Mathlib.Data.Nat.Find
import Mathlib.Order.Bounds.Basic
import ShardVault.Proofs.Reconstruct.Length

/-!
What the length search goes through.  A log beside the search tells the lengths that it compares,
with the digests that the hasher gives there.  They are the admissible lengths in order, up to the
first at which the content has the digest, and the content is cut there
(`stripPadding_least_admissible`).
-/

namespace ShardVault.Reconstructor

variable {expected : Digest}

/-! ## The log -/

/-- The search with its log: the length found, and the lengths compared on the way, each with what
    the hasher gave for it. -/
def searchLogged (expected : Digest) (hasher : Hasher) (length : Nat) :
    Bytes → Option Nat × List (Nat × Digest)
  | [] => (if hasher.finish = expected then some length else none, [(length, hasher.finish)])
  | byte :: rest =>
    if hasher.finish = expected then (some length, [(length, hasher.finish)])
    else
      let (found, compared) := searchLogged expected (hasher.update [byte]) (length + 1) rest
      (found, (length, hasher.finish) :: compared)

/-- The search finds the same without its log. -/
theorem fst_searchLogged (hasher : Hasher) (length : Nat) (rest : Bytes) :
    (searchLogged expected hasher length rest).1 = searchLength expected hasher length rest := by
  induction rest generalizing hasher length with
  | nil => rfl
  | cons byte rest ih =>
    rw [searchLogged, searchLength]
    split
    · rfl
    · exact ih _ _

/-- The lengths compared are those before which the content does not have the digest, and the
    hasher gives the digests of the content cut there. -/
theorem snd_searchLogged {hasher : Hasher} {read : Bytes} (h : hasher.HasRead read)
    (length : Nat) (rest : Bytes) :
    (searchLogged expected hasher length rest).2 =
      ((List.range (rest.length + 1)).filter fun more =>
        decide (∀ earlier < more, Digest.of (read ++ rest.take earlier) ≠ expected)).map
          fun more => (length + more, Digest.of (read ++ rest.take more)) := by
  induction rest generalizing hasher read length with
  | nil => simp [searchLogged, h.finish]
  | cons byte rest ih =>
    rw [List.length_cons, List.range_succ_eq_map, List.filter_cons_of_pos (by simp), List.map_cons,
      List.filter_map, List.map_map]
    simp only [searchLogged, h.finish, List.take_zero, List.append_nil, Nat.add_zero]
    by_cases hfound : Digest.of read = expected
    · -- nothing is compared after the length found
      have hnone : (List.range (rest.length + 1)).filter ((fun more =>
          decide (∀ earlier < more, Digest.of (read ++ (byte :: rest).take earlier) ≠ expected)) ∘
            Nat.succ) = [] := by
        rw [List.filter_eq_nil_iff]
        intro more _ hmore
        exact of_decide_eq_true hmore 0 (Nat.succ_pos more) (by simpa using hfound)
      rw [if_pos hfound, hnone, List.map_nil]
    · have hstep (more : Nat) :
          (∀ earlier < more + 1, Digest.of (read ++ (byte :: rest).take earlier) ≠ expected) ↔
            ∀ earlier < more, Digest.of (read ++ [byte] ++ rest.take earlier) ≠ expected := by
        rw [Nat.forall_lt_succ_left]
        simp [hfound]
      rw [if_neg hfound, ih (h.update [byte])]
      simp only [Function.comp_def, Nat.succ_eq_add_one, hstep, List.append_assoc,
        List.singleton_append, List.take_succ_cons, Nat.add_assoc, Nat.add_comm 1]

/-- The search of a content: the length found, and the lengths compared on the way, each with what
    the hasher gave for it. -/
def search (content : Bytes) (lastLength : Nat) (expected : Digest) :
    Option Nat × List (Nat × Digest) :=
  let start := max (content.length - lastLength + 1) content.lengthWithoutZeros
  searchLogged expected (Hasher.new.update (content.take start)) start (content.drop start)

/-! ## Admissible lengths -/

variable {content : Bytes} {lastLength : Nat}

/-- No zeros need to have been added. -/
theorem admissible_length (content : Bytes) (hpos : 1 ≤ lastLength) :
    Admissible content lastLength content.length where
  lt := Nat.lt_add_of_pos_right hpos
  le := Nat.le_refl _
  zeros byte hbyte := by
    rw [List.drop_length] at hbyte
    cases hbyte

/-- What comes out of a content is what its search finds. -/
theorem stripPadding_eq_search (hcontent : content ≠ []) (hpos : 1 ≤ lastLength)
    (hlast : lastLength ≤ content.length) :
    stripPadding content lastLength expected =
      match (search content lastLength expected).1 with
      | some length => .ok (content.take length)
      | none => .error (.refused (.integrity expected.hex (Digest.of content).hex)) := by
  obtain ⟨hstart, -⟩ := (admissible_iff hlast).mp (admissible_length content hpos)
  rw [search, fst_searchLogged]
  exact stripPadding_of_start_le hcontent hstart

/-- A content of which no admissible length has the digest is refused. -/
theorem stripPadding_of_none (hcontent : content ≠ []) (hpos : 1 ≤ lastLength)
    (hlast : lastLength ≤ content.length)
    (hnone : ∀ length, Admissible content lastLength length →
      Digest.of (content.take length) ≠ expected) :
    stripPadding content lastLength expected =
      .error (.refused (.integrity expected.hex (Digest.of content).hex)) := by
  obtain ⟨hstart, -⟩ := (admissible_iff hlast).mp (admissible_length content hpos)
  rw [stripPadding_of_start_le hcontent hstart]
  generalize hmax : max (content.length - lastLength + 1) content.lengthWithoutZeros = start
    at hstart
  have hfind : ((List.range (content.length - start + 1)).find? fun more =>
      decide (Digest.of (content.take (start + more)) = expected)) = none := by
    rw [List.find?_eq_none]
    intro more hmore hfound
    have hmore := List.mem_range.mp hmore
    exact hnone (start + more) ((admissible_iff hlast).mpr ⟨by omega, by omega⟩)
      (of_decide_eq_true hfound)
  rw [searchLength_take, hfind]
  rfl

section Log

variable (hpos : 1 ≤ lastLength) (hlast : lastLength ≤ content.length)

include hpos hlast

/-- What is compared are the admissible lengths in order, up to the first at which the content has
    the digest, and every one with the digest of the content cut there. -/
theorem mem_compared {length : Nat} {digest : Digest} :
    (length, digest) ∈ (search content lastLength expected).2 ↔
      Admissible content lastLength length ∧ digest = Digest.of (content.take length) ∧
        ∀ shorter < length, Admissible content lastLength shorter →
          Digest.of (content.take shorter) ≠ expected := by
  obtain ⟨hstart, -⟩ := (admissible_iff hlast).mp (admissible_length content hpos)
  simp only [search, snd_searchLogged (Hasher.hasRead_new.update _), List.nil_append,
    ← List.take_add, admissible_iff hlast]
  generalize max (content.length - lastLength + 1) content.lengthWithoutZeros = start at hstart
  rw [List.mem_map]
  constructor
  · rintro ⟨more, hmore, heq⟩
    obtain ⟨rfl, rfl⟩ := Prod.mk.inj heq
    obtain ⟨hrange, hearlier⟩ := List.mem_filter.mp hmore
    rw [List.mem_range, List.length_drop] at hrange
    refine ⟨⟨by omega, by omega⟩, rfl, fun shorter hshorter hadmissible => ?_⟩
    rw [← Nat.add_sub_cancel' hadmissible.1]
    exact of_decide_eq_true hearlier (shorter - start) (by omega)
  · rintro ⟨⟨hlow, hhigh⟩, rfl, hshorter⟩
    refine ⟨length - start, List.mem_filter.mpr ⟨?_, decide_eq_true fun earlier hearlier => ?_⟩, ?_⟩
    · rw [List.mem_range, List.length_drop]
      omega
    · exact hshorter (start + earlier) (by omega) ⟨by omega, by omega⟩
    · rw [Nat.add_sub_cancel' hlow]

/-- No more lengths are compared than the last stripe has bytes. -/
theorem length_compared_le : (search content lastLength expected).2.length ≤ lastLength := by
  obtain ⟨hstart, -⟩ := (admissible_iff hlast).mp (admissible_length content hpos)
  rw [search, snd_searchLogged (Hasher.hasRead_new.update _), List.length_map]
  calc
    _ ≤ (List.range (_ + 1)).length := List.length_filter_le _ _
    _ ≤ lastLength := by
      rw [List.length_range, List.length_drop]
      omega

end Log

theorem pairwise_compared :
    (search content lastLength expected).2.Pairwise fun earlier later => earlier.1 < later.1 := by
  rw [search, snd_searchLogged (Hasher.hasRead_new.update _), List.pairwise_map]
  apply List.Pairwise.filter
  exact List.pairwise_lt_range.imp fun hlt => Nat.add_lt_add_left hlt _

/-! ## The search -/

/-- A content with a last stripe of some bytes is cut at the least admissible length at which it has
    the digest, and refused if there is none, with its own digest; it always has an admissible
    length.  What comes out is what the search finds, and the search compares the admissible lengths
    in order, up to that one, and so no more than the last stripe has bytes; the hasher gives the
    digest of the content cut there. -/
theorem stripPadding_least_admissible (content : Bytes) (lastLength : Nat) (expected : Digest)
    (hcontent : content ≠ []) (hpos : 1 ≤ lastLength) (hlast : lastLength ≤ content.length) :
    let matching := {length | Admissible content lastLength length ∧
      Digest.of (content.take length) = expected}
    let mismatch := Stop.refused (.integrity expected.hex (Digest.of content).hex)
    let found := (search content lastLength expected).1
    let log := (search content lastLength expected).2
    (∃ length, Admissible content lastLength length) ∧
      (matching.Nonempty → ∃ least, IsLeast matching least ∧
        stripPadding content lastLength expected = .ok (content.take least)) ∧
      (¬ matching.Nonempty → stripPadding content lastLength expected = .error mismatch) ∧
      (stripPadding content lastLength expected =
        match found with
        | some length => .ok (content.take length)
        | none => .error mismatch) ∧
      (∀ length digest, (length, digest) ∈ log ↔
        Admissible content lastLength length ∧ digest = Digest.of (content.take length) ∧
          ∀ shorter < length, Admissible content lastLength shorter →
            Digest.of (content.take shorter) ≠ expected) ∧
      log.Pairwise (fun earlier later => earlier.1 < later.1) ∧ log.length ≤ lastLength := by
  intro matching mismatch found log
  refine ⟨⟨_, admissible_length content hpos⟩, fun hsome => ?_, fun hnone => ?_,
    stripPadding_eq_search hcontent hpos hlast, fun _ _ => mem_compared hpos hlast,
    pairwise_compared, length_compared_le hpos hlast⟩
  · classical
    have hleast := Nat.find_spec hsome
    refine ⟨Nat.find hsome, ⟨hleast, fun length hlength => Nat.find_min' hsome hlength⟩, ?_⟩
    apply stripPadding_of_least hcontent hlast hleast.1 hleast.2
    intro shorter hshorter hadmissible hdigest
    exact Nat.find_min hsome hshorter ⟨hadmissible, hdigest⟩
  · apply stripPadding_of_none hcontent hpos hlast
    intro length hadmissible hdigest
    exact hnone ⟨length, hadmissible, hdigest⟩

/-- A content that itself ends in a zero, in a stripe with another. -/
theorem stripPadding_least_admissible_sample :
    ([7, 0, 0] : Bytes) ≠ [] ∧ 1 ≤ 3 ∧ 3 ≤ ([7, 0, 0] : Bytes).length ∧
      stripPadding [7, 0, 0] 3 (Digest.of [7, 0]) = .ok [7, 0] := by
  have hcontent : ([7, 0, 0] : Bytes) ≠ [] := by simp
  obtain ⟨-, hfound, -⟩ := stripPadding_least_admissible [7, 0, 0] 3 (Digest.of [7, 0]) hcontent
    (by decide) (by decide)
  have htwo : Admissible [7, 0, 0] 3 2 := ⟨by decide, by decide, by simp⟩
  obtain ⟨least, hleast, hstrip⟩ := hfound ⟨2, htwo, rfl⟩
  have hle : least ≤ 2 := hleast.2 ⟨htwo, rfl⟩
  have hlt : 3 < least + 3 := hleast.1.1.lt
  have hne : least ≠ 1 := by
    rintro rfl
    exact Digest.of_seven_ne hleast.1.2
  obtain rfl : least = 2 := by omega
  exact ⟨hcontent, by decide, by decide, hstrip⟩

end ShardVault.Reconstructor
