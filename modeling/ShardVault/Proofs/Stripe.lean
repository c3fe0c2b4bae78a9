import ShardVault.Proofs.Bytes
import ShardVault.Stripe

/-!
Stripes of a content: each has the size asked for, and together they are the content with fewer
zeros after it than a stripe has bytes.  So they tell everything of a content but how many zeros it
ends in, and this, too, up to less than a stripe (`segment?_content`).
-/

namespace ShardVault.Stripe

variable {size : Nat} {content : Bytes}

theorem segment_nil (size : Nat) : segment size [] = [] := by
  rw [segment, Bytes.windows_nil, List.map_nil]

theorem segment_of_ne_nil (hsize : size ≠ 0) (hcontent : content ≠ []) :
    segment size content =
      (content.take size).rightpad size 0 :: segment size (content.drop size) := by
  rw [segment, Bytes.windows_of_ne_nil hsize hcontent, List.map_cons, segment]

/-- There are stripes of every positive size up to the largest, and of an empty content always. -/
theorem segment?_eq_some (hsize : 0 < size) (h : ¬ (Bytes.maxSize < size ∧ content ≠ [])) :
    segment? size content = some (segment size content) := by
  rw [segment?, if_neg]
  rintro (hzero | hlarge)
  · omega
  · exact h hlarge

theorem eq_segment_of_segment? {stripes : List Bytes} (h : segment? size content = some stripes) :
    stripes = segment size content := by
  rw [segment?] at h
  split at h
  · cases h
  · exact (Option.some.inj h).symm

theorem length_segment (hsize : 0 < size) :
    (segment size content).length = (content.length + size - 1) / size := by
  rw [segment, List.length_map, Bytes.length_windows (Nat.pos_iff_ne_zero.mp hsize)]

/-- The window of a content at a position, filled up with zeros. -/
def window (size : Nat) (content : Bytes) (index : Nat) : Bytes :=
  ((content.drop (index * size)).take size).rightpad size 0

theorem segment_eq_map_window (hsize : 0 < size) (content : Bytes) :
    segment size content =
      (List.range ((content.length + size - 1) / size)).map (window size content) := by
  rw [segment, Bytes.windows_eq_map (Nat.pos_iff_ne_zero.mp hsize), List.map_map]
  rfl

theorem length_of_mem_segment {stripe : Bytes} (h : stripe ∈ segment size content) :
    stripe.length = size := by
  obtain ⟨window, hwindow, rfl⟩ := List.mem_map.mp h
  rw [List.length_rightpad, Nat.max_eq_left (Bytes.length_le_of_mem_windows hwindow)]

/-- The stripes are the content, filled up with fewer zeros than a stripe has bytes. -/
theorem flatten_segment (hsize : 0 < size) (content : Bytes) :
    ∃ added < size, (segment size content).flatten = content ++ List.replicate added 0 := by
  induction hlength : content.length using Nat.strongRecOn generalizing content with
  | ind length ih =>
    by_cases hcontent : content = []
    · subst hcontent
      exact ⟨0, hsize, by simp [segment_nil]⟩
    · have hpos := List.length_pos_iff.mpr hcontent
      rw [segment_of_ne_nil (by omega) hcontent, List.flatten_cons]
      by_cases hle : size ≤ content.length
      · obtain ⟨added, hadded, hrest⟩ :=
          ih (content.drop size).length (by rw [List.length_drop]; omega) (content.drop size) rfl
        refine ⟨added, hadded, ?_⟩
        have htake : (content.take size).length = size := by
          rw [List.length_take]
          omega
        rw [hrest, List.rightpad, htake, Nat.sub_self, List.replicate_zero, List.append_nil,
          ← List.append_assoc, List.take_append_drop]
      · refine ⟨size - content.length, by omega, ?_⟩
        rw [List.take_of_length_le (by omega), List.drop_eq_nil_of_le (by omega), segment_nil,
          List.flatten_nil, List.append_nil, List.rightpad]

/-- The last stripe of a content with a byte, too, has the size asked for. -/
theorem length_getLast_segment (hsize : 0 < size) (hcontent : content ≠ []) :
    ((segment size content).getLast?.map List.length).getD 0 = size := by
  have hne : segment size content ≠ [] := by
    rw [segment_of_ne_nil (Nat.pos_iff_ne_zero.mp hsize) hcontent]
    exact List.cons_ne_nil _ _
  rw [List.getLast?_eq_some_getLast hne, Option.map_some, Option.getD_some]
  exact length_of_mem_segment (List.getLast_mem hne)

theorem size_le_length_flatten_segment (hsize : 0 < size) (hcontent : content ≠ []) :
    size ≤ (segment size content).flatten.length := by
  rw [segment_of_ne_nil (Nat.pos_iff_ne_zero.mp hsize) hcontent, List.flatten_cons,
    List.length_append, List.length_rightpad]
  exact Nat.le_add_right_of_le (Nat.le_max_left _ _)

/-! ## Contents with the same stripes -/

/-- Each stripe has its size, so they have together as many bytes as whole windows have. -/
theorem length_flatten_segment (hsize : 0 < size) (content : Bytes) :
    (segment size content).flatten.length = (content.length + size - 1) / size * size := by
  have hlengths : (segment size content).map List.length =
      List.replicate (segment size content).length size :=
    List.map_eq_replicate_iff.mpr fun _ => length_of_mem_segment
  rw [List.length_flatten, hlengths, List.sum_replicate_nat, length_segment hsize]

/-- Contents have the same stripes if these make the same bytes. -/
theorem segment_eq_of_flatten_eq (hsize : 0 < size) {other : Bytes}
    (h : (segment size other).flatten = (segment size content).flatten) :
    segment size other = segment size content := by
  have hwindows (content : Bytes) :
      Bytes.windows size (segment size content).flatten = segment size content :=
    Bytes.windows_flatten (Nat.pos_iff_ne_zero.mp hsize) fun _ => length_of_mem_segment
  rw [← hwindows other, h, hwindows]

/-- No zeros are added to whole windows. -/
theorem eq_zero_of_flatten_segment (hsize : 0 < size) {added : Nat} (hadded : added < size)
    (h : (segment size content).flatten = content ++ List.replicate added 0)
    (hdvd : size ∣ content.length) : added = 0 := by
  have hlength := congrArg List.length h
  rw [length_flatten_segment hsize, List.length_append, List.length_replicate] at hlength
  have hsum : size ∣ content.length + added := ⟨_, hlength.symm.trans (Nat.mul_comm _ _)⟩
  exact Nat.eq_zero_of_dvd_of_lt ((Nat.dvd_add_right hdvd).mp hsum) hadded

/-- A content is another one with zeros at its end. -/
def ExtendsByZeros (longer shorter : Bytes) : Prop :=
  ∃ zeros, longer = shorter ++ List.replicate zeros 0

/-- Zeros that do not make another window necessary do not change the stripes. -/
theorem ExtendsByZeros.segment_eq (hsize : 0 < size) {other : Bytes}
    (h : ExtendsByZeros other content)
    (hcount : (other.length + size - 1) / size = (content.length + size - 1) / size) :
    segment size other = segment size content := by
  obtain ⟨zeros, rfl⟩ := h
  obtain ⟨added, -, hflatten⟩ := flatten_segment hsize content
  obtain ⟨added', -, hflatten'⟩ := flatten_segment hsize (content ++ List.replicate zeros 0)
  have hlength := length_flatten_segment hsize content
  have hlength' := length_flatten_segment hsize (content ++ List.replicate zeros 0)
  have hsum : added = zeros + added' := by
    rw [hflatten, List.length_append, List.length_replicate] at hlength
    rw [hflatten', hcount, ← hlength, List.length_append, List.length_append,
      List.length_replicate, List.length_replicate] at hlength'
    omega
  apply segment_eq_of_flatten_eq hsize
  rw [hflatten, hflatten', hsum, List.append_assoc, List.replicate_append_replicate]

/-- Zeros after the one content make up what the other one is longer by. -/
theorem extendsByZeros_of_append_eq {other : Bytes} {zeros zeros' : Nat}
    (h : other ++ List.replicate zeros 0 = content ++ List.replicate zeros' 0) :
    ExtendsByZeros other content ∨ ExtendsByZeros content other := by
  rcases List.append_eq_append_iff.mp h with ⟨more, hmore, hzeros⟩ | ⟨more, hmore, hzeros⟩
  · exact .inr ⟨more.length, by rw [← (List.replicate_eq_append_iff.mp hzeros).2.1, ← hmore]⟩
  · exact .inl ⟨more.length, by rw [← (List.replicate_eq_append_iff.mp hzeros).2.1, ← hmore]⟩

/-- Contents have the same stripes exactly if they have as many windows and one is the other with
    zeros at its end. -/
theorem segment_eq_iff (hsize : 0 < size) {other : Bytes} :
    segment size other = segment size content ↔
      (other.length + size - 1) / size = (content.length + size - 1) / size ∧
        (ExtendsByZeros other content ∨ ExtendsByZeros content other) := by
  constructor
  · intro h
    obtain ⟨added, -, hflatten⟩ := flatten_segment hsize content
    obtain ⟨added', -, hflatten'⟩ := flatten_segment hsize other
    refine ⟨by rw [← length_segment hsize, h, length_segment hsize], ?_⟩
    rw [h, hflatten] at hflatten'
    exact extendsByZeros_of_append_eq hflatten'.symm
  · rintro ⟨hcount, hextends | hextends⟩
    · exact hextends.segment_eq hsize hcount
    · exact (hextends.segment_eq hsize hcount.symm).symm

/-- Of contents of one length neither is the other with more zeros. -/
theorem ExtendsByZeros.eq_of_length_eq {other : Bytes} (h : ExtendsByZeros other content)
    (hlength : other.length = content.length) : other = content := by
  obtain ⟨zeros, rfl⟩ := h
  rw [List.length_append, List.length_replicate] at hlength
  have hzeros : zeros = 0 := by omega
  rw [hzeros, List.replicate_zero, List.append_nil]

/-- A content has no stripes exactly if it has a byte and the size is above the largest. -/
theorem segment?_eq_none_iff (hsize : 0 < size) :
    segment? size content = none ↔ Bytes.maxSize < size ∧ content ≠ [] := by
  rw [segment?]
  constructor
  · intro h
    split at h
    · rename_i hnone
      exact hnone.resolve_left (Nat.pos_iff_ne_zero.mp hsize)
    · cases h
  · intro h
    exact if_pos (.inr h)

/-- A content with the stripes of one that can be cut can be cut. -/
theorem fits_of_segment_eq (hsize : 0 < size) {other : Bytes}
    (h : segment size other = segment size content)
    (hfits : ¬ (Bytes.maxSize < size ∧ content ≠ [])) :
    ¬ (Bytes.maxSize < size ∧ other ≠ []) := by
  rintro ⟨hlarge, hother⟩
  have hcontent : content = [] :=
    Decidable.byContradiction fun hne => hfits ⟨hlarge, hne⟩
  rw [hcontent, segment_nil, segment_of_ne_nil (Nat.pos_iff_ne_zero.mp hsize) hother] at h
  cases h

/-- A content that can be cut has as many stripes as it has windows, each of the size asked for,
    and they make the content and fewer zeros than a stripe has bytes, none after whole windows.
    Another content has the same stripes exactly if it has as many windows and one of the two is
    the other with zeros at its end; if they have one length, only if they are equal.  A content
    with a byte cannot be cut into stripes above the largest size. -/
theorem segment?_content (hsize : 0 < size) (content : Bytes) :
    if Bytes.maxSize < size ∧ content ≠ [] then segment? size content = none
    else
      ∃ stripes, segment? size content = some stripes ∧
        stripes.length = (content.length + size - 1) / size ∧
        (∀ stripe ∈ stripes, stripe.length = size) ∧
        (∃ added < size, stripes.flatten = content ++ List.replicate added 0 ∧
          (size ∣ content.length → added = 0)) ∧
        (∀ other, segment? size other = some stripes ↔
          (other.length + size - 1) / size = (content.length + size - 1) / size ∧
            (ExtendsByZeros other content ∨ ExtendsByZeros content other)) ∧
        ∀ other, other.length = content.length → segment? size other = some stripes →
          other = content := by
  by_cases hfits : Bytes.maxSize < size ∧ content ≠ []
  · rw [if_pos hfits]
    exact (segment?_eq_none_iff hsize).mpr hfits
  · rw [if_neg hfits]
    obtain ⟨added, hadded, hflatten⟩ := flatten_segment hsize content
    have hsame (other : Bytes) : segment? size other = some (segment size content) ↔
        (other.length + size - 1) / size = (content.length + size - 1) / size ∧
          (ExtendsByZeros other content ∨ ExtendsByZeros content other) := by
      rw [← segment_eq_iff hsize]
      constructor
      · intro hother
        have hfits' : ¬ (Bytes.maxSize < size ∧ other ≠ []) := by
          rw [← segment?_eq_none_iff hsize, hother]
          exact Option.some_ne_none _
        rw [segment?_eq_some hsize hfits'] at hother
        exact Option.some.inj hother
      · intro hsegment
        rw [segment?_eq_some hsize (fits_of_segment_eq hsize hsegment hfits), hsegment]
    refine ⟨_, segment?_eq_some hsize hfits, length_segment hsize, fun _ => length_of_mem_segment,
      ⟨added, hadded, hflatten, eq_zero_of_flatten_segment hsize hadded hflatten⟩, hsame,
      fun other hlength hother => ?_⟩
    rcases ((hsame other).mp hother).2 with hextends | hextends
    · exact hextends.eq_of_length_eq hlength
    · exact (hextends.eq_of_length_eq hlength.symm).symm

theorem segment?_content_sample :
    0 < 4 ∧ ∃ stripes, segment? 4 [1, 2, 3, 4, 5] = some stripes ∧ stripes.length = 2 ∧
      segment? 4 [1, 2, 3, 4, 5, 0, 0, 0] = some stripes ∧
      segment? 4 [1, 2, 3, 4, 5, 0, 0, 0, 0] ≠ some stripes := by
  have hcontent := segment?_content (show 0 < 4 by decide) [1, 2, 3, 4, 5]
  rw [if_neg (by decide)] at hcontent
  obtain ⟨stripes, hstripes, hlength, -, -, hsame, -⟩ := hcontent
  refine ⟨by decide, stripes, hstripes, hlength, ?_, ?_⟩
  · exact (hsame _).mpr ⟨rfl, .inl ⟨3, rfl⟩⟩
  · intro hother
    exact absurd ((hsame _).mp hother).1 (by decide)

/-- There are no stripes above the largest size, not even the one that a byte has. -/
theorem segment?_breaks_off :
    let size := Bytes.maxSize + 1
    0 < size ∧ (([0] : Bytes).length + size - 1) / size = 1 ∧
      ¬ ∃ stripes, segment? size [0] = some stripes ∧ stripes.length = 1 := by
  intro size
  refine ⟨by decide, by decide, ?_⟩
  rintro ⟨stripes, hstripes, -⟩
  rw [(segment?_eq_none_iff (by decide)).mpr ⟨by decide, by decide⟩] at hstripes
  cases hstripes

end ShardVault.Stripe
