import ShardVault.Bytes

/-!
Windows of byte strings: how many there are, how long they are, and what is at a place of one.
-/

namespace ShardVault.Bytes

theorem windows_append {size : Nat} (hsize : size ≠ 0) {first : Bytes}
    (hfirst : first.length = size) (rest : Bytes) :
    windows size (first ++ rest) = first :: windows size rest := by
  have hne : first ++ rest ≠ [] := by
    intro hnil
    rw [(List.append_eq_nil_iff.mp hnil).1, List.length_nil] at hfirst
    exact hsize hfirst.symm
  rw [windows_of_ne_nil hsize hne, List.take_left' hfirst, List.drop_left' hfirst]

/-- A byte string of `count` whole windows is cut into them. -/
theorem windows_of_length_eq {size count : Nat} {bytes : Bytes} (hsize : size ≠ 0)
    (hlength : bytes.length = count * size) :
    (windows size bytes).length = count ∧ ∀ window ∈ windows size bytes, window.length = size := by
  induction count generalizing bytes with
  | zero =>
    have hnil : bytes = [] := List.length_eq_zero_iff.mp (by omega)
    subst hnil
    simp [windows_nil]
  | succ count ih =>
    have hsum : bytes.length = count * size + size := by rw [hlength, Nat.succ_mul]
    have hbytes : bytes ≠ [] := by
      intro hnil
      rw [hnil, List.length_nil] at hsum
      omega
    have hdrop : (bytes.drop size).length = count * size := by
      rw [List.length_drop]
      omega
    obtain ⟨hcount, hall⟩ := ih hdrop
    rw [windows_of_ne_nil hsize hbytes]
    refine ⟨by rw [List.length_cons, hcount], ?_⟩
    intro window hwindow
    rcases List.mem_cons.mp hwindow with rfl | hwindow
    · rw [List.length_take]
      omega
    · exact hall window hwindow

/-- Parts of one size are the windows of what they make together. -/
theorem windows_flatten {size : Nat} (hsize : size ≠ 0) {parts : List Bytes}
    (h : ∀ part ∈ parts, part.length = size) : windows size parts.flatten = parts := by
  induction parts with
  | nil => exact windows_nil size
  | cons first rest ih =>
    rw [List.forall_mem_cons] at h
    rw [List.flatten_cons, windows_append hsize h.1, ih h.2]

/-- The number of windows is the length divided by the size, rounded up. -/
theorem length_windows {size : Nat} (hsize : size ≠ 0) (bytes : Bytes) :
    (windows size bytes).length = (bytes.length + size - 1) / size := by
  fun_induction windows size bytes with
  | case1 bytes h =>
    have hnil : bytes = [] := by simpa [hsize] using h
    subst hnil
    rw [List.length_nil, List.length_nil, Nat.zero_add, Nat.div_eq_of_lt (by omega)]
  | case2 bytes h ih =>
    have hpos : 0 < bytes.length := List.length_pos_iff.mpr (by simp_all)
    rw [List.length_cons, ih, List.length_drop]
    by_cases hle : bytes.length ≤ size
    · rw [Nat.sub_eq_zero_of_le hle, Nat.zero_add, Nat.div_eq_of_lt (by omega),
        show bytes.length + size - 1 = bytes.length - 1 + size by omega,
        Nat.add_div_right _ (by omega), Nat.div_eq_of_lt (by omega)]
    · rw [show bytes.length + size - 1 = bytes.length - size + size - 1 + size by omega,
        Nat.add_div_right _ (by omega)]

/-- The window at a position starts as many bytes on as the windows before it have. -/
theorem windows_eq_map {size : Nat} (hsize : size ≠ 0) (bytes : Bytes) :
    windows size bytes = (List.range ((bytes.length + size - 1) / size)).map fun index =>
      (bytes.drop (index * size)).take size := by
  rw [← length_windows hsize]
  fun_induction windows size bytes with
  | case1 bytes h => rfl
  | case2 bytes h ih =>
    have hrest (index : Nat) : ((bytes.drop size).drop (index * size)).take size =
        (bytes.drop ((index + 1) * size)).take size := by
      rw [List.drop_drop, Nat.succ_mul, Nat.add_comm]
    rw [List.length_cons, List.range_succ_eq_map, List.map_cons, List.map_map, Nat.zero_mul,
      List.drop_zero]
    refine congrArg (bytes.take size :: ·) (ih.trans (List.map_congr_left fun index _ => ?_))
    exact hrest index

theorem length_le_of_mem_windows {size : Nat} {bytes window : Bytes}
    (h : window ∈ windows size bytes) : window.length ≤ size := by
  fun_induction windows size bytes with
  | case1 bytes => cases h
  | case2 bytes _ ih =>
    rcases List.mem_cons.mp h with rfl | hrest
    · exact List.length_take_le size bytes
    · exact ih hrest

/-! ## Trailing zeros -/

/-- The length without trailing zeros is the least from which on there are zeros only. -/
theorem lengthWithoutZeros_le_iff {bytes : Bytes} {length : Nat} :
    bytes.lengthWithoutZeros ≤ length ↔ ∀ byte ∈ bytes.drop length, byte = 0 := by
  rw [lengthWithoutZeros]
  induction hreverse : bytes.reverse generalizing bytes with
  | nil =>
    have hnil : bytes = [] := List.reverse_eq_nil_iff.mp hreverse
    simp [hnil]
  | cons last rest ih =>
    have hbytes : bytes = rest.reverse ++ [last] := by
      rw [← List.reverse_reverse bytes, hreverse, List.reverse_cons]
    have hlength : bytes.length = rest.length + 1 := by simp [hbytes]
    by_cases hlast : last = 0
    · have hstep := ih (List.reverse_reverse rest)
      rw [List.dropWhile_cons_of_pos (by simp [hlast]), hstep, hbytes, List.drop_append]
      constructor
      · intro h byte hbyte
        rcases List.mem_append.mp hbyte with hbyte | hbyte
        · exact h byte hbyte
        · rw [List.mem_singleton.mp (List.mem_of_mem_drop hbyte), hlast]
      · intro h byte hbyte
        exact h byte (List.mem_append_left _ hbyte)
    · rw [List.dropWhile_cons_of_neg (by simp [hlast]), List.length_cons, ← hlength]
      constructor
      · intro h byte hbyte
        rw [List.drop_eq_nil_of_le h] at hbyte
        cases hbyte
      · intro h
        rcases Nat.lt_or_ge length bytes.length with hlt | hle
        · have hin : last ∈ bytes.drop length := by
            rw [hbytes, List.drop_append_of_le_length (by simp; omega)]
            simp
          exact absurd (h last hin) hlast
        · exact hle

/-! ## Texts -/

@[simp] theorem text?_ofText (text : String) : text? (ofText text) = some text := by
  have hbytes : (⟨(ofText text).toArray⟩ : ByteArray) = text.toUTF8 := by
    simp [ofText]
  rw [text?, hbytes, String.fromUTF8?]
  exact dif_pos text.isValidUTF8

end ShardVault.Bytes
