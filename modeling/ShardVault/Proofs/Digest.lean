import ShardVault.Digest

/-!
Spellings of digests.  Reading a text gives a digest exactly if the text is the digest's spelling,
so a digest has one spelling and different digests have different ones (`Digest.parse_eq_ok_iff`).
-/

namespace ShardVault

namespace Hex

theorem digit_of_value? {c : Char} {value : Nat} (h : value? c = some value) :
    digit value = c ∧ value < 16 := by
  have hchar : Char.ofNat c.toNat = c := Char.ofNat_toNat c
  rw [value?] at h
  split at h
  · rename_i hdigit
    obtain ⟨hlow, hhigh⟩ := hdigit
    have hlow : 48 ≤ c.toNat := hlow
    have hhigh : c.toNat ≤ 57 := hhigh
    have hvalue : c.toNat - 48 = value := Option.some.inj h
    refine ⟨?_, by omega⟩
    rw [digit, if_pos (by omega), ← hvalue, Nat.add_sub_cancel' hlow, hchar]
  · split at h
    · rename_i hletter
      obtain ⟨hlow, hhigh⟩ := hletter
      have hlow : 97 ≤ c.toNat := hlow
      have hhigh : c.toNat ≤ 102 := hhigh
      have hvalue : c.toNat - 87 = value := Option.some.inj h
      refine ⟨?_, by omega⟩
      rw [digit, if_neg (by omega), ← hvalue, Nat.add_sub_cancel' (by omega), hchar]
    · cases h

/-- Only the digits that `encode` writes are read. -/
theorem encode_of_decode? {cs : List Char} {bytes : Bytes} (h : decode? cs = some bytes) :
    encode bytes = cs := by
  fun_induction decode? cs generalizing bytes with
  | case1 =>
    cases h
    rfl
  | case2 => cases h
  | case3 high low rest high' low' more hmore hhigh hlow ih =>
    cases h
    obtain ⟨hhighDigit, hhighLt⟩ := digit_of_value? hhigh
    obtain ⟨hlowDigit, hlowLt⟩ := digit_of_value? hlow
    have hbyte : (UInt8.ofNat (high' * 16 + low')).toNat = high' * 16 + low' := by
      rw [UInt8.toNat_ofNat']
      omega
    rw [encode, hbyte, show (high' * 16 + low') / 16 = high' by omega,
      show (high' * 16 + low') % 16 = low' by omega, hhighDigit, hlowDigit, ih hmore]
  | case4 => cases h

theorem utf8Size_digit {value : Nat} (h : value < 16) : (digit value).utf8Size = 1 := by
  have table : ∀ v ∈ List.range 16, (digit v).utf8Size = 1 := by decide
  exact table value (List.mem_range.mpr h)

theorem utf8ByteSize_text (bytes : Bytes) : (text bytes).utf8ByteSize = 2 * bytes.length := by
  induction bytes with
  | nil => rfl
  | cons byte rest ih =>
    have hbyte : byte.toNat < 256 := byte.toNat_lt
    have hhigh : byte.toNat / 16 < 16 := by omega
    have hlow : byte.toNat % 16 < 16 := by omega
    rw [text] at ih ⊢
    rw [encode, String.ofList_cons, String.ofList_cons, String.utf8ByteSize_append,
      String.utf8ByteSize_append, String.utf8ByteSize_singleton, String.utf8ByteSize_singleton,
      utf8Size_digit hhigh, utf8Size_digit hlow, ih, List.length_cons]
    omega

/-- A spelling is made of digits. -/
theorem exists_digit_of_mem_encode {bytes : Bytes} {c : Char} (h : c ∈ encode bytes) :
    ∃ value < 16, c = digit value := by
  induction bytes with
  | nil => cases h
  | cons byte rest ih =>
    have hbyte : byte.toNat < 256 := byte.toNat_lt
    rw [encode, List.mem_cons, List.mem_cons] at h
    rcases h with rfl | rfl | hrest
    · exact ⟨_, by omega, rfl⟩
    · exact ⟨_, by omega, rfl⟩
    · exact ih hrest

end Hex

namespace Digest

@[simp] theorem utf8ByteSize_hex (digest : Digest) : digest.hex.utf8ByteSize = 64 := by
  rw [hex, Hex.utf8ByteSize_text, Vector.length_toList]

theorem not_mem_hex {c : Char} (h : ∀ value < 16, c ≠ Hex.digit value) (digest : Digest) :
    c ∉ digest.hex.toList := by
  intro hmem
  rw [hex, Hex.text, String.toList_ofList] at hmem
  obtain ⟨value, hvalue, hc⟩ := Hex.exists_digit_of_mem_encode hmem
  exact h value hvalue hc

@[simp] theorem parse_hex (digest : Digest) : parse digest.hex = .ok digest := by
  rw [parse, if_neg (fun h => h digest.utf8ByteSize_hex)]
  simp only [hex, Hex.text, String.toList_ofList, Hex.decode?_encode, Vector.length_toList]
  rfl

/-- A text is read as a digest exactly if it is the digest's spelling. -/
theorem parse_eq_ok_iff {text : String} {digest : Digest} :
    parse text = .ok digest ↔ text = digest.hex := by
  constructor
  · intro h
    rw [parse] at h
    split at h
    · cases h
    · split at h
      · rename_i bytes hdecode
        split at h
        · cases h
          rw [hex, Hex.text]
          have hspelling := Hex.encode_of_decode? hdecode
          rw [Vector.toList, List.toList_toArray, hspelling, String.ofList_toList]
        · cases h
      · cases h
  · rintro rfl
    exact parse_hex digest

theorem hex_injective : Function.Injective hex := by
  intro left right h
  have hleft := parse_hex left
  rw [h, parse_hex] at hleft
  exact (Except.ok.inj hleft).symm

@[simp] theorem hex_inj {left right : Digest} : left.hex = right.hex ↔ left = right :=
  ⟨fun h => hex_injective h, congrArg hex⟩

@[simp] theorem verifies_iff {digest : Digest} {content : Bytes} :
    digest.verifies content = true ↔ of content = digest := by
  rw [verifies, decide_eq_true_iff]

end Digest

end ShardVault
