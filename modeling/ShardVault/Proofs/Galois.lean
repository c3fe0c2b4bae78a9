import Mathlib.Algebra.CharP.Lemmas
import Mathlib.Algebra.CharP.Two
import Mathlib.Algebra.Field.Defs
import Mathlib.Tactic.Abel
import ShardVault.Galois

/-!
The bytes are a field.  Multiplication by a byte is a polynomial in doubling, and doubling is
additive, so all such multiplications commute with each other; with `one_mul` this gives the ring
laws without a table of products.  For inverses, the 256th power is additive and commutes with
doubling too, so it is the identity, and then the 255th power of any element is idempotent.
-/

namespace ShardVault.GF256

@[ext] theorem ext {x y : GF256} (h : x.byte = y.byte) : x = y := by
  cases x
  cases y
  simpa using h

@[simp] theorem byte_add (x y : GF256) : (x + y).byte = x.byte ^^^ y.byte := rfl

/-- What holds of the numbers below 256 holds of all elements. -/
theorem forall_of_lt {P : GF256 → Prop} (h : ∀ n < 256, P (ofIndex n)) (x : GF256) : P x := by
  have hx := h x.byte.toNat x.byte.toNat_lt
  rwa [ofIndex, UInt8.ofNat_toNat] at hx

theorem ofIndex_injOn {i j : Nat} (hi : i < 256) (hj : j < 256) (h : ofIndex i = ofIndex j) :
    i = j := by
  have hbyte : UInt8.ofNat i = UInt8.ofNat j := congrArg byte h
  have hnat := congrArg UInt8.toNat hbyte
  rw [UInt8.toNat_ofNat', UInt8.toNat_ofNat'] at hnat
  omega

/-! ## Addition -/

instance : Neg GF256 := ⟨fun x => x⟩

instance : AddCommGroup GF256 where
  add_assoc x y z := by ext1; exact UInt8.xor_assoc _ _ _
  zero_add x := by ext1; exact UInt8.zero_xor
  add_zero x := by ext1; exact UInt8.xor_zero
  add_comm x y := by ext1; exact UInt8.xor_comm _ _
  neg_add_cancel x := by ext1; exact UInt8.xor_self
  nsmul := nsmulRec
  zsmul := zsmulRec

private theorem and_xor (a b c : UInt8) : (a ^^^ b) &&& c = (a &&& c) ^^^ (b &&& c) := by
  rw [← UInt8.toBitVec_inj]
  apply BitVec.eq_of_getElem_eq
  intro i hi
  simp [Bool.and_xor_distrib_right]

private theorem and_top (b : UInt8) : b &&& 0x80 = 0 ∨ b &&& 0x80 = 0x80 := by
  have table : ∀ n < 256, UInt8.ofNat n &&& 0x80 = 0 ∨ UInt8.ofNat n &&& 0x80 = 0x80 := by
    decide +kernel
  simpa using table b.toNat b.toNat_lt

private theorem xor_xor_cancel (a b c : UInt8) : (a ^^^ c) ^^^ (b ^^^ c) = a ^^^ b := by
  rw [UInt8.xor_assoc, UInt8.xor_comm b c, ← UInt8.xor_assoc c, UInt8.xor_self, UInt8.zero_xor]

/-! ## Multiplication -/

theorem double_zero : (0 : GF256).double = 0 := rfl

theorem double_add (x y : GF256) : (x + y).double = x.double + y.double := by
  ext1
  rcases and_top x.byte with hx | hx <;> rcases and_top y.byte with hy | hy <;>
    simp only [double, byte_add, and_xor, UInt8.shiftLeft_xor, hx, hy]
  · simp
  · simp [UInt8.xor_assoc]
  · simp [UInt8.xor_assoc, UInt8.xor_comm 0x1D]
  · simp [xor_xor_cancel]

/-- A product is additive in its first operand, step by step. -/
theorem mulAdd_add (bits : Nat) (x y : GF256) (factor : UInt8) (s t : GF256) :
    mulAdd bits (x + y) factor (s + t) = mulAdd bits x factor s + mulAdd bits y factor t := by
  induction bits generalizing x y factor s t with
  | zero => rfl
  | succ bits ih =>
    simp only [mulAdd, double_add]
    rw [← ih]
    congr 1
    split
    · abel
    · rfl

theorem double_mulAdd (bits : Nat) (e : GF256) (factor : UInt8) (total : GF256) :
    (mulAdd bits e factor total).double = mulAdd bits e.double factor total.double := by
  induction bits generalizing e factor total with
  | zero => rfl
  | succ bits ih =>
    simp only [mulAdd, ih]
    congr 1
    split
    · exact double_add _ _
    · rfl

theorem mul_def (x y : GF256) : x * y = mulAdd 8 x y.byte 0 := rfl

private theorem add_mul_aux (x y z : GF256) : (x + y) * z = x * z + y * z := by
  rw [mul_def, mul_def, mul_def, ← mulAdd_add, add_zero]

private theorem zero_mul_aux (x : GF256) : 0 * x = 0 := by
  have h := add_mul_aux 0 0 x
  simpa using h

theorem double_mul (x y : GF256) : (x * y).double = x.double * y := by
  rw [mul_def, mul_def, double_mulAdd, double_zero]

theorem mulAdd_mul (bits : Nat) (e : GF256) (factor : UInt8) (total z : GF256) :
    mulAdd bits e factor total * z = mulAdd bits (e * z) factor (total * z) := by
  induction bits generalizing e factor total with
  | zero => rfl
  | succ bits ih =>
    simp only [mulAdd, ih, double_mul]
    congr 1
    split
    · exact add_mul_aux _ _ _
    · rfl

/-- Multiplications from the right commute with each other. -/
private theorem mul_mul_swap (x y z : GF256) : x * y * z = x * z * y := by
  rw [mul_def x y, mulAdd_mul, zero_mul_aux, ← mul_def]

private theorem one_mul_aux (x : GF256) : 1 * x = x := by
  revert x
  apply forall_of_lt
  decide +kernel

private theorem mul_comm_aux (x y : GF256) : x * y = y * x :=
  calc
    x * y = 1 * x * y := by rw [one_mul_aux]
    _ = 1 * y * x := mul_mul_swap 1 x y
    _ = y * x := by rw [one_mul_aux]

instance : CommRing GF256 where
  mul_assoc x y z :=
    calc
      x * y * z = y * x * z := by rw [mul_comm_aux x y]
      _ = y * z * x := mul_mul_swap y x z
      _ = x * (y * z) := mul_comm_aux _ _
  one_mul := one_mul_aux
  mul_one x := by rw [mul_comm_aux, one_mul_aux]
  zero_mul := zero_mul_aux
  mul_zero x := by rw [mul_comm_aux, zero_mul_aux]
  left_distrib x y z := by rw [mul_comm_aux, add_mul_aux, mul_comm_aux y, mul_comm_aux z]
  right_distrib := add_mul_aux
  mul_comm := mul_comm_aux
  zsmul := zsmulRec
  neg_add_cancel := neg_add_cancel

/-! ## Inverses -/

instance : CharP GF256 2 :=
  CharTwo.of_one_ne_zero_of_two_eq_zero (by decide) (by rw [← one_add_one_eq_two]; rfl)

theorem double_eq_mul (x : GF256) : x.double = double 1 * x := by
  rw [← double_mul, one_mul]

theorem double_pow_two_pow_eight (x : GF256) : x.double ^ 2 ^ 8 = (x ^ 2 ^ 8).double := by
  have hdouble : (double 1) ^ 2 ^ 8 = double 1 := by decide +kernel
  rw [double_eq_mul x, mul_pow, hdouble, ← double_eq_mul]

theorem mulAdd_pow_two_pow_eight (bits : Nat) (e : GF256) (factor : UInt8) (total : GF256) :
    mulAdd bits e factor total ^ 2 ^ 8 = mulAdd bits (e ^ 2 ^ 8) factor (total ^ 2 ^ 8) := by
  induction bits generalizing e factor total with
  | zero => rfl
  | succ bits ih =>
    simp only [mulAdd, ih, double_pow_two_pow_eight]
    congr 1
    split
    · exact add_pow_char_pow total e 2 8
    · rfl

/-- The powers of an element repeat after 255 of them. -/
theorem pow_two_pow_eight (x : GF256) : x ^ 2 ^ 8 = x := by
  have hpow : (1 * x) ^ 2 ^ 8 = 1 * x := by
    rw [mul_def, mulAdd_pow_two_pow_eight, one_pow, zero_pow (by norm_num)]
  rwa [one_mul] at hpow

theorem eq_zero_or_one_of_mul_self {x : GF256} : x * x = x → x = 0 ∨ x = 1 := by
  revert x
  apply forall_of_lt
  decide +kernel

theorem squarings_eq (count : Nat) (e total : GF256) :
    squarings count e total = total * e ^ (2 ^ (count + 1) - 2) := by
  induction count generalizing e total with
  | zero => simp [squarings]
  | succ count ih =>
    have hpow : 2 ≤ 2 ^ (count + 1) := by
      rw [pow_succ]
      exact Nat.le_mul_of_pos_left 2 (by positivity)
    have hexp : 2 + 2 * (2 ^ (count + 1) - 2) = 2 ^ (count + 1 + 1) - 2 := by
      rw [pow_succ 2 (count + 1)]
      omega
    rw [squarings, ih, ← pow_two, mul_assoc, ← pow_mul, ← pow_add, hexp]

theorem inverse_eq_pow (e : GF256) : e.inverse = e ^ 254 := by
  rw [inverse, squarings_eq, one_mul]
  rfl

theorem pow_255 {e : GF256} (h : e ≠ 0) : e ^ 255 = 1 := by
  have hself : e ^ 255 * e ^ 255 = e ^ 255 :=
    calc
      e ^ 255 * e ^ 255 = e ^ 2 ^ 8 * e ^ 254 := by rw [← pow_add, ← pow_add]; rfl
      _ = e * e ^ 254 := by rw [pow_two_pow_eight]
      _ = e ^ 255 := (pow_succ' e 254).symm
  rcases eq_zero_or_one_of_mul_self hself with hzero | hone
  · exact absurd (by rw [← pow_two_pow_eight e, show 2 ^ 8 = 255 + 1 from rfl, pow_succ, hzero,
      zero_mul]) h
  · exact hone

instance : Field GF256 where
  inv := inverse
  exists_pair_ne := ⟨0, 1, by decide⟩
  mul_inv_cancel e h := by
    change e * e.inverse = 1
    rw [inverse_eq_pow, ← pow_succ', pow_255 h]
  inv_zero := by
    change inverse 0 = 0
    rw [inverse_eq_pow, zero_pow (by norm_num)]
  nnqsmul := _
  nnqsmul_def := fun _ _ => rfl
  qsmul := _
  qsmul_def := fun _ _ => rfl

theorem inv_eq_inverse (e : GF256) : e⁻¹ = e.inverse := rfl

end ShardVault.GF256
