import Mathlib.LinearAlgebra.Matrix.NonsingularInverse
import Mathlib.LinearAlgebra.Vandermonde
import ShardVault.Proofs.Code.Shard

/-!
The code as a matrix.  Its rows are the powers of the points of the shards, times the inverse of
the first `k` of these rows.  Encoding multiplies by it (`generator_mulVec_dataShards`), and
decoding by the inverse of the `k` rows of the shards present
(`inverse_mulVec_eq_valueAt`), which any `k` rows have (`isUnit_det_generator`).
-/

namespace ShardVault.Scheme

open Matrix Polynomial

variable (s : Scheme)

/-- The powers of the points of all shards, from the power zero. -/
def powers : Matrix (Fin s.n) (Fin s.k) GF256 :=
  .of fun row exponent => GF256.ofIndex row ^ (exponent : Nat)

/-- The matrix that takes data shards to all shards. -/
noncomputable def generator : Matrix (Fin s.n) (Fin s.k) GF256 :=
  s.powers * (s.powers.submatrix (Fin.castLE s.k_le_n) id)⁻¹

/-! ## Invertible rows -/

variable {s} {rows : Fin s.k → Fin s.n}

theorem injective_points (h : Function.Injective rows) :
    Function.Injective fun index => GF256.ofIndex (rows index) := by
  intro left right hpoint
  have hleft : (rows left : Nat) < 256 := (rows left).isLt.trans_le s.n_le
  have hright : (rows right : Nat) < 256 := (rows right).isLt.trans_le s.n_le
  exact h (Fin.ext (GF256.ofIndex_injOn hleft hright hpoint))

theorem isUnit_det_powers (h : Function.Injective rows) :
    IsUnit (s.powers.submatrix rows id).det := by
  have hvandermonde : s.powers.submatrix rows id =
      vandermonde fun index => GF256.ofIndex (rows index) := rfl
  rw [isUnit_iff_ne_zero, hvandermonde, det_vandermonde_ne_zero_iff]
  exact injective_points h

theorem isUnit_det_top : IsUnit (s.powers.submatrix (Fin.castLE s.k_le_n) id).det :=
  isUnit_det_powers (Fin.castLE_injective s.k_le_n)

theorem submatrix_generator (rows : Fin s.k → Fin s.n) :
    s.generator.submatrix rows id =
      s.powers.submatrix rows id * (s.powers.submatrix (Fin.castLE s.k_le_n) id)⁻¹ :=
  submatrix_mul _ _ rows id id Function.bijective_id

/-- Any `k` rows of the matrix of the code have an inverse. -/
theorem isUnit_det_generator (h : Function.Injective rows) :
    IsUnit (s.generator.submatrix rows id).det := by
  rw [submatrix_generator, det_mul]
  exact (isUnit_det_powers h).mul (isUnit_nonsing_inv_det _ isUnit_det_top)

/-! ## Columns -/

variable {P : GF256[X]}

theorem powers_mulVec_coeff (hdegree : P.degree < s.k) :
    (s.powers *ᵥ fun exponent => P.coeff exponent) =
      fun row : Fin s.n => P.eval (GF256.ofIndex row) := by
  funext row
  have hsum := sum_fin (fun exponent c => c * GF256.ofIndex row ^ exponent)
    (fun _ => zero_mul _) hdegree
  rw [eval_eq_sum, ← hsum]
  simp only [mulVec, dotProduct, powers, of_apply, mul_comm]

/-- The matrix takes the values of a polynomial of low degree at the points of the data shards to
    its values at all points. -/
theorem generator_mulVec_eval (hdegree : P.degree < s.k) :
    (s.generator *ᵥ fun index : Fin s.k => P.eval (GF256.ofIndex index)) =
      fun row : Fin s.n => P.eval (GF256.ofIndex row) := by
  have htop : (s.powers.submatrix (Fin.castLE s.k_le_n) id *ᵥ fun exponent => P.coeff exponent) =
      fun index : Fin s.k => P.eval (GF256.ofIndex index) := by
    funext index
    exact congrFun (powers_mulVec_coeff hdegree) (Fin.castLE s.k_le_n index)
  rw [generator, ← htop, mulVec_mulVec, Matrix.mul_assoc, nonsing_inv_mul _ isUnit_det_top,
    Matrix.mul_one,
    powers_mulVec_coeff hdegree]

theorem byteAt_eq_eval_column {shards : List Bytes} (hcount : shards.length = s.k) (place : Nat) :
    (fun index : Fin s.k => byteAt (shards.getD index []) place) =
      fun index : Fin s.k => (column shards place).eval (GF256.ofIndex index) := by
  funext index
  have hget := List.getElem?_eq_getElem (index.isLt.trans_eq hcount.symm)
  rw [List.getD_eq_getElem?_getD, hget, Option.getD_some,
    eval_column (hcount.trans_le s.k_le_max) hget]

/-- All shards of a block, place by place, are the matrix times its data shards. -/
theorem generator_mulVec_dataShards (s : Scheme) (block : Bytes) {place : Nat}
    (hplace : place < block.length / s.k + 1) :
    (s.generator *ᵥ fun index : Fin s.k => byteAt ((s.dataShards block).getD index []) place) =
      fun row : Fin s.n => byteAt ((s.shardBytes block).getD row []) place := by
  have hcount := s.length_dataShards block
  have hmax : (s.dataShards block).length ≤ 256 := hcount.trans_le s.k_le_max
  have hdegree := degree_column_lt hmax place
  rw [hcount] at hdegree
  rw [byteAt_eq_eval_column hcount, generator_mulVec_eval hdegree]
  funext row
  have hrow : (row : Nat) < (s.shardBytes block).length := by
    rw [length_shardBytes]
    exact row.isLt
  have hget := List.getElem?_eq_getElem hrow
  rw [List.getD_eq_getElem?_getD, hget, Option.getD_some,
    s.byteAt_of_getElem?_shardBytes block hget hplace]

/-- The rows of the code times any `k` shards of one length are what their polynomials have at the
    points of the rows. -/
theorem generator_mulVec_eq_valueAt (s : Scheme) {shards : List Bytes} {size place : Nat}
    (hcount : shards.length = s.k) (hsize : ∀ shard ∈ shards, shard.length = size)
    (hplace : place < size) (row : Fin s.n) :
    (s.generator *ᵥ fun index : Fin s.k => byteAt (shards.getD index []) place) row =
      byteAt (Interpolation.valueAt size (located shards) (GF256.ofIndex row)) place := by
  have hmax : shards.length ≤ 256 := hcount.trans_le s.k_le_max
  have hdegree := degree_column_lt hmax place
  rw [byteAt_eq_eval_column hcount, generator_mulVec_eval (hcount ▸ hdegree)]
  symm
  apply Interpolation.byteAt_valueAt _ _ hplace
  · rw [located, List.length_map, List.length_zipIdx]
    exact hdegree
  · intro entry hentry
    obtain ⟨own, hown, hpoint⟩ := mem_located.mp hentry
    rw [← hpoint, eval_column hmax hown]
  · rw [points_located]
    exact nodup_map_ofIndex hmax
  · intro entry hentry
    obtain ⟨own, hown, -⟩ := mem_located.mp hentry
    exact hsize _ (List.mem_of_getElem? hown)

/-- What is decoded from any `k` shards is, place by place, the inverse of their rows times the
    shards, whether or not they are shards of a block. -/
theorem inverse_mulVec_eq_valueAt (h : Function.Injective rows) {shards : Fin s.k → Bytes}
    {length place : Nat} (hlength : ∀ index, (shards index).length = length)
    (hplace : place < length) :
    ((s.generator.submatrix rows id)⁻¹ *ᵥ fun index => byteAt (shards index) place) =
      fun index : Fin s.k => byteAt (Interpolation.valueAt length
        (List.ofFn fun own => (GF256.ofIndex (rows own), shards own)) (GF256.ofIndex index))
          place := by
  have hpoints : Set.InjOn (fun own : Fin s.k => GF256.ofIndex (rows own))
      (Finset.univ : Finset (Fin s.k)) := (injective_points h).injOn
  let P : GF256[X] := Lagrange.interpolate Finset.univ (fun own => GF256.ofIndex (rows own))
    fun own => byteAt (shards own) place
  have hdegree : P.degree < s.k := by
    have hinterpolate := Lagrange.degree_interpolate_lt
      (fun own => byteAt (shards own) place) hpoints
    rwa [Finset.card_univ, Fintype.card_fin] at hinterpolate
  have hnode (own : Fin s.k) : P.eval (GF256.ofIndex (rows own)) = byteAt (shards own) place :=
    Lagrange.eval_interpolate_at_node _ hpoints (Finset.mem_univ own)
  have hrows : (s.generator.submatrix rows id *ᵥ
      fun index : Fin s.k => P.eval (GF256.ofIndex index)) =
        fun index => byteAt (shards index) place := by
    funext index
    rw [← hnode index]
    exact congrFun (generator_mulVec_eval hdegree) (rows index)
  rw [← hrows, mulVec_mulVec, nonsing_inv_mul _ (isUnit_det_generator h), one_mulVec]
  funext index
  symm
  apply Interpolation.byteAt_valueAt _ _ hplace
  · rwa [List.length_ofFn]
  · intro entry hentry
    obtain ⟨own, rfl⟩ := List.mem_ofFn.mp hentry
    exact (hnode own).symm
  · rw [List.map_ofFn, List.nodup_ofFn]
    exact injective_points h
  · intro entry hentry
    obtain ⟨own, rfl⟩ := List.mem_ofFn.mp hentry
    exact hlength own

end ShardVault.Scheme
