import Mathlib.LinearAlgebra.Lagrange
import ShardVault.Code.Interpolation
import ShardVault.Proofs.Galois

/-!
Shards are values of polynomials.  Byte `j` of the shard that `valueAt` gives at a point is the
value there of any polynomial of low degree that has the known bytes `j` at the known points
(`byteAt_valueAt`), so the known shards determine the shards at all other points.
-/

namespace ShardVault

/-- A byte of a shard as an element of the field; zero past the end of the shard. -/
def byteAt (shard : Bytes) (place : Nat) : GF256 :=
  ⟨shard.getD place 0⟩

theorem byteAt_eq_getElem {shard : Bytes} {place : Nat} (h : place < shard.length) :
    byteAt shard place = ⟨shard[place]⟩ := by
  rw [byteAt, List.getD_eq_getElem?_getD, List.getElem?_eq_getElem h, Option.getD_some]

/-- Shards of one length are equal if their bytes are. -/
theorem eq_of_byteAt {left right : Bytes} (hlength : left.length = right.length)
    (h : ∀ place < left.length, byteAt left place = byteAt right place) : left = right := by
  apply List.ext_getElem hlength
  intro place hleft hright
  have hbyte := h place hleft
  rw [byteAt_eq_getElem hleft, byteAt_eq_getElem hright] at hbyte
  exact congrArg GF256.byte hbyte

namespace Interpolation

open Polynomial

/-! ## Coefficients -/

theorem gap_eq_prod (points : List GF256) (own x : GF256) :
    gap points own x = ((points.filter (· ≠ own)).map fun p => x - p).prod := by
  induction points with
  | nil => rfl
  | cons p rest ih =>
    by_cases h : p = own
    · simp [gap, h, ih]
    · simp [gap, h, ih, CharTwo.sub_eq_add]

theorem gap_eq_finset_prod {points : List GF256} (hnodup : points.Nodup) (own x : GF256) :
    gap points own x = ∏ p ∈ points.toFinset.erase own, (x - p) := by
  have hfilter : (points.filter (· ≠ own)).toFinset = points.toFinset.erase own := by
    ext p
    simp [and_comm]
  rw [gap_eq_prod, ← hfilter, List.prod_toFinset _ (hnodup.filter _)]

/-- The coefficient of a known shard is the value of the polynomial that is one at its point and
    zero at the other points. -/
theorem coefficient_eq_eval_basis {points : List GF256} (hnodup : points.Nodup) (own x : GF256) :
    coefficient points own x = (Lagrange.basis points.toFinset id own).eval x := by
  have hbasis : (Lagrange.basis points.toFinset id own).eval x =
      ∏ p ∈ points.toFinset.erase own, (own - p)⁻¹ * (x - p) := by
    rw [Lagrange.basis, eval_prod]
    simp [Lagrange.basisDivisor]
  rw [hbasis, Finset.prod_mul_distrib, Finset.prod_inv_distrib, coefficient,
    gap_eq_finset_prod hnodup, gap_eq_finset_prod hnodup, ← GF256.inv_eq_inverse, mul_comm]

/-! ## Combinations -/

theorem length_combine {length : Nat} {terms : List (GF256 × Bytes)}
    (hlength : ∀ term ∈ terms, term.2.length = length) :
    (combine length terms).length = length := by
  induction terms with
  | nil => exact List.length_replicate
  | cons term rest ih =>
    have hrest := ih fun other hother => hlength other (List.mem_cons_of_mem _ hother)
    rw [combine, List.length_zipWith, hlength term List.mem_cons_self, hrest, Nat.min_self]

theorem byteAt_combine {length place : Nat} {terms : List (GF256 × Bytes)}
    (hlength : ∀ term ∈ terms, term.2.length = length) (hplace : place < length) :
    byteAt (combine length terms) place =
      (terms.map fun term => term.1 * byteAt term.2 place).sum := by
  induction terms with
  | nil =>
    rw [byteAt_eq_getElem (by rwa [length_combine hlength])]
    simp only [combine, List.getElem_replicate]
    rfl
  | cons term rest ih =>
    have hterm := hlength term List.mem_cons_self
    have hall : ∀ other ∈ rest, other.2.length = length :=
      fun other hother => hlength other (List.mem_cons_of_mem _ hother)
    have hrest := length_combine hall
    have hcons : place < (combine length (term :: rest)).length := by
      rwa [length_combine hlength]
    rw [List.map_cons, List.sum_cons, ← ih hall, byteAt_eq_getElem hcons,
      byteAt_eq_getElem (hterm ▸ hplace), byteAt_eq_getElem (hrest.symm ▸ hplace)]
    simp only [combine, List.getElem_zipWith]

theorem length_valueAt {length : Nat} {known : List (GF256 × Bytes)}
    (hlength : ∀ shard ∈ known, shard.2.length = length) (x : GF256) :
    (valueAt length known x).length = length := by
  apply length_combine
  intro term hterm
  obtain ⟨shard, hshard, rfl⟩ := List.mem_map.mp hterm
  exact hlength shard hshard

/-- The known shards determine the others: a polynomial of lower degree than there are known shards
    that has their bytes at their points has the bytes of `valueAt` everywhere. -/
theorem byteAt_valueAt {length place : Nat} {known : List (GF256 × Bytes)}
    (hnodup : (known.map Prod.fst).Nodup) (hlength : ∀ shard ∈ known, shard.2.length = length)
    (hplace : place < length) {P : GF256[X]} (hdegree : P.degree < known.length)
    (hvalues : ∀ shard ∈ known, byteAt shard.2 place = P.eval shard.1) (x : GF256) :
    byteAt (valueAt length known x) place = P.eval x := by
  have hterms : ∀ term ∈ known.map (fun shard =>
      (coefficient (known.map Prod.fst) shard.1 x, shard.2)), term.2.length = length := by
    intro term hterm
    obtain ⟨shard, hshard, rfl⟩ := List.mem_map.mp hterm
    exact hlength shard hshard
  have hcard : (known.map Prod.fst).toFinset.card = known.length := by
    rw [List.toFinset_card_of_nodup hnodup, List.length_map]
  have hinterpolate := Lagrange.eq_interpolate (s := (known.map Prod.fst).toFinset) (v := id)
    Function.injective_id.injOn (hcard ▸ hdegree)
  calc
    byteAt (valueAt length known x) place
      = (known.map fun shard =>
          coefficient (known.map Prod.fst) shard.1 x * byteAt shard.2 place).sum := by
        rw [valueAt, byteAt_combine hterms hplace, List.map_map]
        rfl
    _ = ((known.map Prod.fst).map fun p =>
          P.eval p * (Lagrange.basis (known.map Prod.fst).toFinset id p).eval x).sum := by
        rw [List.map_map]
        congr 1
        apply List.map_congr_left
        intro shard hshard
        rw [Function.comp_apply, hvalues shard hshard, coefficient_eq_eval_basis hnodup, mul_comm]
    _ = ∑ p ∈ (known.map Prod.fst).toFinset,
          P.eval p * (Lagrange.basis (known.map Prod.fst).toFinset id p).eval x :=
        (List.sum_toFinset _ hnodup).symm
    _ = P.eval x := by
        conv_rhs => rw [hinterpolate, Lagrange.interpolate_apply, eval_finsetSum]
        simp

end Interpolation

end ShardVault
