/-!
The field of 256 elements.  An element is a byte, read as a polynomial of degree below eight over
the bits, and arithmetic is modulo `x^8 + x^4 + x^3 + x^2 + 1`.  Sums are exclusive or; products
are formed by doubling, so that they are additive in both operands by construction.
-/

namespace ShardVault

/-- An element of the field of 256 elements; bit `i` is the coefficient of `x^i`. -/
structure GF256 where
  byte : UInt8
deriving DecidableEq, Repr, Inhabited

namespace GF256

instance : Zero GF256 := ⟨⟨0⟩⟩

instance : One GF256 := ⟨⟨1⟩⟩

instance : Add GF256 := ⟨fun x y => ⟨x.byte ^^^ y.byte⟩⟩

/-- The element times `x`. -/
def double (e : GF256) : GF256 :=
  if e.byte &&& 0x80 = 0 then ⟨e.byte <<< 1⟩ else ⟨(e.byte <<< 1) ^^^ 0x1D⟩

/-- The sum of `total` and `e` times the polynomial of the lowest bits of `factor`. -/
def mulAdd : Nat → GF256 → UInt8 → GF256 → GF256
  | 0, _, _, total => total
  | bits + 1, e, factor, total =>
    mulAdd bits e.double (factor >>> 1) (if factor &&& 1 = 1 then total + e else total)

instance : Mul GF256 := ⟨fun x y => mulAdd 8 x y.byte 0⟩

/-- The product of `total` and the first `count` proper squarings of `e`. -/
def squarings : Nat → GF256 → GF256 → GF256
  | 0, _, total => total
  | count + 1, e, total => squarings count (e * e) (total * (e * e))

/-- The inverse: the 254th power, which is the product of the second, fourth, ... 128th.  The
    inverse of zero is zero. -/
def inverse (e : GF256) : GF256 :=
  squarings 7 e 1

/-- The element whose byte is a number below 256. -/
def ofIndex (index : Nat) : GF256 :=
  ⟨UInt8.ofNat index⟩

end GF256

end ShardVault
