import ShardVault.Bytes.Hex
import ShardVault.Text.Decimal
import ShardVault.Digest.Sha256

/-!
Content digests.  A digest is 32 bytes and names the bytes it was computed from.  Its spelling is
64 lowercase hexadecimal digits; `parse` reads that spelling and no other.
-/

namespace ShardVault

/-- The digest of some content. -/
structure Digest where
  bytes : Vector UInt8 32
deriving DecidableEq, Repr

namespace Digest

/-- Digests are ordered by their bytes. -/
instance : Ord Digest where
  compare := compareOn Digest.bytes

instance : Std.TransOrd Digest :=
  inferInstanceAs (Std.TransCmp (compareOn Digest.bytes))

instance : Std.LawfulEqOrd Digest where
  compare_self {a} := Std.compare_self (a := a.bytes)
  eq_of_compare {a b} h := by
    have h : a.bytes = b.bytes := Std.LawfulEqOrd.eq_of_compare h
    cases a
    exact congrArg Digest.mk h

/-- The digest of a content. -/
def of (content : Bytes) : Digest :=
  ⟨Sha256.hash content⟩

/-- The spelling of a digest. -/
def hex (digest : Digest) : String :=
  Hex.text digest.bytes.toList

/-- Whether a content has this digest. -/
def verifies (digest : Digest) (content : Bytes) : Bool :=
  decide (of content = digest)

/-- The form in which a digest is shown to a developer. -/
def debugText (digest : Digest) : String :=
  "ContentHash(" ++ digest.hex ++ ")"

/-- Why a text is no spelling of a digest. -/
inductive SpellingError
  /-- The text has another length than 64 bytes. -/
  | length (bytes : Nat)
  /-- The text has the right length but holds something other than lowercase digits. -/
  | digits
deriving DecidableEq, Repr

/-- The wording of a spelling error. -/
def SpellingError.reason : SpellingError → String
  | .length bytes => "expected 64 hex digits, got " ++ Decimal.text bytes
  | .digits => "not lowercase hex"

/-- The digest that a text spells.  The length counts the bytes of the text. -/
def parse (text : String) : Except SpellingError Digest :=
  if text.utf8ByteSize ≠ 64 then .error (.length text.utf8ByteSize)
  else
    match Hex.decode? text.toList with
    | some bytes => if h : bytes.length = 32 then .ok ⟨⟨bytes.toArray, h⟩⟩ else .error .digits
    | none => .error .digits

end Digest

end ShardVault
