import ShardVault.Bytes

/-!
Lowercase hexadecimal.  Every byte is two digits, the high half first, and only the digits `0` to
`9` and `a` to `f` are read, so a byte string has exactly one spelling (`decode?_encode`).
-/

namespace ShardVault.Hex

/-- The digit of a number below sixteen. -/
def digit (value : Nat) : Char :=
  if value < 10 then Char.ofNat (48 + value) else Char.ofNat (87 + value)

/-- The value of a lowercase hexadecimal digit. -/
def value? (c : Char) : Option Nat :=
  if '0' ≤ c ∧ c ≤ '9' then some (c.toNat - 48)
  else if 'a' ≤ c ∧ c ≤ 'f' then some (c.toNat - 87)
  else none

/-- Two digits for every byte. -/
def encode : Bytes → List Char
  | [] => []
  | byte :: rest => digit (byte.toNat / 16) :: digit (byte.toNat % 16) :: encode rest

/-- The bytes that a run of digit pairs spells. -/
def decode? : List Char → Option Bytes
  | [] => some []
  | [_] => none
  | high :: low :: rest =>
    match value? high, value? low, decode? rest with
    | some h, some l, some bytes => some (UInt8.ofNat (h * 16 + l) :: bytes)
    | _, _, _ => none

theorem value?_digit {value : Nat} (h : value < 16) : value? (digit value) = some value := by
  have table : ∀ v ∈ List.range 16, value? (digit v) = some v := by decide
  exact table value (List.mem_range.mpr h)

@[simp] theorem decode?_encode (bytes : Bytes) : decode? (encode bytes) = some bytes := by
  induction bytes with
  | nil => rfl
  | cons byte rest ih =>
    have hbyte : byte.toNat < 256 := byte.toNat_lt
    simp only [encode, decode?,
      value?_digit (show byte.toNat / 16 < 16 by omega),
      value?_digit (show byte.toNat % 16 < 16 by omega), ih,
      show byte.toNat / 16 * 16 + byte.toNat % 16 = byte.toNat by omega,
      UInt8.ofNat_toNat]

@[simp] theorem length_encode (bytes : Bytes) : (encode bytes).length = 2 * bytes.length := by
  induction bytes with
  | nil => rfl
  | cons byte rest ih => simp only [encode, List.length_cons, ih]; omega

/-- The spelling of a byte string as a text. -/
def text (bytes : Bytes) : String :=
  String.ofList (encode bytes)

end ShardVault.Hex
