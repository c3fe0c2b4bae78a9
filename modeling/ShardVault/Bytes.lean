/-!
Byte strings.  A byte string is the list of its bytes, so that lengths, prefixes and
concatenation are those of `List`.  `windows` cuts a byte string into consecutive runs of one size;
it is how messages are cut into blocks, contents into stripes and blocks into shards.
-/

namespace ShardVault

/-- A byte string, first byte first. -/
abbrev Bytes := List UInt8

namespace Bytes

/-- The consecutive runs of `size` bytes, in order; the last one may be shorter, and none is
    empty.  A size of zero has no runs. -/
def windows (size : Nat) (bytes : Bytes) : List Bytes :=
  if bytes = [] ∨ size = 0 then []
  else bytes.take size :: windows size (bytes.drop size)
termination_by bytes.length
decreasing_by
  have : bytes.length ≠ 0 := by simp_all
  simp only [List.length_drop]
  omega

theorem windows_nil (size : Nat) : windows size [] = [] := by
  simp [windows]

theorem windows_of_ne_nil {size : Nat} {bytes : Bytes} (hsize : size ≠ 0) (hbytes : bytes ≠ []) :
    windows size bytes = bytes.take size :: windows size (bytes.drop size) := by
  rw [windows]
  simp [hsize, hbytes]

/-- Cutting loses nothing. -/
theorem flatten_windows {size : Nat} (hsize : size ≠ 0) (bytes : Bytes) :
    (windows size bytes).flatten = bytes := by
  fun_induction windows size bytes with
  | case1 bytes h => simp_all
  | case2 bytes _ ih => simp [ih]

/-- The most bytes that a byte string can be asked to have. -/
def maxSize : Nat := UInt64.size / 2 - 1

/-- The UTF-8 encoding of a text. -/
def ofText (text : String) : Bytes :=
  text.toUTF8.data.toList

/-- The text that a byte string encodes, if the byte string is valid UTF-8. -/
def text? (bytes : Bytes) : Option String :=
  String.fromUTF8? ⟨bytes.toArray⟩

/-- The byte string without its trailing zero bytes has this length. -/
def lengthWithoutZeros (bytes : Bytes) : Nat :=
  (bytes.reverse.dropWhile (· == 0)).length

end Bytes

end ShardVault
