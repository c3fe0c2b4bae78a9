import ShardVault.Bytes.Hex
import ShardVault.Json
import ShardVault.Text.Decimal

/-!
Writing JSON.  The text of a value is the same in every layout up to the white space between its
tokens.  In strings a quote, a backslash and control characters below the space are escaped, and
nothing else.
-/

namespace ShardVault.Json

/-- How documents are laid out: what stands before each item and each closing bracket at a depth,
    and what stands after a colon. -/
structure Layout where
  line : Nat → List Char
  gap : List Char

/-- No white space at all. -/
def Layout.compact : Layout :=
  ⟨fun _ => [], []⟩

/-- An item a line, two more spaces for every level, and a space after a colon. -/
def Layout.indented : Layout :=
  ⟨fun depth => '\n' :: List.replicate (2 * depth) ' ', [' ']⟩

/-- A character inside a string. -/
def writeChar (c : Char) : List Char :=
  if c = '"' then ['\\', '"']
  else if c = '\\' then ['\\', '\\']
  else if c = '\x08' then ['\\', 'b']
  else if c = '\t' then ['\\', 't']
  else if c = '\n' then ['\\', 'n']
  else if c = '\x0c' then ['\\', 'f']
  else if c = '\r' then ['\\', 'r']
  else if c.toNat < 0x20 then
    ['\\', 'u', '0', '0', Hex.digit (c.toNat / 16), Hex.digit (c.toNat % 16)]
  else [c]

/-- A string with its quotes.  Half of a surrogate pair stands for a string that is no text. -/
def writeText : JsonText → List Char
  | some text => '"' :: text.toList.flatMap writeChar ++ ['"']
  | none => ['"', '\\', 'u', 'd', '8', '0', '0', '"']

mutual

/-- A value at a depth. -/
def write (layout : Layout) (depth : Nat) : Json → List Char
  | .null => ['n', 'u', 'l', 'l']
  | .bool true => ['t', 'r', 'u', 'e']
  | .bool false => ['f', 'a', 'l', 's', 'e']
  | .natural value => Decimal.digits value
  | .otherNumber => ['-', '0']
  | .string text => writeText text
  | .array [] => ['[', ']']
  | .array (first :: more) =>
    '[' :: layout.line (depth + 1) ++ write layout (depth + 1) first ++
      writeItems layout depth more
  | .object [] => ['\x7b', '\x7d']
  | .object ((name, value) :: more) =>
    '\x7b' :: layout.line (depth + 1) ++ writeText name ++ ':' :: layout.gap ++
      write layout (depth + 1) value ++ writeMembers layout depth more

/-- The items of an array after its first, with the closing bracket. -/
def writeItems (layout : Layout) (depth : Nat) : List Json → List Char
  | [] => layout.line depth ++ [']']
  | item :: more =>
    ',' :: layout.line (depth + 1) ++ write layout (depth + 1) item ++
      writeItems layout depth more

/-- The members of an object after its first, with the closing brace. -/
def writeMembers (layout : Layout) (depth : Nat) : List (JsonText × Json) → List Char
  | [] => layout.line depth ++ ['\x7d']
  | (name, value) :: more =>
    ',' :: layout.line (depth + 1) ++ writeText name ++ ':' :: layout.gap ++
      write layout (depth + 1) value ++ writeMembers layout depth more

end

/-- The text of a value in a layout. -/
def render (layout : Layout) (value : Json) : String :=
  String.ofList (write layout 0 value)

end ShardVault.Json
