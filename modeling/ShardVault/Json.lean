/-!
JSON values, as far as the records of this library need them.  Numbers without sign, fraction and
exponent keep their value; no record holds another number, so of those only the presence is kept.
A string is a text, unless it holds half of a surrogate pair and so is none.
-/

namespace ShardVault

/-- A string of a document: `none` if an escape in it is half of a surrogate pair. -/
abbrev JsonText := Option String

/-- A JSON value. -/
inductive Json
  | null
  | bool (value : Bool)
  | natural (value : Nat)
  /-- A number with a sign, a fraction or an exponent. -/
  | otherNumber
  | string (text : JsonText)
  | array (items : List Json)
  | object (members : List (JsonText × Json))

namespace Json

/-- The white space between tokens. -/
def isSpace (c : Char) : Bool :=
  c == ' ' || c == '\t' || c == '\n' || c == '\r'

/-- What is left after white space. -/
def skipSpace (cs : List Char) : List Char :=
  cs.dropWhile isSpace

end Json

end ShardVault
