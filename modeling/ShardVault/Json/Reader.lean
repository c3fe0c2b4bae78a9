import ShardVault.Json
import ShardVault.Text.Decimal

/-!
Reading JSON.  The grammar is the strict one: no comments, no trailing commas, no leading zeros, no
raw control characters in strings, and nothing but white space around the one value.  Each function
takes a prefix of its input and returns what is left.
-/

namespace ShardVault.Json

/-- A piece of a string: a character, or the code unit of an escape. -/
inductive Piece
  | char (c : Char)
  | unit (code : Nat)
deriving DecidableEq, Repr

/-- The value of a hexadecimal digit of either case. -/
def hexValue? (c : Char) : Option Nat :=
  if '0' ≤ c ∧ c ≤ '9' then some (c.toNat - 48)
  else if 'a' ≤ c ∧ c ≤ 'f' then some (c.toNat - 87)
  else if 'A' ≤ c ∧ c ≤ 'F' then some (c.toNat - 55)
  else none

/-- The code unit that four hexadecimal digits spell. -/
def unit? (a b c d : Char) : Option Nat := do
  return (((← hexValue? a) * 16 + (← hexValue? b)) * 16 + (← hexValue? c)) * 16 + (← hexValue? d)

/-- The character of an escape of one letter. -/
def escape? : Char → Option Char
  | '"' => some '"'
  | '\\' => some '\\'
  | '/' => some '/'
  | 'b' => some '\x08'
  | 'f' => some '\x0c'
  | 'n' => some '\n'
  | 'r' => some '\r'
  | 't' => some '\t'
  | _ => none

/-- The pieces of a string whose opening quote has been read, up to its closing quote. -/
def pieces : List Char → Option (List Piece × List Char)
  | [] => none
  | '"' :: rest => some ([], rest)
  | '\\' :: 'u' :: a :: b :: c :: d :: rest =>
    match unit? a b c d, pieces rest with
    | some code, some (more, rest) => some (.unit code :: more, rest)
    | _, _ => none
  | '\\' :: e :: rest =>
    match escape? e, pieces rest with
    | some c, some (more, rest) => some (.char c :: more, rest)
    | _, _ => none
  | c :: rest =>
    if c.toNat < 0x20 then none
    else
      match pieces rest with
      | some (more, rest) => some (.char c :: more, rest)
      | none => none

/-- The code units that open a surrogate pair. -/
def isHighSurrogate (code : Nat) : Bool :=
  decide (0xD800 ≤ code ∧ code ≤ 0xDBFF)

/-- The code units that close a surrogate pair. -/
def isLowSurrogate (code : Nat) : Bool :=
  decide (0xDC00 ≤ code ∧ code ≤ 0xDFFF)

/-- The characters of a string: two escapes in a row that are a surrogate pair are one character,
    and half of a pair is none. -/
def joined : List Piece → Option (List Char)
  | [] => some []
  | .char c :: rest => (joined rest).map (c :: ·)
  | .unit high :: .unit low :: rest =>
    if isHighSurrogate high then
      if isLowSurrogate low then
        (joined rest).map (Char.ofNat (0x10000 + (high - 0xD800) * 0x400 + (low - 0xDC00)) :: ·)
      else none
    else if isLowSurrogate high then none
    else (joined (.unit low :: rest)).map (Char.ofNat high :: ·)
  | .unit code :: rest =>
    if isHighSurrogate code || isLowSurrogate code then none
    else (joined rest).map (Char.ofNat code :: ·)

/-- A string whose opening quote has been read. -/
def readText (cs : List Char) : Option (JsonText × List Char) :=
  (pieces cs).map fun (body, rest) => ((joined body).map String.ofList, rest)

/-- A run of digits, at least one. -/
def digitRun (cs : List Char) : Option (List Char × List Char) :=
  match cs.span Decimal.isDigit with
  | ([], _) => none
  | (run, rest) => some (run, rest)

/-- A whole number without a leading zero. -/
def wholeNumber (cs : List Char) : Option (Nat × List Char) :=
  match digitRun cs with
  | some (run, rest) =>
    if run.head? = some '0' ∧ run.length ≠ 1 then none else some (Decimal.value run, rest)
  | none => none

/-- What is left after a fraction, if there is one, and whether there is. -/
def fraction : List Char → Option (Bool × List Char)
  | '.' :: rest => (digitRun rest).map fun (_, rest) => (true, rest)
  | rest => some (false, rest)

/-- What is left after the sign of an exponent, if there is one. -/
def skipSign : List Char → List Char
  | '+' :: rest => rest
  | '-' :: rest => rest
  | rest => rest

/-- What is left after an exponent, if there is one, and whether there is. -/
def exponent : List Char → Option (Bool × List Char)
  | 'e' :: rest => (digitRun (skipSign rest)).map fun (_, rest) => (true, rest)
  | 'E' :: rest => (digitRun (skipSign rest)).map fun (_, rest) => (true, rest)
  | rest => some (false, rest)

/-- A number without its sign; `exact` tells whether there was none. -/
def readUnsigned (exact : Bool) (cs : List Char) : Option (Json × List Char) := do
  let (whole, rest) ← wholeNumber cs
  let (hasFraction, rest) ← fraction rest
  let (hasExponent, rest) ← exponent rest
  return (if exact && !hasFraction && !hasExponent then .natural whole else .otherNumber, rest)

/-- A number. -/
def readNumber : List Char → Option (Json × List Char)
  | '-' :: rest => readUnsigned false rest
  | rest => readUnsigned true rest

mutual

/-- A value, after white space.  The first argument bounds the nesting and the number of items. -/
def readValue : Nat → List Char → Option (Json × List Char)
  | 0, _ => none
  | fuel + 1, cs =>
    match skipSpace cs with
    | 'n' :: 'u' :: 'l' :: 'l' :: rest => some (.null, rest)
    | 't' :: 'r' :: 'u' :: 'e' :: rest => some (.bool true, rest)
    | 'f' :: 'a' :: 'l' :: 's' :: 'e' :: rest => some (.bool false, rest)
    | '"' :: rest =>
      match readText rest with
      | some (text, rest) => some (.string text, rest)
      | none => none
    | '[' :: rest =>
      match skipSpace rest with
      | ']' :: rest => some (.array [], rest)
      | rest =>
        match readValue fuel rest with
        | some (first, rest) =>
          match readItems fuel rest with
          | some (more, rest) => some (.array (first :: more), rest)
          | none => none
        | none => none
    | '\x7b' :: rest =>
      match skipSpace rest with
      | '\x7d' :: rest => some (.object [], rest)
      | rest =>
        match readMember fuel rest with
        | some (first, rest) =>
          match readMembers fuel rest with
          | some (more, rest) => some (.object (first :: more), rest)
          | none => none
        | none => none
    | rest => readNumber rest

/-- The items of an array after its first, with the closing bracket. -/
def readItems : Nat → List Char → Option (List Json × List Char)
  | 0, _ => none
  | fuel + 1, cs =>
    match skipSpace cs with
    | ']' :: rest => some ([], rest)
    | ',' :: rest =>
      match readValue fuel rest with
      | some (item, rest) =>
        match readItems fuel rest with
        | some (more, rest) => some (item :: more, rest)
        | none => none
      | none => none
    | _ => none

/-- A member of an object: a string, a colon and a value. -/
def readMember : Nat → List Char → Option ((JsonText × Json) × List Char)
  | 0, _ => none
  | fuel + 1, cs =>
    match skipSpace cs with
    | '"' :: rest =>
      match readText rest with
      | some (name, rest) =>
        match skipSpace rest with
        | ':' :: rest =>
          match readValue fuel rest with
          | some (value, rest) => some ((name, value), rest)
          | none => none
        | _ => none
      | none => none
    | _ => none

/-- The members of an object after its first, with the closing brace. -/
def readMembers : Nat → List Char → Option (List (JsonText × Json) × List Char)
  | 0, _ => none
  | fuel + 1, cs =>
    match skipSpace cs with
    | '\x7d' :: rest => some ([], rest)
    | ',' :: rest =>
      match readMember fuel rest with
      | some (member, rest) =>
        match readMembers fuel rest with
        | some (more, rest) => some (member :: more, rest)
        | none => none
      | none => none
    | _ => none

end

/-- The value that a document holds.  Every step of the reading takes a character at least, so the
    length of the document bounds it. -/
def parse (document : String) : Option Json :=
  let cs := document.toList
  match readValue (2 * cs.length + 1) cs with
  | some (value, rest) => if skipSpace rest = [] then some value else none
  | none => none

end ShardVault.Json
