import ShardVault.Instant
import ShardVault.Text.Decimal

/-!
Instants as text.  An instant is written as date, `T`, time and `Z`, with as many fraction digits
as it needs out of none, three, six and nine.  Reading is lenient: fields may be short or have
blanks around them, the letters may be small, a blank may stand for the `T`, and the time may be
local, with its distance from universal time behind it.
-/

namespace ShardVault.Instant

/-- The characters that count as blank. -/
def isBlank (c : Char) : Bool :=
  let n := c.toNat
  (9 ≤ n && n ≤ 13) || n == 0x20 || n == 0x85 || n == 0xA0 || n == 0x1680 ||
    (0x2000 ≤ n && n ≤ 0x200A) || n == 0x2028 || n == 0x2029 || n == 0x202F || n == 0x205F ||
    n == 0x3000

/-- What is left after blanks. -/
def skipBlanks (cs : List Char) : List Char :=
  cs.dropWhile isBlank

/-- A number of at least one digit and at most `width`. -/
def number? (width : Nat) (cs : List Char) : Option (Nat × List Char) :=
  let run := (cs.take width).takeWhile Decimal.isDigit
  if run = [] then none else some (Decimal.value run, cs.drop run.length)

/-- A number of two digits at most, after blanks. -/
def field? (cs : List Char) : Option (Nat × List Char) :=
  number? 2 (skipBlanks cs)

/-- A year, after blanks: four digits at most, or any number of them after a sign. -/
def year? (cs : List Char) : Option (Int × List Char) :=
  match skipBlanks cs with
  | '-' :: rest => (number? rest.length rest).map fun (n, rest) => (-n, rest)
  | '+' :: rest => (number? rest.length rest).map fun (n, rest) => (n, rest)
  | rest => (number? 4 rest).map fun (n, rest) => (n, rest)

/-- What is left after blanks and then the character wanted. -/
def mark? (c : Char) (cs : List Char) : Option (List Char) :=
  match skipBlanks cs with
  | d :: rest => if c = d then some rest else none
  | [] => none

/-- What is left after the one character between date and time. -/
def divider? : List Char → Option (List Char)
  | 'T' :: rest => some rest
  | 't' :: rest => some rest
  | ' ' :: rest => some rest
  | _ => none

/-- The nanoseconds of a fraction of a second, if there is one.  Digits after the ninth are
    dropped. -/
def fraction? : List Char → Option (Nat × List Char)
  | '.' :: rest =>
    (number? 9 rest).map fun (n, after) =>
      (n * Nat.pow 10 (9 - (rest.length - after.length)), after.dropWhile Decimal.isDigit)
  | rest => some (0, rest)

/-- Hours and minutes of a distance from universal time, in minutes: two digits each, with colons
    and blanks between them as one likes.  A whole day is too far. -/
def distance? : List Char → Option (Nat × List Char)
  | a :: b :: rest =>
    if Decimal.isDigit a && Decimal.isDigit b then
      match rest.dropWhile (fun c => c == ':' || isBlank c) with
      | c :: d :: rest =>
        let minutes := Decimal.value [a, b] * 60 + Decimal.value [c, d]
        if Decimal.isDigit c && Decimal.isDigit d && Decimal.value [c, d] < 60 &&
            minutes < 1440 then
          some (minutes, rest)
        else none
      | _ => none
    else none
  | _ => none

/-- The minutes by which a time is ahead of universal time. -/
def zone? : List Char → Option (Int × List Char)
  | 'Z' :: rest => some (0, rest)
  | 'z' :: rest => some (0, rest)
  | '+' :: rest => (distance? rest).map fun (n, rest) => (n, rest)
  | '-' :: rest => (distance? rest).map fun (n, rest) => (-n, rest)
  | '\u2212' :: rest => (distance? rest).map fun (n, rest) => (-n, rest)
  | a :: b :: c :: rest =>
    if [a, b, c].map Char.toUpper = ['U', 'T', 'C'] then some (0, rest) else none
  | _ => none

/-- The instant that a text stands for. -/
def ofText? (text : String) : Option Instant := do
  let (year, rest) ← year? text.toList
  let rest ← mark? '-' rest
  let (month, rest) ← field? rest
  let rest ← mark? '-' rest
  let (day, rest) ← field? rest
  let rest ← divider? rest
  let (hour, rest) ← field? rest
  let rest ← mark? ':' rest
  let (minute, rest) ← field? rest
  let rest ← mark? ':' rest
  let (second, rest) ← field? rest
  let (nanosecond, rest) ← fraction? rest
  let (ahead, rest) ← zone? (skipBlanks rest)
  if skipBlanks rest = [] then ofLocal? year month day hour minute second nanosecond ahead
  else none

/-- A year: four digits, and a sign before them if they are not enough or the year is negative. -/
def yearText (year : Int) : List Char :=
  if year < 0 then '-' :: Decimal.padded 4 year.natAbs
  else if 9999 < year then '+' :: Decimal.padded 4 year.natAbs
  else Decimal.padded 4 year.natAbs

/-- A fraction of a second with the fewest digits out of none, three, six and nine. -/
def fractionText (nanosecond : Nat) : List Char :=
  if nanosecond = 0 then []
  else if nanosecond % 1000000 = 0 then '.' :: Decimal.padded 3 (nanosecond / 1000000)
  else if nanosecond % 1000 = 0 then '.' :: Decimal.padded 6 (nanosecond / 1000)
  else '.' :: Decimal.padded 9 nanosecond

/-- The text of an instant. -/
def text (t : Instant) : String :=
  String.ofList <|
    yearText t.year ++ '-' :: Decimal.padded 2 t.month ++ '-' :: Decimal.padded 2 t.day ++
      'T' :: Decimal.padded 2 t.hour ++ ':' :: Decimal.padded 2 t.minute ++
      ':' :: Decimal.padded 2 t.second ++ fractionText t.nanosecond ++ ['Z']

end ShardVault.Instant
