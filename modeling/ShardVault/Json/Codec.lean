import ShardVault.Bytes
import ShardVault.Json

/-!
Types with a JSON form.  A record is written as an object with its fields in a fixed order.  It is
read from an object with its fields in any order and any members besides, or from the array of its
fields; a field given twice, or absent, is refused.  A choice is written as its name, or as an
object with that one member if it carries something.
-/

namespace ShardVault.Json

/-- A type whose values have a JSON form. -/
class Codec (α : Type) where
  encode : α → Json
  decode? : Json → Option α

export Codec (encode decode?)

/-- The numbers that records hold are below this bound. -/
def numberBound : Nat := UInt64.size

instance : Codec Nat where
  encode n := .natural n
  decode?
    | .natural n => if n < numberBound then some n else none
    | _ => none

instance : Codec UInt8 where
  encode byte := .natural byte.toNat
  decode?
    | .natural n => if n < 256 then some (UInt8.ofNat n) else none
    | _ => none

instance : Codec Bool where
  encode value := .bool value
  decode?
    | .bool value => some value
    | _ => none

instance : Codec String where
  encode text := .string (some text)
  decode?
    | .string text => text
    | _ => none

instance {α : Type} [Codec α] : Codec (List α) where
  encode items := .array (items.map encode)
  decode?
    | .array items => items.mapM decode?
    | _ => none

instance {α : Type} [Codec α] : Codec (Option α) where
  encode
    | some value => encode value
    | none => .null
  decode?
    | .null => some none
    | value => (decode? value).map some

/-- The object with these members. -/
def record (members : List (String × Json)) : Json :=
  .object (members.map fun (name, value) => (some name, value))

/-- The member of this name: `some none` if there is none, and `none` if there are several. -/
def member? (members : List (JsonText × Json)) (name : String) : Option (Option Json) :=
  match members.filter (fun m => m.1 = some name) with
  | [] => some none
  | [m] => some (some m.2)
  | _ => none

/-- The fields of an object: none if a name is no text, or if a field is given twice. -/
def objectFields? (names : List String) (members : List (JsonText × Json)) :
    Option (List (Option Json)) :=
  if members.all (·.1.isSome) then names.mapM (member? members) else none

/-- The fields of a record, in the order of their names, absent ones as `none`.  An array has to
    hold them all. -/
def fields? (names : List String) : Json → Option (List (Option Json))
  | .object members => objectFields? names members
  | .array items => if items.length = names.length then some (items.map some) else none
  | _ => none

/-- The fields of a record whose fields have defaults.  An array may leave out the last ones. -/
def optionalFields? (names : List String) : Json → Option (List (Option Json))
  | .object members => objectFields? names members
  | .array items =>
    if items.length ≤ names.length then
      some (items.map some ++ List.replicate (names.length - items.length) none)
    else none
  | _ => none

/-- A field that has to be present. -/
def required {α : Type} [Codec α] (field : Option Json) : Option α :=
  field.bind decode?

/-- A field that keeps a default if it is absent. -/
def defaulting {α : Type} [Codec α] (value : α) : Option Json → Option α
  | some field => decode? field
  | none => some value

/-- The name of a choice and what it carries. -/
def choice? : Json → Option (String × Option Json)
  | .string (some name) => some (name, none)
  | .object [(some name, value)] => some (name, some value)
  | _ => none

/-- Whether a choice carries nothing: only its name, or a null beside it. -/
def isBare : Option Json → Bool
  | none => true
  | some .null => true
  | some _ => false

end ShardVault.Json
