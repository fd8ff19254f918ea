import ShiftReduce.Json.Basic
import ShiftReduce.Text.Letter
/-!
# Data in JSON

How numbers, optional values, lists and records are written as JSON, and which values are read as
such. Reading is more liberal than writing where it can be without doubt: the members of a record
come in any order, with others among them, or the fields come bare in an array.
-/

namespace ShiftReduce.Json

/-! ## Writing -/

/-- A natural number in decimal. -/
def ofNat (n : Nat) : Json := .number (Nat.toDigits 10 n)

/-- A missing value is written as `null`. -/
def ofOption {α : Type} (write : α → Json) : Option α → Json
  | none => .null
  | some a => write a

/-- A list is written as an array. -/
def ofList {α : Type} (write : α → Json) (as : List α) : Json := .array (as.map write)

/-- A record is written as an object with its fields in order. -/
def record (fields : List (String × Json)) : Json :=
  .object (fields.map fun (name, value) => (name.toList, value))

/-! ## Reading -/

/-- The number that a row of digits writes. -/
def digitsValue (ds : List Char) : Nat := ds.foldl (fun n d => 10 * n + (d.toNat - 48)) 0

/-- A natural number below a bound. Signs, fractions and exponents are refused. -/
def nat? (bound : Nat) : Json → Option Nat
  | .number written =>
    if written.all Text.isAsciiDigit ∧ digitsValue written < bound then some (digitsValue written)
    else none
  | _ => none

/-- A value, or `null` for none. -/
def option? {α : Type} (read : Json → Option α) : Json → Option (Option α)
  | .null => some none
  | value => (read value).map some

/-- An array of values. -/
def list? {α : Type} (read : Json → Option α) : Json → Option (List α)
  | .array items => items.mapM read
  | _ => none

/-- The value of the one member of this name. -/
def single? (members : List (String × Json)) (name : String) : Option Json :=
  match members.filter fun m => m.1 == name with
  | [(_, value)] => some value
  | _ => none

/-- The fields of a record of these names, in the order of the names: each is a member of an object
exactly once, or they are the items of an array. -/
def fields? (names : List String) : Json → Option (List Json)
  | .array items => if items.length = names.length then some items else none
  | .object members =>
    match members.mapM fun m => (meaning? m.1).map fun key => (key, m.2) with
    | some members => names.mapM (single? members)
    | none => none
  | _ => none

end ShiftReduce.Json
