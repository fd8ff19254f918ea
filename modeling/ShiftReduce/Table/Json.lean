import ShiftReduce.Json.Field
import ShiftReduce.Json.Reader
import ShiftReduce.Table.Basic
/-!
# Action tables as JSON

The persistent form of a table is a JSON record of its fields. An action is written with its name;
one that carries a number is an object of one member.

Numbers of states, symbols and rules are below 2^32, the width of a table is below 2^64.
-/

namespace ShiftReduce

/-! ## Actions -/

/-- The JSON form of an action. -/
def Action.toJson : Action → Json
  | shift dest => .record [("Shift", .ofNat dest)]
  | reduce rule => .record [("Reduce", .ofNat rule)]
  | accept => .string "Accept".toList
  | fail => .string "Fail".toList

/-- The number of a state, a symbol or a rule. -/
def index? (j : Json) : Option Nat := j.nat? wordRange

/-- The action of a name and the value given with it. -/
def Action.ofMember? (name : String) (value : Json) : Option Action :=
  match name, value with
  | "Shift", value => (index? value).map shift
  | "Reduce", value => (index? value).map reduce
  | "Accept", .null => some accept
  | "Fail", .null => some fail
  | _, _ => none

/-- The action of a JSON value. An action without a number may also be written as an object whose
one member is `null`. -/
def Action.ofJson? : Json → Option Action
  | .string written =>
    match Json.meaning? written with
    | some "Accept" => some accept
    | some "Fail" => some fail
    | _ => none
  | .object [(key, value)] => (Json.meaning? key).bind fun name => Action.ofMember? name value
  | _ => none

/-! ## Conflicts -/

/-- The JSON form of a conflict. -/
def Conflict.toJson (c : Conflict) : Json :=
  .record [("state", .ofNat c.state), ("lookahead", .ofNat c.lookahead),
    ("existing", c.existing.toJson), ("incoming", c.incoming.toJson), ("chosen", c.chosen.toJson)]

/-- The conflict of a JSON value. -/
def Conflict.ofJson? (j : Json) : Option Conflict :=
  match j.fields? ["state", "lookahead", "existing", "incoming", "chosen"] with
  | some [state, lookahead, existing, incoming, chosen] => do
    return {
      state := ← index? state
      lookahead := ← index? lookahead
      existing := ← Action.ofJson? existing
      incoming := ← Action.ofJson? incoming
      chosen := ← Action.ofJson? chosen }
  | _ => none

/-! ## Fingerprints -/

/-- The JSON form of a fingerprint: its bytes. -/
def Fingerprint.toJson (f : Fingerprint) : Json := .ofList (fun b => .ofNat b.toNat) f.bytes

/-- The fingerprint of a JSON value. -/
def Fingerprint.ofJson? (j : Json) : Option Fingerprint :=
  (j.list? fun b => (b.nat? 256).map Nat.toUInt8).bind Fingerprint.ofBytes?

/-! ## Tables -/

namespace ActionTable

/-- The JSON form of a table. -/
def toJson (t : ActionTable) : Json :=
  .record [
    ("fingerprint", t.fingerprint.toJson),
    ("num_symbols", .ofNat t.width),
    ("actions", .ofList (.ofList (.ofOption Action.toJson)) t.actions),
    ("gotos", .ofList (.ofList (.ofOption .ofNat)) t.gotos),
    ("expected", .ofList (.ofList .ofNat) t.expected),
    ("conflicts", .ofList Conflict.toJson t.conflicts)]

/-- The table of a JSON value. -/
def ofJson? (j : Json) : Option ActionTable :=
  match j.fields? ["fingerprint", "num_symbols", "actions", "gotos", "expected", "conflicts"] with
  | some [fingerprint, width, actions, gotos, expected, conflicts] => do
    return {
      fingerprint := ← Fingerprint.ofJson? fingerprint
      width := ← width.nat? 0x10000000000000000
      actions := ← actions.list? (Json.list? (Json.option? Action.ofJson?))
      gotos := ← gotos.list? (Json.list? (Json.option? index?))
      expected := ← expected.list? (Json.list? index?)
      conflicts := ← conflicts.list? Conflict.ofJson? }
  | _ => none

/-- The text of the JSON form of a table. -/
def jsonText (t : ActionTable) : List Char := t.toJson.text

/-- The table whose JSON form the text writes. -/
def ofJsonText? (s : List Char) : Option ActionTable := (Json.read? s).bind ofJson?

end ActionTable

end ShiftReduce
