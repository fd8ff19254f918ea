import ShiftReduce.Table.Json
/-!
# Records

A record is a table in a file. It consists of

* the four letters `LRAT`,
* the version of the format, 4 bytes,
* the time of writing in seconds, 8 bytes,
* the length of the payload, 8 bytes,
* the payload, which is the JSON text of the table,
* the hash of the payload, 32 bytes,

with the lowest byte of a number first. A file is accepted if all of it is as described and the
table has a row of the declared width for every state.
-/

namespace ShiftReduce

/-- A table and the time of its writing in seconds. -/
structure Record where
  writtenAt : Nat
  table : ActionTable
  deriving DecidableEq, Inhabited

/-- Why a file is no record, by the first thing that is wrong with it. -/
inductive RecordFault where
  | truncated
  | badMagic
  | unsupportedVersion
  | lengthMismatch
  | digestMismatch
  /-- The payload is not the JSON form of a table. -/
  | notATable
  /-- The parts of the table do not fit together. -/
  | inconsistent
  deriving DecidableEq, Inhabited

namespace Record

/-- The letters at the beginning. -/
def magic : Bytes := Bytes.ofText "LRAT"

/-- The version of the format. -/
def version : Nat := 1

/-- The bytes before the payload. -/
def headerLength : Nat := 24

/-- The bytes after the payload. -/
def digestLength : Nat := 32

/-- The bytes of a header. -/
def header (letters : Bytes) (version writtenAt length : Nat) : Bytes :=
  letters ++ Bytes.ofNat 4 version ++ Bytes.ofNat 8 writtenAt ++ Bytes.ofNat 8 length

/-- A header, a payload and the hash of the payload. -/
def enclose (header payload : Bytes) : Bytes :=
  header ++ payload ++ (Sha256.hash payload).toList

/-- The payload of a record: the JSON text of the table. -/
def payload (t : ActionTable) : Bytes := Bytes.ofChars t.jsonText

/-- The bytes of a record. -/
def encode (r : Record) : Bytes :=
  enclose (header magic version r.writtenAt (payload r.table).length) (payload r.table)

/-- The table that a payload writes. -/
def tableOfPayload (payload : Bytes) : Except RecordFault ActionTable :=
  match ActionTable.ofJsonText? (Bytes.toChars payload) with
  | none => .error .notATable
  | some table => if table.isWellFormed then .ok table else .error .inconsistent

/-- The number in some bytes of a file. -/
def number (b : Bytes) (start width : Nat) : Nat := Bytes.toNat ((b.drop start).take width)

/-- The payload of a file, by the length in its header. -/
def payloadOf (b : Bytes) : Bytes := (b.drop headerLength).take (number b 16 8)

/-- The bytes behind the payload of a file. -/
def digestOf (b : Bytes) : Bytes := b.drop (headerLength + number b 16 8)

/-- The record that the bytes of a file are. -/
def decode (b : Bytes) : Except RecordFault Record :=
  if b.length < headerLength + digestLength then .error .truncated
  else if b.take 4 ≠ magic then .error .badMagic
  else if number b 4 4 ≠ version then .error .unsupportedVersion
  else if b.length ≠ headerLength + digestLength + number b 16 8 then .error .lengthMismatch
  else if (Sha256.hash (payloadOf b)).toList ≠ digestOf b then .error .digestMismatch
  else (tableOfPayload (payloadOf b)).map fun table => ⟨number b 8 8, table⟩

end Record

end ShiftReduce
