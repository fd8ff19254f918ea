import ShiftReduce.Cache.Record
import ShiftReduce.Proofs.Table.Json
/-!
# Records are read back

The bytes of a record either are refused, because a number of the table is out of range, or are read
as a record of the same table. A record whose numbers fit is not refused, and none that has a row of
the declared width for every state is refused as inconsistent.

Main statements: `Record.table_of_decode_encode` and `Record.decode_encode_of_fits`.
-/

namespace ShiftReduce.Record

variable {b payload : Bytes} {r r' : Record} {writtenAt : Nat}

/-! ## What a record is made of -/

/-- The bytes of a record with this payload. -/
def framed (writtenAt : Nat) (payload : Bytes) : Bytes :=
  enclose (header magic version writtenAt payload.length) payload

lemma encode_eq_framed (r : Record) : r.encode = framed r.writtenAt (Record.payload r.table) := rfl

/-- Its parts, one after the other. -/
lemma framed_eq (writtenAt : Nat) (payload : Bytes) : framed writtenAt payload =
    magic ++ (Bytes.ofNat 4 version ++ (Bytes.ofNat 8 writtenAt ++
      (Bytes.ofNat 8 payload.length ++ (payload ++ (Sha256.hash payload).toList)))) := by
  simp only [framed, enclose, header, List.append_assoc]

lemma length_header (writtenAt length : Nat) :
    (header magic version writtenAt length).length = headerLength := by
  simp only [header, List.length_append, Bytes.length_ofNat]
  rfl

lemma length_framed (writtenAt : Nat) (payload : Bytes) :
    (framed writtenAt payload).length = headerLength + payload.length + digestLength := by
  simp only [framed, enclose, List.length_append, length_header, Vector.length_toList]
  rfl

/-- A number in a file is the one that was written there. -/
lemma number_eq {front rest : Bytes} {start width n : Nat} (hstart : front.length = start)
    (hn : n < 256 ^ width) (hb : b = front ++ (Bytes.ofNat width n ++ rest)) :
    number b start width = n := by
  rw [number, hb, List.drop_left' hstart, List.take_left' (Bytes.length_ofNat width n),
    Bytes.toNat_ofNat, Nat.mod_eq_of_lt hn]

lemma take_magic_framed (writtenAt : Nat) (payload : Bytes) :
    (framed writtenAt payload).take 4 = magic := by
  rw [framed_eq]
  exact List.take_left' rfl

lemma number_version_framed (writtenAt : Nat) (payload : Bytes) :
    number (framed writtenAt payload) 4 4 = version :=
  number_eq (rfl : magic.length = 4) (by decide) (framed_eq writtenAt payload)

lemma number_writtenAt_framed (hwritten : writtenAt < 2 ^ 64) (payload : Bytes) :
    number (framed writtenAt payload) 8 8 = writtenAt := by
  have hfront : (magic ++ Bytes.ofNat 4 version).length = 8 := rfl
  exact number_eq hfront hwritten ((framed_eq ..).trans (List.append_assoc ..).symm)

lemma number_length_framed (writtenAt : Nat) (hlength : payload.length < 2 ^ 64) :
    number (framed writtenAt payload) 16 8 = payload.length := by
  have hfront : (magic ++ Bytes.ofNat 4 version ++ Bytes.ofNat 8 writtenAt).length = 16 := by
    simp only [List.length_append, Bytes.length_ofNat]
    rfl
  exact number_eq hfront hlength ((framed_eq ..).trans
    ((List.append_assoc ..).symm.trans (List.append_assoc ..).symm))

lemma payloadOf_framed (hnumber : number (framed writtenAt payload) 16 8 = payload.length) :
    payloadOf (framed writtenAt payload) = payload := by
  rw [payloadOf, hnumber, framed, enclose, List.append_assoc,
    List.drop_left' (length_header _ _), List.take_left]

lemma digestOf_framed (hnumber : number (framed writtenAt payload) 16 8 = payload.length) :
    digestOf (framed writtenAt payload) = (Sha256.hash payload).toList := by
  rw [digestOf, hnumber, framed, enclose]
  refine List.drop_left' ?_
  rw [List.length_append, length_header]

/-- Of a record whose numbers fit nothing but the payload can be at fault. -/
lemma decode_framed (hwritten : writtenAt < 2 ^ 64) (hlength : payload.length < 2 ^ 64) :
    decode (framed writtenAt payload) =
      (tableOfPayload payload).map fun table => ⟨writtenAt, table⟩ := by
  have hnumber := number_length_framed writtenAt hlength
  rw [decode, if_neg ?long, if_neg (not_not.mpr (take_magic_framed writtenAt payload)),
    if_neg (not_not.mpr (number_version_framed writtenAt payload)), if_neg ?length, if_neg ?digest,
    payloadOf_framed hnumber, number_writtenAt_framed hwritten]
  case long =>
    rw [length_framed]
    omega
  case length =>
    rw [hnumber, length_framed]
    omega
  case digest =>
    rw [payloadOf_framed hnumber, digestOf_framed hnumber]
    exact not_not.mpr rfl

/-! ## Records that are read back -/

/-- What has been checked of a file that is a record. -/
lemma decode_eq_ok (h : decode b = .ok r) : b.take 4 = magic ∧ number b 4 4 = version ∧
    b.length = headerLength + digestLength + number b 16 8 ∧
    (Sha256.hash (payloadOf b)).toList = digestOf b ∧ number b 8 8 = r.writtenAt ∧
    ActionTable.ofJsonText? (Bytes.toChars (payloadOf b)) = some r.table ∧
    r.table.isWellFormed = true := by
  simp only [decode] at h
  split_ifs at h with hshort hmagic hversion hlength hdigest
  refine ⟨not_not.mp hmagic, not_not.mp hversion, not_not.mp hlength, not_not.mp hdigest, ?_⟩
  rw [tableOfPayload] at h
  split at h
  · cases h
  case h_2 table htable =>
    split_ifs at h with hshape
    · cases h
      exact ⟨rfl, htable, hshape⟩
    · cases h

lemma toChars_payload (t : ActionTable) : Bytes.toChars (Record.payload t) = t.jsonText :=
  Bytes.toChars_ofChars t.simple_toJson.isAscii_text

/-- What is read of the bytes of a record is the table of this record. -/
theorem table_of_decode_encode (h : decode r.encode = .ok r') : r'.table = r.table := by
  obtain ⟨-, -, hlength, -, -, htable, -⟩ := decode_eq_ok h
  rw [encode_eq_framed] at hlength htable
  -- the length in the header is that of the payload, as the file is neither longer nor shorter
  have hnumber : number (framed r.writtenAt (Record.payload r.table)) 16 8 =
      (Record.payload r.table).length := by
    rw [length_framed] at hlength
    omega
  rw [payloadOf_framed hnumber, toChars_payload] at htable
  exact ActionTable.eq_of_ofJsonText? htable

/-! ## Records that are not refused -/

/-- The payload of a table with a row of the declared width for every state is not refused for its
shape. -/
lemma tableOfPayload_ne_inconsistent {t : ActionTable} (h : t.isWellFormed = true) :
    tableOfPayload (Record.payload t) ≠ .error .inconsistent := by
  rw [tableOfPayload, toChars_payload]
  split
  · simp
  case h_2 table htable =>
    rw [ActionTable.eq_of_ofJsonText? htable, if_pos h]
    simp

/-- A record of a table with a row of the declared width for every state is not refused for the
shape of the table. -/
theorem decode_encode_ne_inconsistent (h : r.table.isWellFormed = true) :
    decode r.encode ≠ .error .inconsistent := by
  intro hdecode
  rw [encode_eq_framed, decode] at hdecode
  split_ifs at hdecode with hshort hmagic hversion hlength hdigest
  -- the five faults found before the payload is read are other ones
  iterate 5 cases hdecode
  -- all but the table has been found in order, so the payload is that of the table
  have hnumber : number (framed r.writtenAt (Record.payload r.table)) 16 8 =
      (Record.payload r.table).length := by
    rw [not_not, length_framed] at hlength
    omega
  rw [payloadOf_framed hnumber] at hdecode
  cases htable : tableOfPayload (Record.payload r.table) with
  | ok table =>
    rw [htable] at hdecode
    cases hdecode
  | error fault =>
    rw [htable] at hdecode
    cases hdecode
    exact tableOfPayload_ne_inconsistent h htable

/-- A record whose numbers fit is read back. -/
theorem decode_encode_of_fits (hshape : r.table.isWellFormed = true) (hfits : r.table.Fits)
    (hwritten : r.writtenAt < 2 ^ 64) (hlength : (Record.payload r.table).length < 2 ^ 64) :
    decode r.encode = .ok r := by
  have htable : tableOfPayload (Record.payload r.table) = .ok r.table := by
    rw [tableOfPayload, toChars_payload, hfits.ofJsonText?_jsonText]
    exact if_pos hshape
  rw [encode_eq_framed, decode_framed hwritten hlength, htable]
  rfl

end ShiftReduce.Record
