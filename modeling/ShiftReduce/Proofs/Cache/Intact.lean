import ShiftReduce.Proofs.Automaton.Construction
import ShiftReduce.Proofs.Cache.Record
import ShiftReduce.Proofs.Table.Numbers
/-!
# Intact records

Which bytes are taken for a record: those that are one from the first to the last byte. There are no
bytes to spare, so that no record is the beginning of another one. A file of which only a part has
been written is no record, and neither is one with more behind it.

The bytes of a file are reached by offsets, one of which is read from the file. Reading is written
once more with a guard at every access and every sum: there is no result if a slice reaches beyond
the file or a sum does not fit into a word. A file of a length that can be is read all the same.

What is written of a table and a time is read back, if the format has room for the numbers in them.
For the tables of grammars it has.

Main statements: `Record.decode_exact` and `Record.persists`.
-/

namespace ShiftReduce.Record

variable {b b' p : Bytes} {r : Record}

/-- The bytes are a whole record with this payload: the letters, the version, the time of writing,
the length of the payload, the payload and its hash. The payload writes a table that has a row of
the declared width for every state. -/
structure IsRecord (b : Bytes) (r : Record) (p : Bytes) : Prop where
  bytes : b = Bytes.ofText "LRAT" ++ Bytes.ofNat 4 1 ++ Bytes.ofNat 8 r.writtenAt ++
    Bytes.ofNat 8 p.length ++ p ++ (Sha256.hash p).toList
  writtenAt_lt : r.writtenAt < 2 ^ 64
  length_lt : p.length < 2 ^ 64
  table : ActionTable.ofJsonText? (Bytes.toChars p) = some r.table
  wellFormed : r.table.isWellFormed = true

/-! ## Acceptance -/

lemma number_lt (b : Bytes) (start width : Nat) : number b start width < 256 ^ width := by
  refine Nat.lt_of_lt_of_le (Bytes.toNat_lt _) (Nat.pow_le_pow_right (by decide) ?_)
  rw [List.length_take]
  exact Nat.min_le_left ..

/-- The bytes from a place on begin with the number read there. -/
lemma drop_eq (start width : Nat) (h : start + width ≤ b.length) :
    b.drop start = Bytes.ofNat width (number b start width) ++ b.drop (start + width) := by
  have hlength : ((b.drop start).take width).length = width := by
    rw [List.length_take, List.length_drop]
    omega
  have hnumber := Bytes.ofNat_toNat ((b.drop start).take width)
  rw [hlength, ← number] at hnumber
  rw [hnumber, ← List.drop_drop, List.take_append_drop]

/-- A file has the parts that are read of it. -/
lemma eq_parts (h : headerLength ≤ b.length) :
    b = b.take 4 ++ (Bytes.ofNat 4 (number b 4 4) ++ (Bytes.ofNat 8 (number b 8 8) ++
      (Bytes.ofNat 8 (number b 16 8) ++ (payloadOf b ++ digestOf b)))) := by
  have h : 24 ≤ b.length := h
  have hpayload : payloadOf b ++ digestOf b = b.drop 24 := by
    rw [payloadOf, digestOf, ← List.drop_drop, List.take_append_drop]
    rfl
  rw [hpayload, ← drop_eq 16 8 h, ← drop_eq 8 8 (by omega), ← drop_eq 4 4 (by omega),
    List.take_append_drop]

/-- Accepted is what is a record. -/
lemma decode_eq_ok_iff : decode b = .ok r ↔ ∃ p, IsRecord b r p := by
  constructor
  · intro h
    obtain ⟨hmagic, hversion, hlength, hdigest, hwritten, htable, hshape⟩ := decode_eq_ok h
    have hpayload : (payloadOf b).length = number b 16 8 := by
      rw [payloadOf, List.length_take, List.length_drop]
      omega
    refine ⟨payloadOf b, ?_, hwritten ▸ number_lt b 8 8, hpayload ▸ number_lt b 16 8, htable,
      hshape⟩
    have hparts := eq_parts (b := b) (by omega)
    rw [hmagic, hversion, hwritten, ← hpayload, ← hdigest, ← framed_eq] at hparts
    exact hparts
  · rintro ⟨p, hbytes, hwritten, hlength, htable, hshape⟩
    have htable' : tableOfPayload p = .ok r.table := by
      rw [tableOfPayload, htable]
      exact if_pos hshape
    have hframed : b = framed r.writtenAt p := hbytes
    rw [hframed, decode_framed hwritten hlength, htable']
    rfl

/-! ## No record begins another one -/

/-- Bytes as many as the length in their header says are not the beginning of others. -/
lemma eq_of_isPrefix (h : b <+: b') (hb : b.length = headerLength + digestLength + number b 16 8)
    (hb' : b'.length = headerLength + digestLength + number b' 16 8) : b = b' := by
  obtain ⟨rest, rfl⟩ := h
  have hlong : 24 ≤ b.length := by
    rw [hb]
    exact Nat.le_add_right_of_le (by decide)
  have hnumber : number (b ++ rest) 16 8 = number b 16 8 := by
    rw [number, number, List.drop_append_of_le_length (by omega),
      List.take_append_of_le_length (by rw [List.length_drop]; omega)]
  rw [hnumber, List.length_append] at hb'
  rw [List.length_eq_zero_iff.mp (by omega : rest.length = 0), List.append_nil]

lemma length_encode (hlength : (payload r.table).length < 2 ^ 64) :
    r.encode.length = headerLength + digestLength + number r.encode 16 8 := by
  rw [encode_eq_framed, number_length_framed r.writtenAt hlength, length_framed]
  omega

/-! ## Reading with guards -/

namespace Guarded

/-- The bytes between two places, if they are in order and within the file. -/
def slice (b : Bytes) (start stop : Nat) : Option Bytes :=
  if start ≤ stop ∧ stop ≤ b.length then some ((b.drop start).take (stop - start)) else none

/-- The number in some bytes of a file, copied to as many bytes as it has. -/
def number (b : Bytes) (start stop : Nat) : Option Nat := do
  let bytes ← slice b start stop
  let copy ← slice bytes 0 (stop - start)
  return Bytes.toNat copy

/-- The sum of two words, if it is a word. -/
def add (m n : Nat) : Option Nat := if m + n < 2 ^ 64 then some (m + n) else none

/-- The sum of two words, or the greatest word if it is greater. -/
def saturatingAdd (m n : Nat) : Nat := min (m + n) (2 ^ 64 - 1)

/-- The record that the bytes of a file are. -/
def decode (b : Bytes) : Option (Except RecordFault Record) := do
  if b.length < headerLength + digestLength then return .error .truncated
  if (← slice b 0 4) ≠ magic then return .error .badMagic
  if (← number b 4 8) ≠ version then return .error .unsupportedVersion
  let writtenAt ← number b 8 16
  let length ← number b 16 24
  if b.length ≠ saturatingAdd (headerLength + digestLength) length then
    return .error .lengthMismatch
  let stop ← add headerLength length
  let payload ← slice b headerLength stop
  if (Sha256.hash payload).toList ≠ (← slice b stop b.length) then return .error .digestMismatch
  return (tableOfPayload payload).map fun table => ⟨writtenAt, table⟩

lemma slice_eq {start stop : Nat} (h : start ≤ stop) (hstop : stop ≤ b.length) :
    slice b start stop = some ((b.drop start).take (stop - start)) :=
  if_pos ⟨h, hstop⟩

lemma number_eq {start stop : Nat} (h : start ≤ stop) (hstop : stop ≤ b.length) :
    number b start stop = some (Record.number b start (stop - start)) := by
  have hlength : ((b.drop start).take (stop - start)).length = stop - start := by
    rw [List.length_take, List.length_drop]
    omega
  rw [number, slice_eq h hstop, Option.bind_eq_bind, Option.bind_some,
    slice_eq (Nat.zero_le _) (Nat.le_of_eq hlength.symm)]
  simp [Record.number, List.take_take]

/-- The sum is as long as a file only if it is not cut off. -/
lemma eq_saturatingAdd_iff {length m n : Nat} (h : length < 2 ^ 63) :
    length = saturatingAdd m n ↔ length = m + n := by
  rw [saturatingAdd]
  omega

/-- No access is out of range and no sum too great. -/
lemma decode_eq (h : b.length < 2 ^ 63) : decode b = some (Record.decode b) := by
  rw [decode, Record.decode]
  split
  · rfl
  next hshort =>
    have hlong : 56 ≤ b.length := Nat.not_lt.mp hshort
    simp only [slice_eq (b := b) (Nat.zero_le 4) (by omega), List.drop_zero, Nat.sub_zero,
      number_eq (b := b) (by decide : 4 ≤ 8) (by omega),
      number_eq (b := b) (by decide : 8 ≤ 16) (by omega),
      number_eq (b := b) (by decide : 16 ≤ 24) (by omega), Option.bind_eq_bind, Option.bind_some,
      Nat.reduceSub, ne_eq, eq_saturatingAdd_iff h]
    split
    · rfl
    split
    · rfl
    split
    · rfl
    next hlength =>
      -- the length in the header is that of the payload, which ends within the file
      rw [not_not] at hlength
      have hstop : headerLength + Record.number b 16 8 ≤ b.length := by omega
      have hadd : add headerLength (Record.number b 16 8) =
          some (headerLength + Record.number b 16 8) := if_pos (by omega)
      have hpayload : slice b headerLength (headerLength + Record.number b 16 8) =
          some (payloadOf b) := by
        rw [slice_eq (Nat.le_add_right ..) hstop, Nat.add_sub_cancel_left, payloadOf]
      have hdigest : slice b (headerLength + Record.number b 16 8) b.length =
          some (digestOf b) := by
        rw [slice_eq hstop (Nat.le_refl _), List.take_of_length_le (by rw [List.length_drop]),
          digestOf]
      simp only [hadd, hpayload, hdigest, Option.bind_some]
      split <;> rfl

end Guarded

/-! ## Whole files -/

/-- A file is taken for a record exactly if it is a whole record, and reading it is always within
its bounds. Nothing that begins as a written record does and ends before or behind it is one. -/
theorem decode_exact (b : Bytes) :
    (∀ r, decode b = .ok r ↔ ∃ p, IsRecord b r p) ∧
    (b.length < 2 ^ 63 → Guarded.decode b = some (decode b)) ∧
    ∀ r : Record, (payload r.table).length < 2 ^ 64 → b ≠ r.encode →
      b <+: r.encode ∨ r.encode <+: b → ∃ fault, decode b = .error fault := by
  refine ⟨fun r => decode_eq_ok_iff, Guarded.decode_eq, fun r hlength hne hprefix => ?_⟩
  cases hdecode : decode b with
  | error fault => exact ⟨fault, rfl⟩
  | ok r' =>
    obtain ⟨-, -, hb, -⟩ := decode_eq_ok hdecode
    rcases hprefix with h | h
    · exact absurd (eq_of_isPrefix h hb (length_encode hlength)) hne
    · exact absurd (eq_of_isPrefix h (length_encode hlength) hb).symm hne

/-- A table with a cell of every kind, a goto and a clash. -/
def mixed : ActionTable where
  fingerprint := default
  width := 2
  actions := [[some (.shift 1), none], [some (.reduce 3), some .accept], [some .fail, none]]
  gotos := [[none, some 2], [none, none], [none, none]]
  expected := [[0], [0, 1], []]
  conflicts := [⟨0, 1, .shift 1, .reduce 3, .fail⟩]

lemma length_payload_mixed : (payload mixed).length = 338 := by decide +kernel

/-- A record of it is refused while only its first hundred bytes are there. -/
theorem decode_exact_mixed : ((encode ⟨7, mixed⟩).take 100).length < 2 ^ 63 ∧
    Guarded.decode ((encode ⟨7, mixed⟩).take 100) = some (decode ((encode ⟨7, mixed⟩).take 100)) ∧
    (payload mixed).length < 2 ^ 64 ∧ (encode ⟨7, mixed⟩).take 100 ≠ encode ⟨7, mixed⟩ ∧
    (encode ⟨7, mixed⟩).take 100 <+: encode ⟨7, mixed⟩ ∧
    ∃ fault, decode ((encode ⟨7, mixed⟩).take 100) = .error fault := by
  have hexact := decode_exact ((encode ⟨7, mixed⟩).take 100)
  have hlength : (payload mixed).length < 2 ^ 64 := by
    rw [length_payload_mixed]
    decide
  have hwhole : (encode ⟨7, mixed⟩).length = 394 := by
    rw [encode_eq_framed, length_framed, length_payload_mixed, headerLength, digestLength]
  have hpart : ((encode ⟨7, mixed⟩).take 100).length = 100 := by
    rw [List.length_take, hwhole, Nat.min_eq_left (by decide)]
  have hshort : ((encode ⟨7, mixed⟩).take 100).length < 2 ^ 63 := by
    rw [hpart]
    decide
  have hne : (encode ⟨7, mixed⟩).take 100 ≠ encode ⟨7, mixed⟩ := fun h => by
    rw [h, hwhole] at hpart
    omega
  have hprefix := List.take_prefix 100 (encode ⟨7, mixed⟩)
  exact ⟨hshort, hexact.2.1 hshort, hlength, hne, hprefix,
    hexact.2.2 ⟨7, mixed⟩ hlength hne (.inl hprefix)⟩

/-! ## What is written is read -/

/-- The format has room for the numbers of the record. -/
structure InRange (r : Record) : Prop where
  table : r.table.Fits
  writtenAt : r.writtenAt < 2 ^ 64
  payload : (payload r.table).length < 2 ^ 64

/-- A record of a table with a row of the declared width for every state and numbers in range is
read back, and so is the table from its JSON text. The table of a grammar is such a table, if the
numbers of its rules, symbols and states are words. -/
theorem persists :
    (∀ r : Record, r.table.isWellFormed = true → r.InRange →
      ActionTable.ofJsonText? r.table.jsonText = some r.table ∧ decode r.encode = .ok r) ∧
    ∀ (g : Grammar) (t : ActionTable) (writtenAt : Nat), g.table = .ok t →
      (∀ r ∈ g.rules, r.id < wordRange) → t.width ≤ wordRange → t.stateCount ≤ wordRange →
      writtenAt < 2 ^ 64 → (payload t).length < 2 ^ 64 →
      t.isWellFormed = true ∧ InRange ⟨writtenAt, t⟩ ∧
        decode (encode ⟨writtenAt, t⟩) = .ok ⟨writtenAt, t⟩ := by
  have hread : ∀ r : Record, r.table.isWellFormed = true → r.InRange → decode r.encode = .ok r :=
    fun r hshape h => decode_encode_of_fits hshape h.table h.writtenAt h.payload
  refine ⟨fun r hshape h => ⟨h.table.ofJsonText?_jsonText, hread r hshape h⟩, ?_⟩
  intro g t writtenAt ht hrules hwidth hstates hwritten hlength
  obtain ⟨target, -, rfl⟩ := Grammar.table_eq_ok ht
  have hshape := Automaton.isWellFormed_table (g.automatonOf target) g
  have hstates' : (g.automatonOf target).states.length ≤ wordRange := by
    simpa [ActionTable.stateCount, Automaton.table] using hstates
  have hrange : InRange ⟨writtenAt, (g.automatonOf target).table g⟩ :=
    ⟨Grammar.fits_automaton_table hrules hwidth hstates', hwritten, hlength⟩
  exact ⟨hshape, hrange, hread _ hshape hrange⟩

lemma fits_mixed : mixed.Fits where
  width := by decide
  actions := by decide
  gotos := by decide
  expected := by decide
  conflicts := List.forall_mem_singleton.mpr ⟨by decide, by decide, by decide, by decide, trivial⟩

/-- A table with a cell of every kind is read back, and so is that of the brackets around a word. -/
theorem persists_mixed :
    (mixed.isWellFormed = true ∧ InRange ⟨1700000000, mixed⟩ ∧
      ActionTable.ofJsonText? mixed.jsonText = some mixed ∧
      decode (encode ⟨1700000000, mixed⟩) = .ok ⟨1700000000, mixed⟩) ∧
    ∃ t, Grammar.nested.table = .ok t ∧ (∀ r ∈ Grammar.nested.rules, r.id < wordRange) ∧
      t.width ≤ wordRange ∧ t.stateCount ≤ wordRange ∧ (payload t).length < 2 ^ 64 ∧
      decode (encode ⟨5, t⟩) = .ok ⟨5, t⟩ := by
  have hshape : mixed.isWellFormed = true := by decide
  have hrange : InRange ⟨1700000000, mixed⟩ :=
    ⟨fits_mixed, by decide, length_payload_mixed ▸ by decide⟩
  have hrules : ∀ r ∈ Grammar.nested.rules, r.id < wordRange := by decide
  have hstates : ((Grammar.nested.automatonOf 2).table Grammar.nested).stateCount ≤ wordRange := by
    decide +kernel
  have hlength : (payload ((Grammar.nested.automatonOf 2).table Grammar.nested)).length <
      2 ^ 64 := by
    decide +kernel
  refine ⟨⟨hshape, hrange, persists.1 ⟨1700000000, mixed⟩ hshape hrange⟩, _, rfl, hrules, by decide,
    hstates, hlength, ?_⟩
  exact (persists.2 Grammar.nested _ 5 rfl hrules (by decide) hstates (by decide) hlength).2.2

end ShiftReduce.Record
