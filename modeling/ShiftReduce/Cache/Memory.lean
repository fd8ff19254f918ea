import ShiftReduce.Table.Basic
/-!
# Tables in memory

Every table is kept with the time at which it was stored, and counts until its lifetime is over.
Times and lifetimes are in milliseconds; a lifetime of 0 is over at once. A table that has expired
stays until it is asked for or replaced.
-/

namespace ShiftReduce

/-- A table and the time at which it was stored. -/
structure Stored where
  since : Nat
  table : ActionTable

/-- The tables in memory, by fingerprint. -/
structure Memory where
  lifetime : Nat
  /-- At most one entry for a fingerprint. -/
  entries : List (Fingerprint × Stored)

namespace Memory

/-- No tables. -/
def empty (lifetime : Nat) : Memory := ⟨lifetime, []⟩

/-- The number of tables, expired ones among them. -/
def size (m : Memory) : Nat := m.entries.length

/-- Does the table still count? -/
def isAlive (m : Memory) (now : Nat) (s : Stored) : Bool := decide (now - s.since < m.lifetime)

/-- The memory without the table of a fingerprint. -/
def erase (m : Memory) (f : Fingerprint) : Memory :=
  { m with entries := m.entries.filter fun e => e.1 != f }

/-- The table of a fingerprint, if it counts; one that has expired is dropped. -/
def lookup (m : Memory) (now : Nat) (f : Fingerprint) : Option ActionTable × Memory :=
  match m.entries.lookup f with
  | none => (none, m)
  | some s => if m.isAlive now s then (some s.table, m) else (none, m.erase f)

/-- Stores a table and returns the table that is then in memory: one stored before stays as long as
it counts. -/
def insert (m : Memory) (now : Nat) (table : ActionTable) : ActionTable × Memory :=
  match m.entries.lookup table.fingerprint with
  | some s =>
    if m.isAlive now s then (s.table, m)
    else
      let m := m.erase table.fingerprint
      (table, { m with entries := (table.fingerprint, ⟨now, table⟩) :: m.entries })
  | none => (table, { m with entries := (table.fingerprint, ⟨now, table⟩) :: m.entries })

/-- Drops all tables. -/
def clear (m : Memory) : Memory := { m with entries := [] }

end Memory

end ShiftReduce
