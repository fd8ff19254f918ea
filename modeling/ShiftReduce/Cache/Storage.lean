import ShiftReduce.Text.Bytes
/-!
# The clock and the files

What a cache asks of the outside: the time, and the reading, removing and publishing of files. The
operations live in a monad of the caller's choice, so that the cache itself is the same on a real
disk and on a disk in memory.
-/

namespace ShiftReduce

/-- What comes of reading a file. -/
inductive Reading where
  | missing
  | failed (message : String)
  | contents (bytes : Bytes)
  deriving DecidableEq, Inhabited

/-- A clock and a disk. -/
structure Storage (m : Type → Type) where
  /-- The time in milliseconds. -/
  now : m Nat
  /-- Reads the file at a path. -/
  read : String → m Reading
  /-- Removes the file at a path. -/
  remove : String → m (Except String Unit)
  /-- Creates a directory if need be and writes a file in it, of the given path and bytes, in one
  go. Something that is already at the path stays as it is, which is no failure. -/
  publish : String → String → Bytes → m (Except String Unit)

end ShiftReduce
