import ShiftReduce.Cache.Config
import ShiftReduce.Cache.Memory
import ShiftReduce.Cache.Record
import ShiftReduce.Cache.Storage
import ShiftReduce.Parse.Build
/-!
# The cache of action tables

A table is looked for in memory, then among the records on disk, and built if it is in neither.
Tables are found by fingerprint. A record that is damaged, expired or that of another grammar is
removed and the table built anew. Whatever goes wrong with memory or disk is told as an event and
never reaches the caller: the only failure is that of the grammar.
-/

namespace ShiftReduce

/-- Why a record was not used. -/
inductive LoadFault where
  /-- The file could not be read. -/
  | unreadable (message : String)
  /-- The file is no record. -/
  | damaged (path : String) (fault : RecordFault)
  /-- The record holds the table of another fingerprint. -/
  | foreign (path : String) (holds : Fingerprint)
  deriving DecidableEq, Inhabited

/-- What happened on the way to a table. -/
inductive CacheEvent where
  | memoryHit (f : Fingerprint)
  | diskHit (f : Fingerprint)
  /-- A record was there but could not be used. -/
  | ignored (f : Fingerprint) (fault : LoadFault)
  | building (f : Fingerprint)
  | built (table : ActionTable)
  | notRemoved (path message : String)
  | notStored (f : Fingerprint) (message : String)
  deriving DecidableEq

/-- A cache: its settings, whether it is switched on, and the tables in memory. -/
structure Cache where
  config : CacheConfig
  enabled : Bool
  memory : Memory

/-- A table or the grammar's error, the cache afterwards, and what happened. -/
structure Fetched where
  result : Except GrammarError ActionTable
  cache : Cache
  events : List CacheEvent

namespace Cache

/-- The cache of some settings, without any tables in memory. -/
def ofConfig (config : CacheConfig) : Cache := ⟨config, config.enabled, .empty config.memoryTtl⟩

/-- The cache that always builds. -/
def disabled : Cache := ofConfig .disabled

/-- Switches a cache on or off. Tables that are stored stay. -/
def setEnabled (c : Cache) (enabled : Bool) : Cache := { c with enabled }

/-- Drops the tables in memory. -/
def clearMemory (c : Cache) : Cache := { c with memory := c.memory.clear }

/-- The path of the record of a fingerprint in a directory. -/
def recordPathIn (directory : String) (f : Fingerprint) : String :=
  Path.join directory (f.hex ++ ".lrat")

/-- The path of the record of a fingerprint, if the cache has a directory. -/
def recordPath? (c : Cache) (f : Fingerprint) : Option String :=
  c.config.directory.map fun directory => recordPathIn directory f

/-- Is a record of this time over at a time, both in seconds, with a lifetime in milliseconds? -/
def isOver (lifetime : Nat) (now writtenAt : Nat) : Bool :=
  decide (lifetime / 1000 ≤ now - writtenAt)

section

variable {m : Type → Type} [Monad m]

/-- Removes the file of a record and tells if it could not. -/
def discard (s : Storage m) (path : String) : m (List CacheEvent) := do
  match ← s.remove path with
  | .ok () => return []
  | .error message => return [.notRemoved path message]

/-- The table of a fingerprint from its record, or why the record was not used, or nothing if there
is no record or it is over. A record that is no good is removed. -/
def load (s : Storage m) (config : CacheConfig) (directory : String) (f : Fingerprint) :
    m (Except LoadFault (Option ActionTable) × List CacheEvent) := do
  let path := recordPathIn directory f
  match ← s.read path with
  | .missing => return (.ok none, [])
  | .failed message => return (.error (.unreadable message), [])
  | .contents bytes =>
    match Record.decode bytes with
    | .error fault => return (.error (.damaged path fault), ← discard s path)
    | .ok record =>
      if isOver config.diskTtl ((← s.now) / 1000) record.writtenAt then
        return (.ok none, ← discard s path)
      else if record.table.fingerprint = f then
        return (.ok (some record.table), [])
      else
        return (.error (.foreign path record.table.fingerprint), ← discard s path)

/-- Writes the record of a table and tells if it could not. -/
def store (s : Storage m) (directory : String) (table : ActionTable) : m (List CacheEvent) := do
  let record : Record := ⟨(← s.now) / 1000, table⟩
  match ← s.publish directory (recordPathIn directory table.fingerprint) record.encode with
  | .ok () => return []
  | .error message => return [.notStored table.fingerprint message]

/-- Puts a table into memory. -/
def keep (s : Storage m) (c : Cache) (table : ActionTable) : m (ActionTable × Cache) := do
  let (table, memory) := c.memory.insert (← s.now) table
  return (table, { c with memory })

/-- Builds the table of a grammar and stores it in both places. -/
def build (s : Storage m) (c : Cache) (g : Grammar) : m Fetched := do
  match g.table with
  | .error e => return ⟨.error e, c, []⟩
  | .ok table =>
    let (table, c) ← c.keep s table
    match c.config.directory with
    | none => return ⟨.ok table, c, [.built table]⟩
    | some directory =>
      let events ← store s directory table
      return ⟨.ok table, c, .built table :: events⟩

/-- Looks for the table of a grammar on disk, and builds it if there is none. -/
def loadOrBuild (s : Storage m) (c : Cache) (g : Grammar) : m Fetched := do
  let f := g.fingerprint
  let (found, events) ←
    match c.config.directory with
    | none => pure (.ok none, [])
    | some directory => load s c.config directory f
  match found with
  | .ok (some table) =>
    let (table, c) ← c.keep s table
    return ⟨.ok table, c, events ++ [.diskHit f]⟩
  | .ok none =>
    let fetched ← c.build s g
    return { fetched with events := events ++ .building f :: fetched.events }
  | .error fault =>
    let fetched ← c.build s g
    return { fetched with events := events ++ .ignored f fault :: .building f :: fetched.events }

/-- The table of a grammar from memory, from disk, or built. A cache that is switched off builds and
touches nothing. -/
def fetch (s : Storage m) (c : Cache) (g : Grammar) : m Fetched := do
  if c.enabled then
    match c.memory.lookup (← s.now) g.fingerprint with
    | (some table, memory) =>
      return ⟨.ok table, { c with memory }, [.memoryHit g.fingerprint]⟩
    | (none, memory) => loadOrBuild s { c with memory } g
  else
    return ⟨g.table, c, (g.table.toOption.map CacheEvent.built).toList⟩

/-- The parser of a grammar with a table from the cache, the cache afterwards, and what happened. -/
def parser (s : Storage m) (c : Cache) (g : Grammar) :
    m (Except GrammarError Parser × Cache × List CacheEvent) := do
  let g := g.inheritLevels
  let fetched ← c.fetch s g
  return (fetched.result.map fun table => ⟨g, table⟩, fetched.cache, fetched.events)

end

end Cache

end ShiftReduce
