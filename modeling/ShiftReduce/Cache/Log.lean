import ShiftReduce.Cache.Basic
import ShiftReduce.Table.Listing
/-!
# Cache events as text

What can be wrong with a record, in words, and the log lines of what happened.
-/

namespace ShiftReduce

/-- The fault of a record in words. -/
def RecordFault.reason : RecordFault → String
  | truncated => "truncated header"
  | badMagic => "bad magic"
  | unsupportedVersion => "unsupported version"
  | lengthMismatch => "length mismatch"
  | digestMismatch => "digest mismatch"
  | notATable => "the payload is not a table"
  | inconsistent => "inconsistent table dimensions"

/-- The message about a damaged record. -/
def corruptedMessage (path reason : String) : String :=
  "corrupted cache record " ++ path ++ ": " ++ reason

/-- The message about a disk that does not obey. -/
def diskMessage (message : String) : String := "cache i/o error: " ++ message

/-- The error as it is shown. -/
def LoadFault.message : LoadFault → String
  | unreadable message => diskMessage message
  | damaged _ .notATable => "cache serialization error: " ++ RecordFault.notATable.reason
  | damaged path fault => corruptedMessage path fault.reason
  | foreign path holds => corruptedMessage path ("record holds the table of " ++ holds.hex)

/-- The log lines of an event on the way to the table of a grammar. -/
def CacheEvent.lines (g : Grammar) : CacheEvent → List String
  | memoryHit f => ["DEBUG action table " ++ f.hex ++ ": memory hit"]
  | diskHit f => ["DEBUG action table " ++ f.hex ++ ": disk hit"]
  | ignored f fault => ["WARN ignoring cached action table " ++ f.hex ++ ": " ++ fault.message]
  | building f => ["DEBUG action table " ++ f.hex ++ ": building"]
  | built table => table.log g
  | notRemoved path message => ["WARN cannot remove cache record " ++ path ++ ": " ++ message]
  | notStored f message =>
    ["ERROR cannot persist action table " ++ f.hex ++ ": " ++ diskMessage message]

/-- The log of making the parser of a grammar. -/
def Grammar.parserLog (g : Grammar) (events : List CacheEvent) : List String :=
  g.inheritLevels.levelLog ++ events.flatMap (CacheEvent.lines g.inheritLevels)

/-- The log of making the parser that accepts a symbol. The levels are inherited twice: in the
grammar as it is, and in the fragment. -/
def Grammar.parserForLog (g : Grammar) (s : SymbolId) (events : List CacheEvent) : List String :=
  g.inheritLevels.levelLog ++
    match g.fragment s with
    | (h, .ok fragment) => (h.resolve fragment).parserLog events
    | (_, .error _) => []

/-- What happens when a parser is made without a cache. -/
def buildEvents (parser : Except GrammarError Parser) : List CacheEvent :=
  match parser with
  | .ok p => [.built p.table]
  | .error _ => []

end ShiftReduce
