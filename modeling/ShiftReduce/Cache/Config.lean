import ShiftReduce.Cache.Path
import ShiftReduce.Text.Letter
/-!
# Settings of a cache

Whether tables are cached at all, how long they live in memory and on disk, and the directory of the
records. Lifetimes are in milliseconds. The environment can turn the cache off and choose the
directory.
-/

namespace ShiftReduce

/-- What the settings take from the surroundings of the program. -/
structure Environment where
  /-- The value of an environment variable. -/
  get : String → Option String
  /-- The home directory of the user's account, for want of a variable. -/
  accountHome : Option String

/-- The settings of a cache. -/
structure CacheConfig where
  /-- If not, every request builds a table. -/
  enabled : Bool
  memoryTtl : Nat
  diskTtl : Nat
  /-- The directory of the records; without one, tables are kept in memory only. -/
  directory : Option String
  deriving DecidableEq

namespace Environment

/-- The home directory. -/
def home (env : Environment) : Option String :=
  match env.get "HOME" with
  | some home => if home.isEmpty then env.accountHome else some home
  | none => env.accountHome

/-- The user's directory of caches: `XDG_CACHE_HOME` if it is an absolute path, else `.cache` in the
home directory. There is none without a home directory. -/
def cacheHome (env : Environment) : Option String :=
  env.home.map fun home =>
    match env.get "XDG_CACHE_HOME" with
    | some path => if Path.isAbsolute path then path else Path.join home ".cache"
    | none => Path.join home ".cache"

/-- The directory of the records unless another one is chosen. -/
def recordDirectory (env : Environment) : Option String :=
  env.cacheHome.map fun cache => Path.join (Path.join cache "parsergens") "action-tables"

end Environment

namespace CacheConfig

/-- The settings in force unless others are chosen: ten minutes in memory, an hour on disk. -/
def default (env : Environment) : CacheConfig := ⟨true, 600000, 3600000, env.recordDirectory⟩

/-- Tables are kept in memory only. -/
def memoryOnly : CacheConfig := ⟨true, 600000, 3600000, none⟩

/-- No table is kept. -/
def disabled : CacheConfig := ⟨false, 600000, 3600000, none⟩

/-- The values that turn a switch off, whatever white space is around them and in either case. -/
def isOff (value : String) : Bool :=
  ["0", "off", "false", "no"].contains (Text.lowerAscii (Text.trim value))

/-- The settings as the environment wants them: `PARSERGENS_CACHE` turns the cache off,
`PARSERGENS_CACHE_DIR` names the directory, and if it is empty there is none. -/
def fromEnvironment (env : Environment) : CacheConfig :=
  { default env with
    enabled :=
      match env.get "PARSERGENS_CACHE" with
      | some value => !isOff value
      | none => true
    directory :=
      match env.get "PARSERGENS_CACHE_DIR" with
      | some directory => if directory.isEmpty then none else some directory
      | none => env.recordDirectory }

/-- Are two settings the same, paths compared by their parts? -/
def same (a b : CacheConfig) : Bool :=
  a.enabled == b.enabled && a.memoryTtl == b.memoryTtl && a.diskTtl == b.diskTtl &&
    match a.directory, b.directory with
    | some a, some b => Path.same a b
    | none, none => true
    | _, _ => false

end CacheConfig

end ShiftReduce
