import ShiftReduce.Automaton.Listing
import ShiftReduce.Cache.Log
import ShiftReduce.Calc.Grammar
import ShiftReduce.Calc.Lexer
import ShiftReduce.Cli.Options
import ShiftReduce.Parse.Trace
/-!
# The command line

The program parses one arithmetic expression and prints its tree. It can also print the states of
the automaton and the conflicts of the table, and for these alone needs no expression. The table
comes from a cache.

The exit code is 0 on success, 1 if the command line or the grammar is at fault, and 2 if the
expression is.
-/

namespace ShiftReduce.Cli

/-- The options of the program. -/
def options : List OptionSpec := [
  ⟨some 't', "trace", none, ["Log every parser step to stderr"]⟩,
  ⟨none, "no-cache", none, ["Always build the action table"]⟩,
  ⟨some 'c', "cache-dir", some "DIR",
    ["Directory of persisted action tables. Defaults to the", "user cache",
      "directory, or to $PARSERGENS_CACHE_DIR when set"]⟩,
  ⟨none, "conflicts", none, ["Print the conflicts resolved while building the table"]⟩,
  ⟨none, "states", none, ["Print the item sets of the automaton"]⟩,
  ⟨some 'h', "help", none, ["Print this message"]⟩]

/-- The usage of the program. -/
def usageText : String := usage "Usage: parsergens [options] EXPR" options

/-- What a run of the program leaves behind. -/
structure Report where
  code : Nat
  out : String
  err : String
  log : List String

/-- A run that ends with a message of failure. -/
def Report.failure (code : Nat) (out message : String) (log : List String) : Report :=
  ⟨code, out, message ++ "\n", log⟩

/-- A run that ends with the usage. -/
def Report.usage (code : Nat) : Report := ⟨code, usageText, "", []⟩

/-- The expression among the arguments. It may be missing if a listing is asked for; `none` if there
are too many or too few arguments. -/
def expression? (a : Arguments) : Option (Option String) :=
  match a.free with
  | [text] => some (some text)
  | [] => if a.has "conflicts" || a.has "states" then some none else none
  | _ => none

/-- The settings of the cache: those of the environment, changed by the options. -/
def cacheConfig (env : Environment) (a : Arguments) : CacheConfig :=
  let config := CacheConfig.fromEnvironment env
  { config with
    enabled := config.enabled && !a.has "no-cache"
    directory := (a.value? "cache-dir").or config.directory }

/-- The events that are logged even if nobody asked for a trace. -/
def isSevere : CacheEvent → Bool
  | .notStored _ _ => true
  | _ => false

/-- The log of making a parser, as far as it is wanted. -/
def setupLog (g : Grammar) (events : List CacheEvent) (traced : Bool) : List String :=
  if traced then g.parserLog events
  else (events.filter isSevere).flatMap (CacheEvent.lines g)

/-- The listings that are asked for. -/
def listings (p : Parser) (a : Arguments) : Except GrammarError String := do
  let states ← if a.has "states" then p.grammar.listStates else .ok ""
  return states ++ if a.has "conflicts" then p.table.listConflicts p.grammar else ""

/-- Prints the listings, then the tree of the expression. -/
def present (p : Parser) (a : Arguments) (expression : Option String) (log : List String) :
    Report :=
  match listings p a with
  | .error e => .failure 1 "" e.message log
  | .ok listed =>
    match expression with
    | none => ⟨0, listed, "", log⟩
    | some text =>
      let stream := Calc.lex p.grammar.symbols text
      let log := log ++ if a.has "trace" then p.trace stream else []
      match p.parse stream with
      | .ok tree => ⟨0, listed ++ tree.render p.grammar.symbols ++ "\n", "", log⟩
      | .error e => .failure 2 listed e.message log

/-- Runs the program with its arguments. -/
def run {m : Type → Type} [Monad m] (s : Storage m) (env : Environment) (args : List String) :
    m Report := do
  match readArguments options args with
  | .error e => return .failure 1 "" e.message []
  | .ok a =>
    if a.has "help" then return .usage 0
    else
      match expression? a, Calc.grammar with
      | none, _ => return .usage 1
      | some _, .error e => return .failure 1 "" e.message []
      | some expression, .ok g =>
        let (parser, _, events) ← (Cache.ofConfig (cacheConfig env a)).parser s g
        let log := setupLog g events (a.has "trace")
        match parser with
        | .error e => return .failure 1 "" e.message log
        | .ok p => return present p a expression log

end ShiftReduce.Cli
