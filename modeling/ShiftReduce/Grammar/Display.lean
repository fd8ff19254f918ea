import ShiftReduce.Grammar.Basic
import ShiftReduce.Text.Quoted
/-!
# Grammars as text

A grammar is listed with one numbered rule on a line. For inspection, symbol tables and rules also
have a one-line form that shows their fields by name, with texts in quotes.
-/

namespace ShiftReduce

/-! ## Listing -/

/-- The grammar's name and rules. -/
def Grammar.text (g : Grammar) : String :=
  (match g.name with | some name => name ++ " : " | none => "") ++ "\x7b\n" ++
    String.join (g.rules.map fun r =>
      "    (" ++ toString r.id ++ ") " ++ g.ruleText r ++ "\n") ++ "\x7d\n"

/-! ## Inspection -/

/-- The symbols by number, each with its name in quotes. -/
def SymbolTable.inspect (t : SymbolTable) : String :=
  "\x7b" ++
    ", ".intercalate (t.entries.mapIdx fun i s => toString i ++ ": " ++ Text.quoted s.name) ++
    "\x7d"

/-- The word for an arbitration. -/
def Arbitration.inspect : Arbitration → String
  | shift => "Shift"
  | reduce => "Reduce"
  | fail => "Fail"

/-- A symbol number with its type. -/
def inspectSymbol (s : SymbolId) : String := "SymbolId(" ++ toString s ++ ")"

/-- The fields of a rule; of the callback only whether there is one. -/
def Rule.inspect (r : Rule) : String :=
  let fields := [
    ("id", "RuleId(" ++ toString r.id ++ ")"),
    ("target", inspectSymbol r.target),
    ("clause", "[" ++ ", ".intercalate (r.clause.map inspectSymbol) ++ "]"),
    ("name", match r.name with
      | some name => "Some(" ++ Text.quoted name ++ ")"
      | none => "None"),
    ("action", if r.action.isSome then "true" else "false"),
    ("precedence", toString r.level),
    ("arbitration", r.arbitration.inspect)]
  "Rule \x7b " ++ ", ".intercalate (fields.map fun f => f.1 ++ ": " ++ f.2) ++ " \x7d"

end ShiftReduce
