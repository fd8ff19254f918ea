import ShiftReduce.Parse.Basic
/-!
# Traces

A line for every token looked at, for every action taken, for every fallback and for every state
entered after a reduction, in the order in which the parser comes to them.
-/

namespace ShiftReduce

namespace Parser

/-- The lines of a reduction: the action, then the rule and the state entered, if the reduction
succeeds. -/
def reductionLines (p : Parser) (frames : List Frame) (id : RuleId) : List String :=
  ("TRACE   " ++ (Action.reduce id).text) ::
    match p.grammar.rule? id, p.reduceFrames frames id with
    | some rule, .ok (frame :: _) =>
      ["TRACE   " ++ p.grammar.ruleText rule ++ " => goto " ++ toString frame.state]
    | _, _ => []

/-- The lines of one step. -/
def stepLines (p : Parser) (c : Configuration) : List String :=
  match c.fetch with
  | .error _ => []
  | .ok (token, c) =>
    ("TRACE state " ++ toString c.state ++ " : token " ++ p.grammar.symbols.name token.symbol ++
        " '" ++ token.text ++ "'") ::
      match p.choose c.state token.symbol c.fallen with
      | .stuck => []
      | .fallback rule =>
        "TRACE   no action, falling back to ε" :: p.reductionLines c.frames rule
      | .direct (.reduce rule) => p.reductionLines c.frames rule
      | .direct action => ["TRACE   " ++ action.text]

/-- The lines of the steps of a run. -/
def runLines (p : Parser) : Nat → Configuration → List String
  | 0, _ => []
  | fuel + 1, c =>
    p.stepLines c ++
      match p.step c with
      | .running c => p.runLines fuel c
      | _ => []

/-- The trace of a parse. -/
def trace (p : Parser) (input : List Lexeme) : List String :=
  p.runLines (stepLimit p.grammar input.length) (.start input)

end Parser

end ShiftReduce
