import ShiftReduce.Parse.Error
/-!
# The parser

A parser drives an action table over a stream of tokens. Its configuration is a stack of frames,
each a tree and the state entered with it, the rest of the stream with at most one token held back,
and the states that were left through the `ε` column since the last shift.

A step looks at one token. Shifting puts it on the stack as a leaf; reducing replaces the frames of
a clause by a node and holds the token back; accepting ends with the tree on top. A token without
an action falls back to the reduction in the `ε` column, once for every state between two shifts.

A stream that runs out goes on with the end of input, placed just past the last token.
-/

namespace ShiftReduce

/-- A grammar with the table that drives it. -/
structure Parser where
  grammar : Grammar
  table : ActionTable

/-- What a lexer delivers: a token or an error. -/
abbrev Lexeme := Except LexicalError Token

/-- A tree on the stack and the state entered with it. -/
structure Frame where
  tree : Tree
  state : StateId

instance : Inhabited Frame := ⟨⟨default, 0⟩⟩

/-- A parse in progress. -/
structure Configuration where
  /-- The stack, topmost frame first. Below it lies the start state. -/
  frames : List Frame
  /-- A token that was looked at and not shifted. -/
  held : Option Token
  /-- The items of the stream that were not read yet. -/
  input : List Lexeme
  /-- The line and the column just past the last token read. -/
  finish : Nat × Nat
  /-- The states left through the `ε` column since the last shift. -/
  fallen : List StateId

namespace Configuration

/-- The configuration before the first token. -/
def start (input : List Lexeme) : Configuration := ⟨[], none, input, (1, 1), []⟩

/-- The state on top of a stack; that of the empty stack is the start state. -/
def topState : List Frame → StateId
  | [] => 0
  | frame :: _ => frame.state

/-- The state the parse is in. -/
def state (c : Configuration) : StateId := topState c.frames

/-- The token to look at: the one held back, or the next of the stream, or the end of input. -/
def fetch (c : Configuration) : Except LexicalError (Token × Configuration) :=
  match c.held with
  | some token => .ok (token, { c with held := none })
  | none =>
    match c.input with
    | .ok token :: input => .ok (token, { c with input, finish := token.finish })
    | .error e :: _ => .error e
    | [] => .ok (Token.endOfInput c.finish.1 c.finish.2, c)

end Configuration

/-- What a step leads to. -/
inductive Outcome where
  | running (c : Configuration)
  | accepted (tree : Tree)
  | failed (error : ParseError)

/-- The action chosen for a token. -/
inductive Choice where
  /-- The action of the token's own cell. -/
  | direct (action : Action)
  /-- The reduction in the `ε` column, for want of an action. -/
  | fallback (rule : RuleId)
  /-- There is nothing to do. -/
  | stuck

namespace Parser

/-- Chooses the action for a symbol in a state that may be among those left by fallback. -/
def choose (p : Parser) (state : StateId) (s : SymbolId) (fallen : List StateId) : Choice :=
  match p.table.action? state s with
  | some action => .direct action
  | none =>
    match p.table.action? state SymbolId.epsilon with
    | some (.reduce rule) => if fallen.contains state then .stuck else .fallback rule
    | _ => .stuck

/-- The error for a token that a state cannot take. -/
def rejection (p : Parser) (state : StateId) (token : Token) : ParseError :=
  .unexpected token (p.grammar.symbols.name token.symbol)
    (((p.table.expectedIn state).filter (· != SymbolId.epsilon)).map p.grammar.symbols.name)

/-- The stack after a reduction: the frames of the clause, as many as there are, become one node,
and the state entered is found above the frame below them. -/
def reduceFrames (p : Parser) (frames : List Frame) (id : RuleId) :
    Except ParseError (List Frame) :=
  match p.grammar.rule? id with
  | none => .error (.missingRule id)
  | some rule =>
    let node := rule.apply ((frames.take rule.arity).reverse.map Frame.tree)
    let below := frames.drop rule.arity
    match p.table.goto? (Configuration.topState below) rule.target with
    | none => .error (.missingGoto (Configuration.topState below) rule.target)
    | some state => .ok (⟨node.toTree, state⟩ :: below)

/-- The configuration after a reduction, with the token held back. -/
def reduce (p : Parser) (c : Configuration) (token : Token) (id : RuleId) : Outcome :=
  match p.reduceFrames c.frames id with
  | .error e => .failed e
  | .ok frames => .running { c with frames, held := some token }

/-- One step of the parser. -/
def step (p : Parser) (c : Configuration) : Outcome :=
  match c.fetch with
  | .error e => .failed (.lexical e)
  | .ok (token, c) =>
    match p.choose c.state token.symbol c.fallen with
    | .stuck => .failed (p.rejection c.state token)
    | .fallback rule => p.reduce { c with fallen := c.state :: c.fallen } token rule
    | .direct (.shift dest) =>
      .running { c with frames := ⟨.leaf token, dest⟩ :: c.frames, fallen := [] }
    | .direct (.reduce rule) => p.reduce c token rule
    | .direct .accept =>
      match c.frames with
      | frame :: _ => .accepted frame.tree
      | [] => .failed (p.rejection c.state token)
    | .direct .fail => .failed (p.rejection c.state token)

/-- Takes steps until the parse ends or the fuel is used up. -/
def run (p : Parser) : Nat → Configuration → Except ParseError Tree
  | 0, _ => .error .stepLimit
  | fuel + 1, c =>
    match p.step c with
    | .running c => p.run fuel c
    | .accepted tree => .ok tree
    | .failed e => .error e

/-- The steps allowed for a number of tokens. Every step but the last shifts a token or adds a node
to the forest on the stack. Where no symbol derives itself, the height of a tree that covers no
token is at most the number of symbols with rules, and its branching is at most the length of the
longest clause, so that the forest over some tokens cannot have more nodes than this. -/
def stepLimit (g : Grammar) (tokens : Nat) : Nat :=
  let longest := g.rules.foldl (fun n r => max n r.arity) 0
  let count := g.rules.length
  16 * (tokens + 2) * (count + 2) * Nat.pow (longest + 2) (count + 40)

/-- Parses a whole stream. -/
def parse (p : Parser) (input : List Lexeme) : Except ParseError Tree :=
  p.run (stepLimit p.grammar input.length) (.start input)

end Parser

end ShiftReduce
