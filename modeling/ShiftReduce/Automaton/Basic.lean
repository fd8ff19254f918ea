import ShiftReduce.Automaton.State
/-!
# The LALR(1) automaton

States are discovered breadth first from the kernel `^ → . target` with lookahead `$`. Two kernels
of the same keys are one state, whose lookaheads are merged. A queue holds the states still to be
visited: a new state is queued when it is found, and a known one again whenever its kernel gains
lookaheads. When the queue is empty every state has passed on all its lookaheads.
-/

namespace ShiftReduce

/-- The states of a grammar with the basis they were built on. -/
structure Automaton where
  basis : Basis
  /-- The states by number; state 0 is the start. -/
  states : List State

/-- States found so far and the queue of those to visit. -/
structure Discovery where
  states : List State
  queue : List StateId

namespace Discovery

/-- Finds or makes the state of a kernel, and queues it if it is new or has gained lookaheads. The
number of a state is its place, and it is not cut to a word. -/
def enter (d : Discovery) (kernel : List Item) : StateId × Discovery :=
  let core := kernel.map Item.key
  match d.states.findIdx? fun st => st.core == core with
  | none => (d.states.length, ⟨d.states ++ [State.ofKernel kernel], d.queue ++ [d.states.length]⟩)
  | some i =>
    let old := (d.states.getD i (State.ofKernel kernel))
    let merged := old.merge kernel
    (i, if merged = old then d else ⟨d.states.set i merged, d.queue ++ [i]⟩)

/-- Follows one transition of a state. -/
def follow (i : StateId) (d : Discovery) (move : Part × List Item) : Discovery :=
  let (dest, d) := d.enter move.2
  { d with states := d.states.modify i fun st => st.setTarget move.1 dest }

/-- Visits a state: completes its closure and follows its transitions. -/
def visit (b : Basis) (d : Discovery) (i : StateId) : Discovery :=
  match d.states[i]? with
  | none => d
  | some st =>
    let st := st.close b
    (st.successors b).foldl (follow i) { d with states := d.states.set i st }

/-- Visits the states of the queue until it is empty. -/
def run (b : Basis) : Nat → Discovery → Discovery
  | 0, d => d
  | fuel + 1, d =>
    match d.queue with
    | [] => d
    | i :: queue => run b fuel ({ d with queue }.visit b i)

end Discovery

namespace Basis

/-- The number of productions with a dot: one for each part and one for the end of each. -/
def itemCount (b : Basis) : Nat :=
  (b.productions.list.toList.flatMap Production.rhs).length + b.productions.list.size

/-- A bound on the number of visits. There are at most as many states as sets of items, and a
state is queued once when it is found and once for every lookahead that its kernel gains. -/
def visitBound (b : Basis) : Nat :=
  Nat.pow 2 b.itemCount * (b.itemCount * b.productions.width + 1) + 1

/-- The kernel of the start state. -/
def startKernel (b : Basis) : List Item := [⟨b.key 0 0, .singleton SymbolId.eoi⟩]

/-- The automaton over a basis. -/
def automaton (b : Basis) : Automaton :=
  let d := Discovery.run b b.visitBound ⟨[State.ofKernel b.startKernel], [0]⟩
  ⟨b, d.states⟩

end Basis

/-- The automaton of a grammar. It is refused if something reachable is undefined. -/
def Grammar.automaton (g : Grammar) : Except GrammarError Automaton :=
  match g.validate, g.target with
  | .error e, _ => .error e
  | .ok _, none => .error .noRules
  | .ok _, some target => .ok (g.productions target).basis.automaton

end ShiftReduce
