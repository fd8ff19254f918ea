import ShiftReduce.Automaton.Item
/-!
# States

A state is given by its kernel, the items with which the state is entered. From these follow the
items of the closure: where a dot stands before a non-terminal, the productions of the non-terminal
may begin. All of them begin with the same lookaheads, so the closure is kept as a list of
non-terminals with one set each, in the order in which they are met.

The lookaheads of the closure are a least solution: an item `A → α . B β` with lookaheads `K`
demands for `B` what can begin `β`, and `K` too if `β` can vanish. Demands are met round by round
until a round adds nothing. A closure found earlier, for smaller lookaheads, is a valid place to
start.
-/

namespace ShiftReduce

/-- The number of a state, by order of discovery. -/
abbrev StateId := Nat

/-- A state of the automaton. -/
structure State where
  /-- The items with which the state is entered, by ascending key. -/
  kernel : List Item
  /-- The non-terminals whose productions may begin here, and what may follow them. -/
  closure : List (SymbolId × TerminalSet)
  /-- The states entered over each part, in order of discovery. -/
  transitions : List (Part × StateId)
  deriving DecidableEq

/-- Raises the set of a non-terminal in a closure; a new one comes last. -/
def raise (closure : List (SymbolId × TerminalSet)) (demand : SymbolId × TerminalSet) :
    List (SymbolId × TerminalSet) :=
  match closure with
  | [] => [demand]
  | (s, set) :: rest =>
    if s = demand.1 then (s, set.union demand.2) :: rest else (s, set) :: raise rest demand

namespace State

/-- The state of a kernel, before its closure is known. -/
def ofKernel (kernel : List Item) : State := ⟨kernel, [], []⟩

/-- The keys of the kernel, by which the state is told from others. -/
def core (st : State) : List Nat := st.kernel.map Item.key

/-- All items: the kernel, then the productions of each non-terminal of the closure. -/
def items (b : Basis) (st : State) : List Item :=
  st.kernel ++ st.closure.flatMap fun c => b.openings c.1 c.2

/-! ## Closure -/

/-- Raises a closure by what some items demand. -/
def meet (b : Basis) (items : List Item) (closure : List (SymbolId × TerminalSet)) :
    List (SymbolId × TerminalSet) :=
  (items.filterMap b.demand?).foldl raise closure

/-- Meets the demands of the non-terminals from a position of the closure on, one after another and
with the sets known by then. Those that are added on the way come last and have their turn too. -/
def sweep (b : Basis) : Nat → Nat → List (SymbolId × TerminalSet) →
    List (SymbolId × TerminalSet)
  | 0, _, closure => closure
  | fuel + 1, i, closure =>
    match closure[i]? with
    | none => closure
    | some (s, set) => sweep b fuel (i + 1) (meet b (b.openings s set) closure)

/-- Meets the demands of all items once: those of the kernel, then those of the closure. -/
def spread (b : Basis) (st : State) : State :=
  { st with closure := sweep b (b.productions.width + 1) 0 (meet b st.kernel st.closure) }

/-- The state with its closure completed. A round adds a non-terminal or a lookahead, or it is the
last one, which bounds their number. -/
def close (b : Basis) (st : State) : State :=
  untilStable (spread b) ((b.productions.width + 1) * (b.productions.width + 1) + 1) st

/-! ## Transitions -/

/-- Adds an item to the group of a part; a new group comes last. -/
def addToGroup (groups : List (Part × List Item)) (part : Part) (item : Item) :
    List (Part × List Item) :=
  match groups with
  | [] => [(part, [item])]
  | (p, items) :: rest =>
    if p = part then (p, items ++ [item]) :: rest else (p, items) :: addToGroup rest part item

/-- The kernels entered over each part that follows a dot, in the order of the items. -/
def successors (b : Basis) (st : State) : List (Part × List Item) :=
  let groups := (st.items b).foldl
    (fun groups item =>
      match b.remaining item.key with
      | part :: _ => addToGroup groups part (b.advance item)
      | [] => groups) []
  groups.map fun g => (g.1, Item.sort g.2)

/-- The state entered over a part. -/
def target? (st : State) (part : Part) : Option StateId := st.transitions.lookup part

/-- Records the state entered over a part. -/
def setTarget (st : State) (part : Part) (dest : StateId) : State :=
  { st with
    transitions :=
      if st.transitions.any fun t => t.1 == part then
        st.transitions.map fun t => if t.1 = part then (part, dest) else t
      else st.transitions ++ [(part, dest)] }

/-- The state with the lookaheads of another kernel of the same keys added to its own. -/
def merge (st : State) (kernel : List Item) : State :=
  { st with
    kernel := st.kernel.zipWith (fun a b => ⟨a.key, a.lookaheads.union b.lookaheads⟩) kernel }

end State

end ShiftReduce
