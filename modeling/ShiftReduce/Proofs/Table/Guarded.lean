import ShiftReduce.Proofs.Automaton.GuardedSearch
import ShiftReduce.Proofs.Grammar.Reach
import ShiftReduce.Proofs.Table.Clash
/-!
# Tables built by index, with guarded accesses

What was done for the search for states is done here for what comes before and after it. A grammar
is lowered with the rules looked up by number, the symbols in the symbol table and the non-terminals
in the line-up; a table is filled from the states that are kept, where a symbol leads to its
transition, an index to its symbol and a symbol to its column. An item whose symbol has no
transition, a reduction by a rule that the grammar has not, and a cell that is not there are
refused, where the table is filled by passing over them.

For a valid grammar whose keys fit, and which has no more symbols than there are words, the result
is the table, or the error, that is had by symbol and without guards. While a row is filled it keeps
its width, and every reduction in it names a rule.

Main statement: `Guarded.grammarTable_eq`.
-/

namespace ShiftReduce.Guarded

variable {g : Grammar} {target : SymbolId} {t : ActionTable} {b : LoweredBasis} {state : StateId}
  {x : List Nat × Stored} {st : State} {row : Row} {item : Item} {c : SymbolId}
  {a incoming : Action}

/-! ## Lowering -/

/-- A symbol of a clause by index. It must be in the symbol table, and a non-terminal in the
line-up. -/
def lowerSymbol (g : Grammar) (s : SymbolId) : Option LoweredSymbol := do
  let entry ← g.symbols.get? s
  match entry.kind with
  | .terminal => some (.token s)
  | .nonterminal => (g.byNonterminal.place? s).map .nonterminal

/-- The production of a rule of a number, which must be there. -/
def lowerRule (g : Grammar) (n : Nat) (id : RuleId) : Option LoweredProduction := do
  let r ← g.rule? id
  return ⟨n, ← r.symbols.mapM (lowerSymbol g), some id⟩

/-- Lays the productions of one more non-terminal after those that are there, and notes the span
that they take. -/
def lowerGroup (g : Grammar) (target : SymbolId)
    (l : List LoweredProduction × OrderedMap SymbolId Span) (x : (SymbolId × List RuleId) × Nat) :
    Option (List LoweredProduction × OrderedMap SymbolId Span) := do
  let start ← if x.1.1 = g.startSymbol then
      (lowerSymbol g target).map fun symbol => [⟨x.2, [symbol], none⟩]
    else some []
  let rules ← x.1.2.mapM (lowerRule g x.2)
  let prods := l.1 ++ start ++ rules
  return (prods, l.2.alter x.1.1 ⟨0, 0⟩ fun _ => ⟨l.1.length, prods.length⟩)

/-- The lowered grammar that accepts `target`. -/
def lowered (g : Grammar) (target : SymbolId) : Option Lowered := do
  let l ← g.byNonterminal.zipIdx.foldlM (lowerGroup g target) ([], [])
  return ⟨l.1, l.2, g.symbols.size, 0, target⟩

section Lower

variable (hg : g.Valid) (hsize : g.symbols.size ≤ wordRange)

include hg hsize

lemma lowerSymbol_eq (hc : c < g.symbols.size)
    (hnamed : g.symbols.isNonterminal c = true → c ∈ g.named) :
    lowerSymbol g c = some (g.lowerSymbol c) := by
  have hentry : g.symbols.get? c = some g.symbols.entries[c] := List.getElem?_eq_getElem hc
  rw [lowerSymbol, hentry, Option.bind_eq_bind, Option.bind_some]
  cases hkind : g.symbols.entries[c].kind with
  | terminal =>
    have hnonterminal : g.symbols.isNonterminal c = false := by
      simp [SymbolTable.isNonterminal, SymbolTable.kind?, hentry, hkind]
    rw [Grammar.Valid.lowerSymbol_of_token hnonterminal]
  | nonterminal =>
    have hnonterminal : g.symbols.isNonterminal c = true := by
      simp [SymbolTable.isNonterminal, SymbolTable.kind?, hentry, hkind]
    obtain ⟨n, hn, hlower⟩ := hg.lowerSymbol_of_mem hsize (hnamed hnonterminal)
    rw [hlower, hg.place?_byNonterminal hsize hn, Option.map_some]

lemma lowerRule_eq {r : Rule} (hr : r ∈ g.rules) (n : Nat) : lowerRule g n r.id =
    some ⟨n, r.symbols.map g.lowerSymbol, some r.id⟩ := by
  have hsymbols : r.symbols.mapM (lowerSymbol g) = some (r.symbols.map g.lowerSymbol) :=
    mapM_eq_some fun s hs => lowerSymbol_eq hg hsize (hg.symbol_lt_size hr hs)
      fun hnonterminal => Grammar.mem_named.mpr (.inr ⟨⟨r, hr, hs⟩, hnonterminal⟩)
  rw [lowerRule, hg.rule?_id hr, Option.bind_eq_bind, Option.bind_some, hsymbols]
  rfl

/-- A grammar is lowered without an access out of range. -/
lemma lowered_eq (ht : g.target = some target) : lowered g target = some (g.lowered target) := by
  have htarget : lowerSymbol g target = some (g.lowerSymbol target) :=
    lowerSymbol_eq hg hsize (SymbolTable.lt_size_of_isNonterminal (hg.isNonterminal_target ht))
      fun _ => hg.mem_named_of_target ht
  have hgroup : ∀ x ∈ g.byNonterminal.zipIdx, ∀ l, True →
      lowerGroup g target l x = some (g.lowerGroup target l x) ∧ True := by
    rintro ⟨⟨s, ids⟩, n⟩ hx ⟨prods, nts⟩ -
    refine ⟨?_, trivial⟩
    have hmem := List.fst_mem_of_mem_zipIdx hx
    rw [hg.byNonterminal_eq hsize] at hmem
    obtain ⟨s, -, heq⟩ := List.mem_map.mp hmem
    obtain ⟨rfl, rfl⟩ := Prod.mk.inj heq
    have hrules : ((g.rulesOf s).map Rule.id).mapM (lowerRule g n) =
        some ((g.rulesOf s).map fun r => ⟨n, r.symbols.map g.lowerSymbol, some r.id⟩) := by
      rw [List.mapM_map]
      exact mapM_eq_some fun r hr => lowerRule_eq hg hsize (Grammar.mem_rulesOf.mp hr).1 n
    have hblock : g.loweredBlock target ((s, (g.rulesOf s).map Rule.id), n) =
        (if s = g.startSymbol then [⟨n, [g.lowerSymbol target], none⟩] else []) ++
          (g.rulesOf s).map fun r => ⟨n, r.symbols.map g.lowerSymbol, some r.id⟩ :=
      congrArg (_ ++ ·) (hg.filterMap_rulesOf
        (fun id r => LoweredProduction.mk n (r.symbols.map g.lowerSymbol) (some id)) s)
    rw [lowerGroup, hrules, Grammar.lowerGroup_eq_alter, hblock]
    by_cases hs : s = g.startSymbol
    · simp [hs, htarget, Nat.add_comm]
    · simp [hs]
  rw [lowered, (foldlM_eq_some hgroup trivial).1]
  rfl

end Lower

/-! ## Rows -/

/-- Is it no reduction, or one by a rule of the grammar? -/
def knows (g : Grammar) : Action → Bool
  | .reduce rule => (g.rule? rule).isSome
  | _ => true

/-- Offers an action to a cell, which must be there. The rules of the two actions that may meet in
it must be known. -/
def put (g : Grammar) (state : StateId) (lookahead : SymbolId) (row : Row) (incoming : Action) :
    Option Row := do
  let cell ← row.actions[lookahead]?
  if knows g incoming && cell.all (knows g) then some (row.put g state lookahead incoming) else none

/-- Fills a cell of the goto table, which must be there. -/
def putGoto (row : Row) (s : SymbolId) (dest : StateId) : Option Row :=
  if s < row.gotos.length then some { row with gotos := row.gotos.set s (some dest) } else none

/-- Enters the rule of an empty clause in the `ε` column, which must be there. -/
def putFallback (row : Row) (rule : RuleId) : Option Row :=
  if SymbolId.epsilon < row.actions.length then some (row.putFallback rule) else none

/-- Fills in what one item of a state calls for. The symbol after its dot must have a transition. -/
def addItem (g : Grammar) (b : LoweredBasis) (state : StateId) (st : Stored) (row : Row)
    (item : Item) : Option Row := do
  let prod ← b.production? item.key
  if b.dotOf item.key < prod.symbols.length then
    let symbol ← prod.symbols[b.dotOf item.key]?
    let dest ← st.transitions.lookup symbol
    match symbol with
    | .token s => put g state s row (.shift dest)
    | .nonterminal n =>
      let (s, _) ← b.lowered.nts[n]?
      putGoto row s dest
  else
    match prod.rule with
    | none => put g state SymbolId.eoi row .accept
    | some rule =>
      let row ← item.lookaheads.toList.foldlM (fun row s => put g state s row (.reduce rule)) row
      if prod.symbols.isEmpty then putFallback row rule else some row

/-- The rows of a state. -/
def ofState (g : Grammar) (b : LoweredBasis) (state : StateId) (st : Stored) : Option Row :=
  st.items.foldlM (addItem g b state st) (Row.blank b.lowered.width)

/-- The row has the width of the table, and all its reductions are by rules of the grammar. -/
structure Filled (g : Grammar) (row : Row) : Prop where
  actions_length : row.actions.length = g.symbols.size
  gotos_length : row.gotos.length = g.symbols.size
  known : ∀ c a, row.Has c a → knows g a = true

namespace Filled

lemma put (h : Filled g row) (state : StateId) (c : SymbolId) (hknown : knows g incoming = true) :
    Filled g (row.put g state c incoming) where
  actions_length := Row.length_put.trans h.actions_length
  gotos_length := by rw [Row.gotos_put]; exact h.gotos_length
  known c' a hhas := by
    rcases Row.has_of_put hhas with hold | ⟨-, rfl | rfl⟩
    · exact h.known c' a hold
    · exact hknown
    · rfl

lemma putFallback (h : Filled g row) {rule : RuleId} (hknown : knows g (.reduce rule) = true) :
    Filled g (row.putFallback rule) where
  actions_length := by simpa [Row.putFallback] using h.actions_length
  gotos_length := h.gotos_length
  known c a hhas := by
    rcases Row.has_of_putFallback hhas with hold | ⟨-, rfl⟩
    · exact h.known c a hold
    · exact hknown

lemma blank (g : Grammar) : Filled g (Row.blank g.symbols.size) where
  actions_length := List.length_replicate
  gotos_length := List.length_replicate
  known c a hhas := absurd hhas (Row.not_has_blank _ c a)

end Filled

lemma put_eq (h : Filled g row) (hc : c < g.symbols.size) (hknown : knows g incoming = true) :
    put g state c row incoming = some (row.put g state c incoming) := by
  have hlt : c < row.actions.length := h.actions_length ▸ hc
  have hcell : row.actions[c]? = some row.actions[c] := List.getElem?_eq_getElem hlt
  have hall : row.actions[c].all (knows g) = true := by
    cases hheld : row.actions[c] with
    | none => rfl
    | some a => exact h.known c a (hcell.trans (congrArg some hheld))
  rw [put, hcell, Option.bind_eq_bind, Option.bind_some, hknown, hall]
  rfl

lemma putGoto_eq (h : Filled g row) (hc : c < g.symbols.size) (dest : StateId) :
    putGoto row c dest = some { row with gotos := row.gotos.set c (some dest) } ∧
      Filled g { row with gotos := row.gotos.set c (some dest) } :=
  ⟨if_pos (h.gotos_length ▸ hc), h.actions_length, List.length_set.trans h.gotos_length, h.known⟩

section Fill

variable (h : g.Builds target t) (hst : st ∈ (g.automatonOf target).states)

include h hst

/-- All items of a state are productions with a dot in them. -/
lemma areDotted_of_mem_states : AreDotted (g.productions target)
    (st.items (g.productions target).basis) := fun _ hitem =>
  (h.isLalr.reachable st hst).isDotted h.proper (h.dotted_mem_closure hst hitem)

lemma knows_reduce {rule : RuleId}
    (hrule : ((g.productions target).basis.production item.key).rule = some rule)
    (hitem : item ∈ st.items (g.productions target).basis) : knows g (.reduce rule) = true := by
  obtain ⟨prod, hp, -⟩ := areDotted_of_mem_states h hst item hitem
  rw [Productions.production_eq hp] at hrule
  obtain ⟨r, hr, -⟩ := h.exists_rule hp hrule
  rw [knows, hr]
  rfl

/-- A reduction is offered on one lookahead of its item after another. -/
lemma foldlM_put_eq {rule : RuleId} (state : StateId)
    (hrule : ((g.productions target).basis.production item.key).rule = some rule)
    (hitem : item ∈ st.items (g.productions target).basis) (hrow : Filled g row) :
    item.lookaheads.toList.foldlM (fun row s => put g state s row (.reduce rule)) row =
        some (item.lookaheads.toList.foldl (fun row s => row.put g state s (.reduce rule)) row) ∧
      Filled g (item.lookaheads.toList.foldl (fun row s => row.put g state s (.reduce rule)) row) :=
  have hknown := knows_reduce h hst hrule hitem
  foldlM_eq_some (fun s hs row hrow => by
    have hmem := (h.isLalr.lookaheads st hst item hitem s).mp (TerminalSet.mem_toList.mp hs)
    exact ⟨put_eq hrow (hmem.lt_width h.proper) hknown, hrow.put state s hknown⟩) hrow

variable (hb : b.Mirrors (g.productions target)) (hsame : Same b (g.productions target) x st)

include hb hsame

/-- Filling in an item of a state has a result, which is filled as well. -/
lemma addItem_eq (hitem : item ∈ st.items (g.productions target).basis) (hrow : Filled g row) :
    addItem g b state x.2 row item =
        some (row.addItem g (g.productions target).basis state st item) ∧
      Filled g (row.addItem g (g.productions target).basis state st item) := by
  have hdotted := areDotted_of_mem_states h hst item hitem
  have hmem := h.dotted_mem_closure hst hitem
  obtain ⟨prod, hprods, hprod, hproduction, hdot⟩ := exists_production hb hdotted
  have hrest : (g.productions target).basis.remaining item.key =
      (prod.symbols.drop (b.dotOf item.key)).map b.lowered.part := by
    rw [Basis.remaining, hproduction, Lowered.production, List.map_drop, dotOf_eq hb]
  rw [addItem, hprod, Option.bind_eq_bind, Option.bind_some]
  by_cases hlt : b.dotOf item.key < prod.symbols.length
  · have hsymbol := hb.lowered.inRange h.proper hprods _ (List.getElem_mem hlt)
    rw [List.drop_eq_getElem_cons hlt, List.map_cons] at hrest
    rw [if_pos hlt, List.getElem?_eq_getElem hlt, Option.bind_eq_bind, Option.bind_some]
    generalize prod.symbols[b.dotOf item.key] = symbol at hrest hsymbol
    have hafter := hrest
    rw [Productions.remaining_eq_rest] at hafter
    obtain ⟨dest, hdest⟩ := h.exists_target hst hmem hafter
    have hwidth := (h.proper.symbol_lt_of_rest hafter).1
    have hlookup := (hsame.lookup symbol hsymbol).trans hdest
    cases symbol with
    | token s =>
      rw [Lowered.part] at hrest hdest hwidth
      simp only [Row.addItem, hrest, hdest, hlookup]
      exact ⟨put_eq hrow hwidth rfl, hrow.put state s rfl⟩
    | nonterminal n =>
      have hindex : n < b.lowered.nts.length := hsymbol.2
      have hn : b.lowered.nts[n]? = some b.lowered.nts[n] := List.getElem?_eq_getElem hindex
      rw [Lowered.part, Lowered.ntSymbol_eq hindex] at hrest hdest hwidth
      simp only [Row.addItem, hrest, hdest, hlookup, hn]
      exact putGoto_eq hrow hwidth dest
  · rw [List.drop_eq_nil_of_le (Nat.not_lt.mp hlt), List.map_nil] at hrest
    have hrule : ((g.productions target).basis.production item.key).rule = prod.rule := by
      rw [hproduction, Lowered.production]
    have hempty : ((g.productions target).basis.production item.key).rhs.isEmpty =
        prod.symbols.isEmpty := by
      rw [hproduction, Lowered.production, List.isEmpty_map]
    rw [if_neg hlt]
    simp only [Row.addItem, hrest, hrule, hempty]
    cases hheld : prod.rule with
    | none => exact ⟨put_eq hrow h.proper.eoi_lt rfl, hrow.put state SymbolId.eoi rfl⟩
    | some rule =>
      have hheld := hrule.trans hheld
      obtain ⟨hputs, hfilled⟩ := foldlM_put_eq h hst state hheld hitem hrow
      simp only [hputs]
      split
      · have hepsilon : SymbolId.epsilon < g.symbols.size := h.valid.two_le_size
        exact ⟨if_pos (hfilled.actions_length ▸ hepsilon),
          hfilled.putFallback (knows_reduce h hst hheld hitem)⟩
      · exact ⟨rfl, hfilled⟩

/-- No access is out of range while the rows of a state are filled. -/
lemma ofState_eq : ofState g b state x.2 =
      some (Row.ofState g (g.productions target).basis state st) ∧
    Filled g (Row.ofState g (g.productions target).basis state st) := by
  rw [ofState, hsame.items, hb.lowered.width]
  exact foldlM_eq_some (fun item hitem row hrow => addItem_eq h hst hb hsame hitem hrow)
    (Filled.blank g)

end Fill

/-! ## Tables -/

/-- The terminals that have an action other than `fail`. Every column must be that of a symbol. -/
def expected (g : Grammar) (row : Row) : Option (List SymbolId) := do
  let _ ← (List.range row.actions.length).mapM g.symbols.get?
  return row.expected g

/-- The tables of the states that are kept. -/
def table (g : Grammar) (b : LoweredBasis) (states : StateStore) : Option ActionTable := do
  let rows ← states.zipIdx.mapM fun x => ofState g b x.2 x.1.2
  return {
    fingerprint := g.fingerprint
    width := b.lowered.width
    actions := rows.map Row.actions
    gotos := rows.map Row.gotos
    expected := ← rows.mapM (expected g)
    conflicts := rows.flatMap Row.conflicts }

lemma expected_eq (h : Filled g row) : expected g row = some (row.expected g) := by
  have hcolumns : (List.range row.actions.length).mapM g.symbols.get? =
      some ((List.range row.actions.length).map fun s => (g.symbols.get? s).getD default) :=
    mapM_eq_some fun s hs => by
      have hs : s < g.symbols.size := h.actions_length ▸ List.mem_range.mp hs
      rw [SymbolTable.get?, List.getElem?_eq_getElem hs, Option.getD_some]
  rw [expected, hcolumns]
  rfl

/-- What is had from two lists entry by entry. -/
lemma mapM_of_forall₂ {α β γ : Type} {r : α → β → Prop} {l : List α} {l' : List β}
    {f? : α → Option γ} {f : β → γ} (h : List.Forall₂ r l l')
    (hf : ∀ x, ∀ x' ∈ l', r x x' → f? x = some (f x')) : l.mapM f? = some (l'.map f) := by
  induction h with
  | nil => rfl
  | @cons x x' l l' hx _ ih =>
    rw [List.mapM_cons, hf x x' List.mem_cons_self hx,
      ih fun x x' hx' => hf x x' (List.mem_cons_of_mem _ hx')]
    rfl

lemma forall₂_zipIdx {α β : Type} {r : α → β → Prop} {l : List α} {l' : List β}
    (h : List.Forall₂ r l l') (k : Nat) :
    List.Forall₂ (fun x x' => r x.1 x'.1 ∧ x.2 = x'.2) (l.zipIdx k) (l'.zipIdx k) := by
  induction h generalizing k with
  | nil => exact .nil
  | cons hx _ ih => exact .cons ⟨hx, rfl⟩ (ih (k + 1))

lemma table_eq (h : g.Builds target t) (hb : b.Mirrors (g.productions target))
    {states : StateStore} (hstates : List.Forall₂ (Same b (g.productions target)) states
      (g.automatonOf target).states) : table g b states = some t := by
  have hmem : ∀ x' ∈ (g.automatonOf target).states.zipIdx, x'.1 ∈ (g.automatonOf target).states :=
    fun x' hx' => List.fst_mem_of_mem_zipIdx hx'
  have hrows : states.zipIdx.mapM (fun x => ofState g b x.2 x.1.2) =
      some ((g.automatonOf target).states.zipIdx.map fun x =>
        Row.ofState g (g.productions target).basis x.2 x.1) := by
    refine mapM_of_forall₂ (forall₂_zipIdx hstates 0) ?_
    rintro x x' hx' ⟨hsame, hstate⟩
    rw [hstate]
    exact (ofState_eq h (hmem x' hx') hb hsame).1
  have hexpected : ∀ row ∈ (g.automatonOf target).states.zipIdx.map (fun x =>
      Row.ofState g (g.productions target).basis x.2 x.1),
      expected g row = some (row.expected g) := by
    intro row hrow
    obtain ⟨x', hx', rfl⟩ := List.mem_map.mp hrow
    obtain ⟨x, -, hsame⟩ : ∃ x ∈ states, Same b (g.productions target) x x'.1 := by
      obtain ⟨i, hi⟩ := List.mem_iff_getElem?.mp (hmem x' hx')
      obtain ⟨x, hx, hsame⟩ := exists_getElem?_of_forall₂ hstates hi
      exact ⟨x, List.mem_of_getElem? hx, hsame⟩
    exact expected_eq (ofState_eq h (hmem x' hx') hb hsame).2
  rw [table, hrows, Option.bind_eq_bind, Option.bind_some, mapM_eq_some hexpected, h.table_eq,
    Automaton.table, List.mapIdx_eq_zipIdx_map, hb.lowered.width]
  rfl

/-! ## Grammars -/

/-- The error for a visited symbol that no rule defines. The rule that led to it must be known. -/
def undefinedAt (g : Grammar) (v : Grammar.Visit) : Option GrammarError :=
  match v.via with
  | none => some (.undefined (g.symbols.name v.symbol) none)
  | some id =>
    (g.rule? id).map fun r => .undefined (g.symbols.name v.symbol) (some (g.ruleText r))

/-- Succeeds when every non-terminal reachable from the accepted symbol is defined by a rule. -/
def validate (g : Grammar) : Option (Except GrammarError Unit) :=
  match g.target with
  | none => some (.error .noRules)
  | some target =>
    match (g.reach target).find? fun v => (g.rulesOf v.symbol).isEmpty with
    | some v => (undefinedAt g v).map .error
    | none => some (.ok ())

/-- The action table of a grammar, or the error if something reachable is undefined. There is no
result if an access was out of range on the way, or if an iteration has not come to its end. -/
def grammarTable (fuel : Nat) (g : Grammar) : Option (Except GrammarError ActionTable) := do
  match ← validate g, g.target with
  | .error e, _ => return .error e
  | .ok _, none => return .error .noRules
  | .ok _, some target =>
    let b ← basis (← lowered g target) fuel
    return .ok (← table g b (← automaton b fuel))

lemma undefinedAt_eq (hg : g.Valid) {s : SymbolId} {v : Grammar.Visit} (hv : v ∈ g.reach s) :
    undefinedAt g v = some (g.undefinedAt v) := by
  rcases Grammar.mem_explore hv with hstart | ⟨s', hmention⟩
  · rw [List.mem_singleton.mp hstart]
    rfl
  · obtain ⟨r, hr, hv⟩ := List.mem_flatMap.mp hmention
    obtain ⟨s, -, rfl⟩ := List.mem_map.mp hv
    have hrule := hg.rule?_id (Grammar.mem_rulesOf.mp hr).1
    simp only [undefinedAt, Grammar.undefinedAt, hrule, Option.bind_some, Option.map_some]

lemma validate_eq (hg : g.Valid) : validate g = some g.validate := by
  cases ht : g.target with
  | none => simp only [validate, Grammar.validate, ht]
  | some target =>
    cases hv : (g.reach target).find? fun v => (g.rulesOf v.symbol).isEmpty with
    | none => simp only [validate, Grammar.validate, ht, hv]
    | some v =>
      simp only [validate, Grammar.validate, ht, hv,
        undefinedAt_eq hg (List.mem_of_find?_eq_some hv), Option.map_some]

/-- No access is out of range while the table of a valid grammar is built, and every iteration comes
to its end. -/
theorem grammarTable_eq (hg : g.Valid) (hk : g.KeysFit) (hsize : g.symbols.size ≤ wordRange) :
    ∃ n, ∀ fuel, n ≤ fuel → grammarTable fuel g = some g.table := by
  cases hvalidate : g.validate with
  | error e =>
    refine ⟨0, fun fuel _ => ?_⟩
    rw [grammarTable, validate_eq hg, Grammar.table, Grammar.automaton, hvalidate]
    rfl
  | ok u =>
    cases ht : g.target with
    | none =>
      refine ⟨0, fun fuel _ => ?_⟩
      rw [grammarTable, validate_eq hg, Grammar.table, Grammar.automaton, hvalidate, ht]
      rfl
    | some target =>
      have hps := hg.proper_productions ht
      have hbuilds : g.Builds target ((g.automatonOf target).table g) := ⟨hg, ht, hk target ht, rfl⟩
      obtain ⟨b, -, hb, n, hbasis⟩ := basis_eq (hg.mirrors_lowered hsize ht) hps
      obtain ⟨states, m, hstates, hautomaton⟩ := automaton_eq hb hps (hk target ht)
      refine ⟨max n m, fun fuel hfuel => ?_⟩
      rw [grammarTable, validate_eq hg, Grammar.table, Grammar.automaton, hvalidate, ht]
      simp only [Option.bind_eq_bind, Option.bind_some, lowered_eq hg hsize ht,
        hbasis fuel (by omega), hautomaton fuel (by omega), table_eq hbuilds hb hstates]
      rfl

end ShiftReduce.Guarded
