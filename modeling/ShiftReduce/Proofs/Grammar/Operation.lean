import ShiftReduce.Proofs.Grammar.FragmentLevel
import Mathlib.Order.Monotone.Defs
/-!
# Grammars in the making

A grammar is made by one call after another: symbols are interned, rules and shorthands are added,
levels are declared and inherited, a rule is made the accepted one, a fragment is taken. A call may
be refused and still have changed the grammar, as a shorthand that has interned its non-terminal and
added the rules before the refused one.

Whatever is called and whatever of it is refused, the grammar stays valid: rules are numbered by
position, define non-terminals by clauses of known symbols that are not empty, and the first one
defines the accepted symbol. Accepting a rule takes a rule that alone defines its target, brings it
to the front and changes nothing else but the numbers.

Main statements: `Grammar.Valid.run`, `Grammar.exists_acceptRule_iff` and
`Grammar.movedToFront_of_acceptRule`.
-/

namespace ShiftReduce

namespace Grammar

variable {g g' : Grammar} {id : RuleId} {top : Rule}

/-! ## Calls and runs -/

/-- A call that may change a grammar. -/
inductive Operation where
  | rename (name : String)
  | terminal (name : String)
  | nonterminal (name : String)
  | addRule (target : SymbolId) (clause : List SymbolId) (settings : List RuleSetting)
  | oneOf (symbols : List SymbolId)
  | optional (symbols : List SymbolId)
  | oneOrMore (symbols : List SymbolId)
  | zeroOrMore (symbols : List SymbolId)
  | listOf (allowEmpty : Bool) (separator item : SymbolId)
  | declareLevel (level : Nat) (symbols : List SymbolId)
  | acceptRule (id : RuleId)
  | inheritLevels
  /-- Takes the fragment for a symbol and goes on with it or with what it is taken from. -/
  | fragment (s : SymbolId) (keep : Bool)

/-- The grammar after a call that leaves it alone when it is refused. -/
def attempt (g : Grammar) : Except GrammarError Grammar → Grammar × Except GrammarError Unit
  | .ok g' => (g', .ok ())
  | .error e => (g, .error e)

/-- The grammar after a shorthand, and whether it was refused. -/
def withoutSymbol (made : Grammar × Except GrammarError SymbolId) :
    Grammar × Except GrammarError Unit :=
  (made.1, made.2.map fun _ => ())

/-- The grammar after a call, and whether the call was refused. -/
def perform (g : Grammar) : Operation → Grammar × Except GrammarError Unit
  | .rename name => ({ g with name := some name }, .ok ())
  | .terminal name => ((g.terminal name).2, .ok ())
  | .nonterminal name => ((g.nonterminal name).2, .ok ())
  | .addRule target clause settings =>
    g.attempt ((g.addRule target clause settings).map Prod.snd)
  | .oneOf symbols => withoutSymbol (g.oneOf symbols)
  | .optional symbols => withoutSymbol (g.optional symbols)
  | .oneOrMore symbols => withoutSymbol (g.oneOrMore symbols)
  | .zeroOrMore symbols => withoutSymbol (g.zeroOrMore symbols)
  | .listOf allowEmpty separator item => withoutSymbol (g.listOf allowEmpty separator item)
  | .declareLevel level symbols => (g.declareLevel level symbols, .ok ())
  | .acceptRule id => g.attempt (g.acceptRule id)
  | .inheritLevels => (g.inheritLevels, .ok ())
  | .fragment s keep =>
    match (g.fragment s).2 with
    | .error e => ((g.fragment s).1, .error e)
    | .ok f => (if keep then (g.fragment s).1.resolve f else (g.fragment s).1, .ok ())

/-- The grammar after a list of calls, of which any may be refused. -/
def run (g : Grammar) (ops : List Operation) : Grammar :=
  ops.foldl (fun g op => (g.perform op).1) g

lemma fst_withoutSymbol (made : Grammar × Except GrammarError SymbolId) :
    (withoutSymbol made).1 = made.1 := rfl

/-! ## What a call and a run keep -/

lemma Valid.attempt (hg : g.Valid) {result : Except GrammarError Grammar}
    (h : ∀ g', result = .ok g' → g'.Valid) : (g.attempt result).1.Valid := by
  cases result with
  | error e => exact hg
  | ok g' => exact h g' rfl

lemma Valid.withoutSymbol {made : Grammar × Except GrammarError SymbolId} (h : made.1.Valid) :
    (withoutSymbol made).1.Valid := h

/-- Every call keeps a grammar valid, also one that is refused. -/
lemma Valid.perform (hg : g.Valid) (op : Operation) : (g.perform op).1.Valid := by
  cases op with
  | rename name =>
    exact ⟨hg.reserved, hg.ids, hg.target_nonterminal, hg.clause_known, hg.clause_ne_nil,
      hg.accepts_first⟩
  | terminal name => exact hg.terminal name
  | nonterminal name => exact hg.nonterminal name
  | addRule target clause settings =>
    refine hg.attempt fun g' h => ?_
    cases hadd : g.addRule target clause settings with
    | error e => rw [hadd] at h; cases h
    | ok added =>
      rw [hadd] at h
      cases h
      exact hg.addRule hadd
  | oneOf symbols | optional symbols | oneOrMore symbols | zeroOrMore symbols
  | listOf allowEmpty separator item =>
    exact Valid.withoutSymbol (hg.define _ _)
  | declareLevel level symbols => exact hg.declareLevel level symbols
  | acceptRule id => exact hg.attempt fun g' h => hg.acceptRule h
  | inheritLevels => exact hg.inheritLevels
  | fragment s keep =>
    rw [Grammar.perform]
    split
    · exact hg.fragment s
    · next f hf =>
      cases keep with
      | false => exact hg.fragment s
      | true => exact hg.resolve hf

lemma Valid.run (hg : g.Valid) (ops : List Operation) : (g.run ops).Valid := by
  induction ops generalizing g with
  | nil => exact hg
  | cons op ops ih => exact ih (hg.perform op)

lemma nodup_define (h : g.symbols.entries.Nodup) (name : String)
    (alternatives : SymbolId → List Alternative) :
    (g.define name alternatives).1.symbols.entries.Nodup := by
  rw [symbols_define]
  exact SymbolTable.nodup_intern h _ _

/-- No call puts a symbol in twice. -/
lemma nodup_perform (h : g.symbols.entries.Nodup) (op : Operation) :
    (g.perform op).1.symbols.entries.Nodup := by
  cases op with
  | rename | declareLevel | inheritLevels => exact h
  | terminal name => exact SymbolTable.nodup_intern h _ _
  | nonterminal name => exact SymbolTable.nodup_intern h _ _
  | addRule target clause settings =>
    rw [perform]
    cases hadd : g.addRule target clause settings with
    | error e => exact h
    | ok added => exact symbols_of_addRule hadd ▸ h
  | oneOf | optional | oneOrMore | zeroOrMore | listOf =>
    rw [perform, fst_withoutSymbol]
    exact nodup_define h _ _
  | acceptRule id =>
    rw [perform]
    cases haccept : g.acceptRule id with
    | error e => exact h
    | ok g' => exact symbols_of_acceptRule haccept ▸ h
  | fragment s keep =>
    have hfragment : (g.fragment s).1.symbols.entries.Nodup := (symbols_fragment g s).symm ▸ h
    rw [perform]
    split
    · exact hfragment
    · next f hf =>
      cases keep with
      | false => exact hfragment
      | true =>
        cases f with
        | whole => exact hfragment
        | part g' =>
          -- a fragment of its own has one more symbol, its start
          rw [fragment_part hf]
          exact SymbolTable.nodup_intern h _ _

lemma nodup_run (h : g.symbols.entries.Nodup) (ops : List Operation) :
    (g.run ops).symbols.entries.Nodup := by
  induction ops generalizing g with
  | nil => exact h
  | cons op ops ih => exact ih (nodup_perform h op)

/-- A valid grammar accepts nothing only as long as it has no rules. -/
lemma Valid.target_eq_none_iff (hg : g.Valid) : g.target = none ↔ g.rules = [] := by
  rw [hg.accepts_first, Option.map_eq_none_iff, List.head?_eq_none_iff]

/-! ## Accepting a rule -/

/-- The position a rule has after the rule at position `id` has moved to the front. -/
def frontPlace (id i : Nat) : Nat :=
  if i = id then 0 else if i < id then i + 1 else i

/-- The other rules keep their order. -/
lemma strictMonoOn_frontPlace (id : Nat) : StrictMonoOn (frontPlace id) {i | i ≠ id} := by
  intro i (hi : i ≠ id) j (hj : j ≠ id) hlt
  rw [frontPlace, frontPlace, if_neg hi, if_neg hj]
  split <;> split <;> omega

/-- One rule has moved to the front, and but for the numbers all rules are what they were. -/
structure MovedToFront (g g' : Grammar) (id : RuleId) : Prop where
  name : g'.name = g.name
  symbols : g'.symbols = g.symbols
  levels : g'.levels = g.levels
  target : g'.target = (g.rules[id]?).map Rule.target
  rules : ∀ i, g'.rules[frontPlace id i]? =
    (g.rules[i]?).map fun r => { r with id := frontPlace id i }
  front : frontPlace id id = 0
  order : StrictMonoOn (frontPlace id) {i | i ≠ id}

lemma getElem?_cons_eraseIdx {rules : List Rule} (htop : rules[id]? = some top) (i : Nat) :
    (top :: rules.eraseIdx id)[frontPlace id i]? = rules[i]? := by
  rw [frontPlace]
  split
  · next h => rw [List.getElem?_cons_zero, h, htop]
  · split
    · next h => rw [List.getElem?_cons_succ, List.getElem?_eraseIdx_of_lt h]
    · next hne hle =>
      -- the rules behind the one that moves stay where they are
      obtain ⟨j, rfl⟩ := Nat.exists_eq_succ_of_ne_zero (show i ≠ 0 by omega)
      rw [List.getElem?_cons_succ, List.getElem?_eraseIdx_of_ge (by omega)]

lemma movedToFront_of_acceptRule (h : g.acceptRule id = .ok g') : MovedToFront g g' id := by
  obtain ⟨top, htop, rfl⟩ := acceptRule_eq_ok h
  exact
    { name := rfl
      symbols := rfl
      levels := rfl
      target := by rw [show g.rules[id]? = some top from htop, Option.map_some]
      rules := fun i => by
        rw [renumber, List.getElem?_mapIdx, getElem?_cons_eraseIdx htop]
      front := if_pos rfl
      order := strictMonoOn_frontPlace id }

/-- What holds before a position and behind it is what holds at every other position. -/
lemma forall_take_drop_iff {rules : List Rule} {p : Rule → Prop} :
    ((∀ r ∈ rules.take id, p r) ∧ ∀ r ∈ rules.drop (id + 1), p r) ↔
      ∀ (i : Nat) (r : Rule), rules[i]? = some r → i ≠ id → p r := by
  constructor
  · rintro ⟨hbefore, hbehind⟩ i r hr hne
    rcases Nat.lt_or_gt_of_ne hne with hlt | hgt
    · have hmem : (rules.take id)[i]? = some r := by rw [List.getElem?_take_of_lt hlt, hr]
      exact hbefore r (List.mem_of_getElem? hmem)
    · have hmem : (rules.drop (id + 1))[i - (id + 1)]? = some r := by
        rw [List.getElem?_drop, Nat.add_sub_cancel' hgt, hr]
      exact hbehind r (List.mem_of_getElem? hmem)
  · intro hothers
    refine ⟨fun r hr => ?_, fun r hr => ?_⟩
    · obtain ⟨i, hi, rfl⟩ := List.mem_take_iff_getElem.mp hr
      exact hothers i _ (List.getElem?_eq_getElem _) (by omega)
    · obtain ⟨i, hi, rfl⟩ := List.mem_drop_iff_getElem.mp hr
      exact hothers _ _ (List.getElem?_eq_getElem _) (by omega)

/-- A rule is alone in defining its target if all other positions have other targets. -/
lemma length_rulesOf_eq_one_iff (htop : g.rules[id]? = some top) :
    (g.rulesOf top.target).length = 1 ↔
      ∀ (i : Nat) (r : Rule), g.rules[i]? = some r → r.target = top.target → i = id := by
  have hsplit := rules_eq_append htop
  have hnone : ∀ l : List Rule, (l.filter fun r => r.target == top.target).length = 0 ↔
      ∀ r ∈ l, r.target ≠ top.target := by
    intro l
    simp only [List.length_eq_zero_iff, List.filter_eq_nil_iff, beq_iff_eq, ne_eq]
  have hcount : (g.rulesOf top.target).length = 1 ↔
      (∀ r ∈ g.rules.take id, r.target ≠ top.target) ∧
        ∀ r ∈ g.rules.drop (id + 1), r.target ≠ top.target := by
    rw [← hnone, ← hnone, rulesOf]
    conv_lhs => rw [hsplit]
    rw [List.filter_append, List.filter_cons, if_pos (beq_self_eq_true _), List.length_append,
      List.length_cons]
    omega
  rw [hcount, forall_take_drop_iff (p := fun r => r.target ≠ top.target)]
  exact ⟨fun h i r hr htarget => by_contra fun hne => h i r hr hne htarget,
    fun h i r hr hne htarget => hne (h i r hr htarget)⟩

lemma exists_acceptRule_iff : (∃ g', g.acceptRule id = .ok g') ↔
    ∃ top, g.rules[id]? = some top ∧
      ∀ (i : Nat) (r : Rule), g.rules[i]? = some r → r.target = top.target → i = id := by
  constructor
  · rintro ⟨g', h⟩
    rw [acceptRule] at h
    split at h
    · cases h
    · next top htop =>
      dsimp only at h
      split at h
      · next hone => exact ⟨top, htop, (length_rulesOf_eq_one_iff htop).mp hone⟩
      · cases h
  · rintro ⟨top, htop, halone⟩
    have htop' : g.rule? id = some top := htop
    rw [acceptRule, htop']
    exact ⟨_, if_pos ((length_rulesOf_eq_one_iff htop).mpr halone)⟩

end Grammar

end ShiftReduce
