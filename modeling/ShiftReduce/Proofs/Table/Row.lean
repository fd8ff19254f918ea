import ShiftReduce.Table.Build
import Mathlib.Data.List.Basic
/-!
# The rows of a state

The items of a state call for actions on certain symbols. Whatever clashes were resolved, a cell
holds nothing but an action called for on its symbol, or `fail`. If no clash was met, a cell outside
the `ε` column holds the one action that is called for, and the levels of the rules had no say.

Main statements: `Row.called_of_action`, `Row.action_of_called`, `Row.ofState_eq`,
`Row.target_of_goto` and `Row.goto_of_target`.
-/

namespace ShiftReduce

/-- An item calls for an action on a symbol, in a state with its transitions. -/
inductive Item.Calls (b : Basis) (st : State) (item : Item) : SymbolId → Action → Prop
  | shift {s : SymbolId} {β : List Part} {dest : StateId} :
      b.remaining item.key = .terminal s :: β → st.target? (.terminal s) = some dest →
      Calls b st item s (.shift dest)
  | accept : b.remaining item.key = [] → (b.production item.key).rule = none →
      Calls b st item SymbolId.eoi .accept
  | reduce {rule : RuleId} {t : SymbolId} : b.remaining item.key = [] →
      (b.production item.key).rule = some rule → t ∈ item.lookaheads →
      Calls b st item t (.reduce rule)
  | fallback {rule : RuleId} : b.remaining item.key = [] →
      (b.production item.key).rule = some rule →
      (b.production item.key).rhs.isEmpty = true →
      Calls b st item SymbolId.epsilon (.reduce rule)

/-- Some item of the state calls for the action on the symbol. -/
def State.Calls (b : Basis) (st : State) (s : SymbolId) (a : Action) : Prop :=
  ∃ item ∈ st.items b, item.Calls b st s a

lemma Item.Calls.ne_fail {b : Basis} {st : State} {item : Item} {s : SymbolId} {a : Action}
    (h : item.Calls b st s a) : a ≠ .fail := by
  cases h <;> simp

namespace TerminalSet

lemma mem_toList {a : TerminalSet} {t : SymbolId} : t ∈ a.toList ↔ t ∈ a := by
  show t ∈ a.toList ↔ a.bits.testBit t = true
  rw [toList]
  split
  · next h => simp [h]
  · next h =>
    rw [List.mem_filter, List.mem_range]
    refine ⟨fun hh => hh.2, fun ht => ⟨?_, ht⟩⟩
    by_contra hge
    have hlt : a.bits < 2 ^ t :=
      Nat.lt_of_lt_of_le Nat.lt_log2_self (Nat.pow_le_pow_right (by decide) (by omega))
    rw [Nat.testBit_lt_two_pow hlt] at ht
    exact absurd ht (by decide)

end TerminalSet

/-! ## Cells -/

namespace Grammar

variable {g : Grammar} {c : SymbolId} {existing incoming : Action} {cell : Option Action}

lemma arbitrate_mem (g : Grammar) (c : SymbolId) (dest : StateId) (rule : RuleId) :
    g.arbitrate c dest rule = .shift dest ∨ g.arbitrate c dest rule = .reduce rule ∨
      g.arbitrate c dest rule = .fail := by
  simp only [arbitrate]
  split
  · exact .inl rfl
  · split
    · exact .inr (.inl rfl)
    · split
      · exact .inl rfl
      · exact .inr (.inl rfl)
      · exact .inr (.inr rfl)

/-- One of the two actions is kept, or the cell is left at `fail`. -/
lemma settle_mem (g : Grammar) (c : SymbolId) (existing incoming : Action) :
    g.settle c existing incoming = existing ∨ g.settle c existing incoming = incoming ∨
      g.settle c existing incoming = .fail := by
  cases existing with
  | shift dest =>
    cases incoming with
    | reduce rule => exact g.arbitrate_mem c dest rule
    | shift _ | accept | fail => simp [settle]
  | reduce rule =>
    cases incoming with
    | shift dest =>
      rcases g.arbitrate_mem c dest rule with h | h | h
      · exact .inr (.inl h)
      · exact .inl h
      · exact .inr (.inr h)
    | reduce other =>
      rw [settle]
      rcases Nat.le_total rule other with h | h
      · exact .inl (by rw [Nat.min_eq_left h])
      · exact .inr (.inl (by rw [Nat.min_eq_right h]))
    | accept | fail => simp [settle]
  | accept => exact .inl (by cases incoming <;> rfl)
  | fail => cases incoming <;> simp [settle]

lemma offer_mem {a : Action} (h : g.offer c cell incoming = some a) :
    cell = some a ∨ a = incoming ∨ a = .fail := by
  cases cell with
  | none => exact .inr (.inl (Option.some.inj h).symm)
  | some existing =>
    simp only [offer] at h
    split at h
    · rcases g.settle_mem c existing incoming with hs | hs | hs
      · exact .inl (by rw [← h, hs])
      · exact .inr (.inl (by rw [← Option.some.inj h, hs]))
      · exact .inr (.inr (by rw [← Option.some.inj h, hs]))
    · exact .inl h

/-- Where nothing clashes, levels have no say. -/
lemma offer_of_not_clashes (g : Grammar) (c : SymbolId) (h : clashes cell incoming = false) :
    g.offer c cell incoming = cell.or (some incoming) := by
  cases cell with
  | none => rfl
  | some existing => simp [offer, h]

end Grammar

lemma offerFallback_mem {cell : Option Action} {rule : RuleId} {a : Action}
    (h : offerFallback cell rule = some a) : cell = some a ∨ a = .reduce rule := by
  cases cell with
  | none => exact .inr (Option.some.inj h).symm
  | some existing =>
    cases existing with
    | reduce other =>
      simp only [offerFallback] at h
      split at h
      · exact .inr (Option.some.inj h).symm
      · exact .inl h
    | shift _ | accept | fail => exact .inl h

namespace Row

variable {g g' : Grammar} {b : Basis} {state : StateId} {st : State} {row : Row} {item : Item}
  {c c' : SymbolId} {a incoming : Action}

/-! ## One offer -/

lemma gotos_put (g : Grammar) (state : StateId) (c : SymbolId) (row : Row) (incoming : Action) :
    (row.put g state c incoming).gotos = row.gotos := by
  rw [put]
  split <;> rfl

lemma getElem?_put : (row.put g state c incoming).actions[c']? =
    if c' = c then row.actions[c]?.map fun cell => g.offer c cell incoming
    else row.actions[c']? := by
  rw [put]
  split
  · next hnone =>
    by_cases hc : c' = c
    · simp [hc, hnone]
    · simp [hc]
  · next cell hsome =>
    have hlt := (List.getElem?_eq_some_iff.mp hsome).1
    by_cases hc : c' = c
    · rw [if_pos hc, hc, hsome, Option.map_some]
      exact List.getElem?_set_self hlt
    · have hc' : c ≠ c' := fun h => hc h.symm
      simp [hc, List.getElem?_set_ne hc']

lemma length_put : (row.put g state c incoming).actions.length = row.actions.length := by
  rw [put]
  split <;> simp

/-- Without clashes afterwards there were none before, and there is none here. -/
lemma conflicts_of_put (h : (row.put g state c incoming).conflicts = []) :
    row.conflicts = [] ∧ ∀ cell, row.actions[c]? = some cell →
      Grammar.clashes cell incoming = false := by
  rw [put] at h
  split at h
  · next hnone => exact ⟨h, fun cell hcell => by simp [hnone] at hcell⟩
  · next cell hsome =>
    obtain ⟨hrow, hnew⟩ := List.append_eq_nil_iff.mp h
    refine ⟨hrow, fun cell' hcell' => ?_⟩
    rw [hsome, Option.some.injEq] at hcell'
    subst hcell'
    cases cell with
    | none => rfl
    | some existing =>
      by_contra hclash
      rw [Bool.not_eq_false] at hclash
      simp [Grammar.offer, hclash] at hnew

/-- The cell holds the action. -/
def Has (row : Row) (c : SymbolId) (a : Action) : Prop := row.actions[c]? = some (some a)

lemma mem_expected {s : SymbolId} : s ∈ row.expected g ↔
    g.symbols.isTerminal s = true ∧ ∃ a, row.Has s a ∧ a ≠ .fail := by
  rw [expected, List.mem_filter, List.mem_range, Bool.and_eq_true]
  constructor
  · rintro ⟨-, hterminal, hcell⟩
    refine ⟨hterminal, ?_⟩
    split at hcell
    · next a ha => exact ⟨a, ha, bne_iff_ne.mp hcell⟩
    · cases hcell
  · rintro ⟨hterminal, a, ha, hne⟩
    refine ⟨(List.getElem?_eq_some_iff.mp ha).1, hterminal, ?_⟩
    rw [Has] at ha
    simpa only [ha] using bne_iff_ne.mpr hne

/-- What is in a cell after an offer was there before, was offered, or is `fail`. -/
lemma has_of_put (h : (row.put g state c incoming).Has c' a) :
    row.Has c' a ∨ c' = c ∧ (a = incoming ∨ a = .fail) := by
  rw [Has, getElem?_put] at h
  split at h
  · next hc =>
    obtain ⟨cell, hcell, hoffer⟩ := Option.map_eq_some_iff.mp h
    rcases Grammar.offer_mem hoffer with rfl | hnew
    · exact .inl (hc ▸ hcell)
    · exact .inr ⟨hc, hnew⟩
  · exact .inl h

/-- What is in a cell after a fallback was there before, or it is the fallback in the `ε` column. -/
lemma has_of_putFallback {rule : RuleId} (h : (row.putFallback rule).Has c a) :
    row.Has c a ∨ c = SymbolId.epsilon ∧ a = .reduce rule := by
  rw [Has, putFallback, List.getElem?_modify] at h
  obtain ⟨cell, hcell, hcell'⟩ := Option.map_eq_some_iff.mp h
  split at hcell'
  · next hc =>
    rcases offerFallback_mem hcell' with rfl | rfl
    · exact .inl hcell
    · exact .inr ⟨hc.symm, rfl⟩
  · exact .inl (hcell.trans (congrArg some hcell'))

lemma has_put (hc : c < row.actions.length) (hfail : ¬ row.Has c .fail)
    (h : (row.put g state c incoming).conflicts = []) :
    (row.put g state c incoming).Has c incoming := by
  have hclash := (conflicts_of_put h).2
  simp only [Has, List.getElem?_eq_getElem hc, Option.some.injEq] at hclash hfail
  rw [Has, getElem?_put, if_pos rfl, List.getElem?_eq_getElem hc, Option.map_some,
    Grammar.offer_of_not_clashes g c (hclash _ rfl)]
  have hclash := hclash _ rfl
  cases hcell : row.actions[c] with
  | none => rfl
  | some existing =>
    rw [hcell] at hfail hclash
    simp only [Grammar.clashes, Bool.and_eq_false_iff, bne_eq_false_iff_eq] at hclash
    rcases hclash with rfl | rfl
    · rfl
    · exact absurd rfl hfail

lemma Has.put (hhas : row.Has c a) (h : (row.put g state c' incoming).conflicts = []) :
    (row.put g state c' incoming).Has c a := by
  rw [Has, getElem?_put]
  split
  · next hc =>
    subst hc
    rw [hhas, Option.map_some,
      Grammar.offer_of_not_clashes g c ((conflicts_of_put h).2 _ hhas), Option.some_or]
  · exact hhas

lemma Has.putFallback {rule : RuleId} (hhas : row.Has c a) (hc : c ≠ SymbolId.epsilon) :
    (row.putFallback rule).Has c a := by
  rw [Has, Row.putFallback, List.getElem?_modify]
  have hc' : ¬ SymbolId.epsilon = c := fun h => hc h.symm
  simp only [hc', if_false, Option.map_eq_map, Option.map_id']
  exact hhas

/-- Without clashes levels have no say. -/
lemma put_eq (h : (row.put g state c incoming).conflicts = []) (g' : Grammar) :
    row.put g' state c incoming = row.put g state c incoming := by
  have hclash := (conflicts_of_put h).2
  rw [put, put]
  split
  · rfl
  · next cell hsome =>
    have hclash := hclash cell hsome
    simp only [Grammar.offer_of_not_clashes _ c hclash, hclash]

/-- While nothing has clashed no cell is left at `fail`, and no row changes its length. -/
structure Orderly (width : Nat) (row : Row) : Prop where
  actions_length : row.actions.length = width
  gotos_length : row.gotos.length = width
  not_fail : row.conflicts = [] → ∀ c, ¬ row.Has c .fail

variable {width : Nat}

lemma Orderly.put (h : row.Orderly width) (hincoming : incoming ≠ .fail) :
    (row.put g state c incoming).Orderly width where
  actions_length := length_put.trans h.actions_length
  gotos_length := by rw [gotos_put]; exact h.gotos_length
  not_fail hconflicts c' hhas := by
    obtain ⟨hrow, hclash⟩ := conflicts_of_put hconflicts
    rw [Has, getElem?_put] at hhas
    split at hhas
    · -- nothing has clashed, so the cell holds what it held or what was offered
      obtain ⟨cell, hcell, hoffer⟩ := Option.map_eq_some_iff.mp hhas
      rw [Grammar.offer_of_not_clashes g c (hclash cell hcell)] at hoffer
      cases cell with
      | none => exact hincoming (Option.some.inj hoffer)
      | some existing =>
        cases hoffer
        exact h.not_fail hrow c hcell
    · exact h.not_fail hrow c' hhas

/-! ## Reductions on several lookaheads -/

section Reductions

variable {rule : RuleId} {l : List SymbolId}

/-- Offers a reduction to the cells of some lookaheads. -/
def putAll (g : Grammar) (state : StateId) (rule : RuleId) (row : Row) (l : List SymbolId) : Row :=
  l.foldl (fun row s => row.put g state s (.reduce rule)) row

lemma conflicts_of_putAll (h : (row.putAll g state rule l).conflicts = []) :
    row.conflicts = [] := by
  induction l generalizing row with
  | nil => exact h
  | cons s l ih => exact (conflicts_of_put (ih h)).1

lemma Has.putAll (hhas : row.Has c a) (h : (row.putAll g state rule l).conflicts = []) :
    (row.putAll g state rule l).Has c a := by
  induction l generalizing row with
  | nil => exact hhas
  | cons s l ih => exact ih (hhas.put (conflicts_of_putAll h)) h

lemma has_putAll (hrow : row.Orderly width) (hwidth : c < width) (hc : c ∈ l)
    (h : (row.putAll g state rule l).conflicts = []) :
    (row.putAll g state rule l).Has c (.reduce rule) := by
  induction l generalizing row with
  | nil => exact absurd hc List.not_mem_nil
  | cons s l ih =>
    have hput : (row.put g state s (.reduce rule)).conflicts = [] := conflicts_of_putAll h
    rcases List.mem_cons.mp hc with rfl | hc
    · have hlt : c < row.actions.length := hrow.actions_length ▸ hwidth
      have hhas : (row.put g state c (.reduce rule)).Has c (.reduce rule) :=
        has_put hlt (hrow.not_fail (conflicts_of_put hput).1 c) hput
      exact hhas.putAll h
    · exact ih (hrow.put (by simp)) hc h

lemma putAll_eq (h : (row.putAll g state rule l).conflicts = []) (g' : Grammar) :
    row.putAll g' state rule l = row.putAll g state rule l := by
  induction l generalizing row with
  | nil => rfl
  | cons s l ih =>
    have hput : (row.put g state s (.reduce rule)).conflicts = [] := conflicts_of_putAll h
    show (row.put g' state s (.reduce rule)).putAll g' state rule l = _
    rw [put_eq hput]
    exact ih h

end Reductions

/-! ## One item -/

/-- What is kept by every change that an item calls for is kept by filling the item in. -/
lemma addItem_induction {P : Row → Prop} (g : Grammar) (b : Basis) (state : StateId) (st : State)
    (item : Item)
    (hput : ∀ row c a, item.Calls b st c a → P row → P (row.put g state c a))
    (hgoto : ∀ row s dest β, b.remaining item.key = .nonterminal s :: β →
      st.target? (.nonterminal s) = some dest → P row →
      P { row with gotos := row.gotos.set s (some dest) })
    (hfallback : ∀ row rule, item.Calls b st SymbolId.epsilon (.reduce rule) → P row →
      P (row.putFallback rule)) (h : P row) : P (addItem g b state st row item) := by
  rw [addItem]
  split
  · next part β hrest =>
    cases part with
    | terminal s =>
      cases htarget : st.target? (.terminal s) with
      | none => exact h
      | some dest => exact hput _ _ _ (.shift hrest htarget) h
    | nonterminal s =>
      cases htarget : st.target? (.nonterminal s) with
      | none => exact h
      | some dest => exact hgoto _ _ _ β hrest htarget h
  · next hrest =>
    split
    · next hrule => exact hput _ _ _ (.accept hrest hrule) h
    · next rule hrule =>
      -- the reduction is offered on one lookahead after another
      have hputs : ∀ (l : List SymbolId) (row : Row), (∀ t ∈ l, t ∈ item.lookaheads) → P row →
          P (l.foldl (fun row s => row.put g state s (.reduce rule)) row) := by
        intro l
        induction l with
        | nil => exact fun _ _ h => h
        | cons t l ih =>
          intro row hl h
          obtain ⟨ht, hl⟩ := List.forall_mem_cons.mp hl
          exact ih _ hl (hput _ _ _ (.reduce hrest hrule ht) h)
      have hrow := hputs item.lookaheads.toList row (fun t => TerminalSet.mem_toList.mp) h
      dsimp only
      split
      · next hempty => exact hfallback _ _ (.fallback hrest hrule hempty) hrow
      · exact hrow

lemma conflicts_of_addItem (h : (addItem g b state st row item).conflicts = []) :
    row.conflicts = [] := by
  refine addItem_induction (P := fun row' => row'.conflicts = [] → row.conflicts = []) g b state st
    item ?_ ?_ ?_ id h
  · exact fun _ _ _ _ ih h => ih (conflicts_of_put h).1
  · exact fun _ _ _ _ _ _ ih => ih
  · exact fun _ _ _ ih => ih

lemma conflicts_of_foldl {l : List Item} (h : (l.foldl (addItem g b state st) row).conflicts = []) :
    row.conflicts = [] := by
  induction l generalizing row with
  | nil => exact h
  | cons item l ih => exact conflicts_of_addItem (ih h)

/-- What is in a cell outside the `ε` column stays there as long as nothing clashes. -/
lemma Has.addItem (hhas : row.Has c a) (hc : c ≠ SymbolId.epsilon)
    (h : (addItem g b state st row item).conflicts = []) :
    (Row.addItem g b state st row item).Has c a := by
  refine addItem_induction (P := fun row' => row'.conflicts = [] → row'.Has c a) g b state st
    item ?_ ?_ ?_ (fun _ => hhas) h
  · exact fun row' _ _ _ ih h => (ih (conflicts_of_put h).1).put h
  · exact fun _ _ _ _ _ _ ih => ih
  · exact fun _ _ _ ih h => (ih h).putFallback hc

lemma Orderly.addItem (h : row.Orderly width) :
    (Row.addItem g b state st row item).Orderly width := by
  refine addItem_induction (P := Orderly width) g b state st item ?_ ?_ ?_ h
  · exact fun row c a hcalls h => h.put hcalls.ne_fail
  · exact fun row s dest β _ _ h => ⟨h.actions_length, by simpa using h.gotos_length, h.not_fail⟩
  · intro row rule _ h
    refine ⟨by simpa [putFallback] using h.actions_length, h.gotos_length, ?_⟩
    intro hconflicts c hhas
    rcases has_of_putFallback hhas with hold | ⟨-, hfail⟩
    · exact h.not_fail hconflicts c hold
    · cases hfail

lemma addItem_reduce {rule : RuleId} (g : Grammar) (state : StateId) (row : Row)
    (hrest : b.remaining item.key = []) (hrule : (b.production item.key).rule = some rule) :
    addItem g b state st row item =
      if (b.production item.key).rhs.isEmpty = true
        then (row.putAll g state rule item.lookaheads.toList).putFallback rule
        else row.putAll g state rule item.lookaheads.toList := by
  simp only [addItem, hrest, hrule]
  rfl

/-- What an item calls for outside the `ε` column is there after it was filled in, if nothing has
clashed. -/
lemma has_addItem (hrow : row.Orderly width) (hcalls : item.Calls b st c a)
    (hc : c ≠ SymbolId.epsilon) (hwidth : c < width)
    (h : (addItem g b state st row item).conflicts = []) :
    (addItem g b state st row item).Has c a := by
  have hlt : c < row.actions.length := hrow.actions_length ▸ hwidth
  cases hcalls with
  | shift hrest htarget =>
    simp only [addItem, hrest, htarget] at h ⊢
    exact has_put hlt (hrow.not_fail (conflicts_of_put h).1 c) h
  | accept hrest hrule =>
    simp only [addItem, hrest, hrule] at h ⊢
    exact has_put hlt (hrow.not_fail (conflicts_of_put h).1 _) h
  | reduce hrest hrule ht =>
    have hmem := TerminalSet.mem_toList.mpr ht
    rw [addItem_reduce g state row hrest hrule] at h ⊢
    split
    · next hempty =>
      rw [if_pos hempty] at h
      exact (has_putAll hrow hwidth hmem h).putFallback hc
    · next hempty =>
      rw [if_neg hempty] at h
      exact has_putAll hrow hwidth hmem h
  | fallback => exact absurd rfl hc

/-- Without clashes levels have no say in what an item calls for. -/
lemma addItem_eq (h : (addItem g b state st row item).conflicts = []) (g' : Grammar) :
    addItem g' b state st row item = addItem g b state st row item := by
  cases hrest : b.remaining item.key with
  | nil =>
    cases hrule : (b.production item.key).rule with
    | none =>
      simp only [addItem, hrest, hrule] at h ⊢
      exact put_eq h g'
    | some rule =>
      rw [addItem_reduce g state row hrest hrule] at h
      rw [addItem_reduce g' state row hrest hrule, addItem_reduce g state row hrest hrule]
      split at h
      · next hempty => rw [if_pos hempty, if_pos hempty, putAll_eq h g']
      · next hempty => rw [if_neg hempty, if_neg hempty, putAll_eq h g']
  | cons part β =>
    cases part with
    | nonterminal s =>
      simp only [addItem, hrest]
      cases st.target? (.nonterminal s) <;> rfl
    | terminal s =>
      cases htarget : st.target? (.terminal s) with
      | none => simp only [addItem, hrest, htarget]
      | some dest =>
        simp only [addItem, hrest, htarget] at h ⊢
        exact put_eq h g'

/-! ## The rows of a state -/

/-- There is no action in a blank row. -/
lemma not_has_blank (width : Nat) (c : SymbolId) (a : Action) : ¬ (blank width).Has c a := by
  intro hhas
  rw [Has, blank, List.getElem?_replicate] at hhas
  split at hhas <;> simp at hhas

lemma orderly_blank (width : Nat) : (blank width).Orderly width :=
  ⟨List.length_replicate, List.length_replicate, fun _ c => not_has_blank width c .fail⟩

lemma Orderly.foldl {l : List Item} (h : row.Orderly width) :
    (l.foldl (Row.addItem g b state st) row).Orderly width := by
  induction l generalizing row with
  | nil => exact h
  | cons item l ih => exact ih h.addItem

lemma Has.foldl {l : List Item} (hhas : row.Has c a) (hc : c ≠ SymbolId.epsilon)
    (h : (l.foldl (Row.addItem g b state st) row).conflicts = []) :
    (l.foldl (Row.addItem g b state st) row).Has c a := by
  induction l generalizing row with
  | nil => exact hhas
  | cons item l ih => exact ih (hhas.addItem hc (conflicts_of_foldl h)) h

/-- What holds of the blank row and is kept by every change that some item calls for holds of the
row of the state. -/
lemma ofState_induction {P : Row → Prop} (g : Grammar) (b : Basis) (state : StateId) (st : State)
    (hblank : P (blank b.productions.width))
    (hput : ∀ row c a, st.Calls b c a → P row → P (row.put g state c a))
    (hgoto : ∀ row s dest, st.target? (.nonterminal s) = some dest → P row →
      P { row with gotos := row.gotos.set s (some dest) })
    (hfallback : ∀ row rule, st.Calls b SymbolId.epsilon (.reduce rule) → P row →
      P (row.putFallback rule)) : P (ofState g b state st) := by
  have hfold : ∀ (l : List Item) (row : Row), (∀ item ∈ l, item ∈ st.items b) → P row →
      P (l.foldl (addItem g b state st) row) := by
    intro l
    induction l with
    | nil => exact fun _ _ h => h
    | cons item l ih =>
      intro row hl h
      obtain ⟨hitem, hl⟩ := List.forall_mem_cons.mp hl
      refine ih _ hl (addItem_induction g b state st item ?_ ?_ ?_ h)
      · exact fun row c a hcalls => hput row c a ⟨item, hitem, hcalls⟩
      · exact fun row s dest _ _ htarget => hgoto row s dest htarget
      · exact fun row rule hcalls => hfallback row rule ⟨item, hitem, hcalls⟩
  exact hfold _ _ (fun _ h => h) hblank

/-- A cell holds `fail` or what some item of the state calls for. -/
lemma called_of_action (h : (ofState g b state st).Has c a) : a = .fail ∨ st.Calls b c a := by
  refine ofState_induction (P := fun row => ∀ c a, row.Has c a → a = .fail ∨ st.Calls b c a)
    g b state st ?blank ?put ?goto ?fallback c a h
  case blank => exact fun c a hhas => absurd hhas (not_has_blank _ c a)
  case put =>
    intro row c incoming hcalls ih c' a hhas
    rcases has_of_put hhas with hold | ⟨rfl, rfl | rfl⟩
    · exact ih c' a hold
    · exact .inr hcalls
    · exact .inl rfl
  case goto => exact fun row _ _ _ ih => ih
  case fallback =>
    intro row rule hcalls ih c a hhas
    rcases has_of_putFallback hhas with hold | ⟨rfl, rfl⟩
    · exact ih c a hold
    · exact .inr hcalls

/-- Without clashes a cell outside the `ε` column holds the action that is called for. -/
lemma action_of_called (hcalls : st.Calls b c a) (hc : c ≠ SymbolId.epsilon)
    (hwidth : c < b.productions.width) (h : (ofState g b state st).conflicts = []) :
    (ofState g b state st).Has c a := by
  obtain ⟨item, hitem, hcalls⟩ := hcalls
  obtain ⟨l₁, l₂, hl⟩ := List.append_of_mem hitem
  rw [ofState, hl, List.foldl_append, List.foldl_cons] at h ⊢
  have hfront : (l₁.foldl (addItem g b state st) (blank b.productions.width)).Orderly
      b.productions.width := (orderly_blank b.productions.width).foldl
  exact (has_addItem hfront hcalls hc hwidth (conflicts_of_foldl h)).foldl hc h

/-- Without clashes levels have no say. -/
lemma ofState_eq (h : (ofState g b state st).conflicts = []) (g' : Grammar) :
    ofState g' b state st = ofState g b state st := by
  have hfold : ∀ (l : List Item) (row : Row),
      (l.foldl (addItem g b state st) row).conflicts = [] →
      l.foldl (addItem g' b state st) row = l.foldl (addItem g b state st) row := by
    intro l
    induction l with
    | nil => exact fun _ _ => rfl
    | cons item l ih =>
      intro row h
      rw [List.foldl_cons, List.foldl_cons, addItem_eq (conflicts_of_foldl h) g', ih _ h]
  exact hfold _ _ h

/-- A goto cell holds nothing but the state entered over the non-terminal. -/
lemma target_of_goto {s : SymbolId} {dest : StateId}
    (h : (ofState g b state st).gotos[s]? = some (some dest)) :
    st.target? (.nonterminal s) = some dest := by
  refine ofState_induction (P := fun row => ∀ s dest, row.gotos[s]? = some (some dest) →
    st.target? (.nonterminal s) = some dest) g b state st ?blank ?put ?goto ?fallback s dest h
  case blank =>
    intro s dest hcell
    rw [blank, List.getElem?_replicate] at hcell
    split at hcell <;> simp at hcell
  case put =>
    intro row c a _ ih
    rwa [gotos_put]
  case goto =>
    intro row s dest htarget ih s' dest' hcell
    by_cases hs : s = s'
    · subst hs
      rw [List.getElem?_set, if_pos rfl] at hcell
      split at hcell
      · rw [htarget]
        exact Option.some.inj hcell
      · cases hcell
    · rw [List.getElem?_set_ne hs] at hcell
      exact ih s' dest' hcell
  case fallback => exact fun row rule _ ih => ih

/-- A goto cell that holds the state entered over its non-terminal keeps it. -/
lemma gotos_addItem {s : SymbolId} {dest : StateId}
    (htarget : st.target? (.nonterminal s) = some dest) (h : row.gotos[s]? = some (some dest)) :
    (addItem g b state st row item).gotos[s]? = some (some dest) := by
  refine addItem_induction (P := fun row => row.gotos[s]? = some (some dest)) g b state st
    item ?put ?goto ?fallback h
  case put =>
    intro row c a _ h
    rwa [gotos_put]
  case goto =>
    intro row s' dest' β _ htarget' h
    by_cases hs' : s' = s
    · subst hs'
      rw [htarget', Option.some.injEq] at htarget
      subst htarget
      exact List.getElem?_set_self (List.getElem?_eq_some_iff.mp h).1
    · rwa [List.getElem?_set_ne hs']
  case fallback => exact fun row rule _ h => h

/-- The goto cell of a non-terminal after some dot holds the state entered over it. -/
lemma goto_of_target {s : SymbolId} {dest : StateId} {β : List Part}
    (hitem : item ∈ st.items b) (hrest : b.remaining item.key = .nonterminal s :: β)
    (htarget : st.target? (.nonterminal s) = some dest) (hs : s < b.productions.width) :
    (ofState g b state st).gotos[s]? = some (some dest) := by
  have hfold : ∀ (l : List Item) (row : Row), row.Orderly b.productions.width →
      (row.gotos[s]? = some (some dest) ∨ item ∈ l) →
      (l.foldl (addItem g b state st) row).gotos[s]? = some (some dest) := by
    intro l
    induction l with
    | nil => exact fun _ _ h => h.resolve_right List.not_mem_nil
    | cons item' l ih =>
      refine fun row hrow h => ih _ hrow.addItem ?_
      by_cases hitem' : item = item'
      · -- this item writes the cell, the others keep what it wrote
        subst hitem'
        have hlt : s < row.gotos.length := hrow.gotos_length ▸ hs
        simp only [addItem, hrest, htarget]
        exact .inl (List.getElem?_set_self hlt)
      · exact h.imp (gotos_addItem htarget) fun h => (List.mem_cons.mp h).resolve_left hitem'
  exact hfold _ _ (orderly_blank _) (.inr hitem)

end Row

end ShiftReduce
