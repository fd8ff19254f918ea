import ShiftReduce.Proofs.Table.Built
/-!
# Cells as the outcome of offers

A cell outside the `ε` column is what becomes of an empty cell when the actions that the items of
the state call for on its symbol are offered to it one after another, in the order of the items. So
it is empty if and only if nothing is called for, and where one shift and one reduction are called
for, it holds what arbitration makes of the two, in whatever order and however often they come.

Main statements: `Row.getElem?_ofState`, `Grammar.foldl_offer_eq_none_iff` and
`Grammar.foldl_offer_of_two`.
-/

namespace ShiftReduce

/-- The actions that an item calls for on a symbol, fallbacks apart. -/
def Item.offers (b : Basis) (st : State) (c : SymbolId) (item : Item) : List Action :=
  match b.remaining item.key with
  | .terminal s :: _ => if s = c then (st.target? (.terminal s)).toList.map .shift else []
  | .nonterminal _ :: _ => []
  | [] =>
    match (b.production item.key).rule with
    | none => if c = SymbolId.eoi then [.accept] else []
    | some rule => if c ∈ item.lookaheads.toList then [.reduce rule] else []

/-- The actions that the items of a state call for on a symbol, in the order of the items. -/
def State.offers (b : Basis) (st : State) (c : SymbolId) : List Action :=
  (st.items b).flatMap (Item.offers b st c)

/-- What is left in the cell of a symbol when an item has entered its fallback, if it has one, in
the `ε` column. -/
def Item.fall (b : Basis) (c : SymbolId) (item : Item) (cell : Option Action) : Option Action :=
  match (b.production item.key).rule with
  | some rule =>
    if c = SymbolId.epsilon ∧ (b.production item.key).rhs.isEmpty = true then
      offerFallback cell rule
    else cell
  | none => cell

variable {b : Basis} {st : State} {item : Item} {c : SymbolId} {a : Action}

/-- An item that is not complete has no fallback. -/
lemma Item.fall_of_remaining {part : Part} {β : List Part}
    (hrest : b.remaining item.key = part :: β) (cell : Option Action) :
    item.fall b c cell = cell := by
  have hempty : (b.production item.key).rhs.isEmpty = false := by
    rw [List.isEmpty_eq_false_iff]
    intro hnil
    rw [Basis.remaining, hnil, List.drop_nil] at hrest
    cases hrest
  rw [fall]
  split
  · exact if_neg fun h => Bool.false_ne_true (hempty.symm.trans h.2)
  · rfl

lemma Item.mem_offers (hc : c ≠ SymbolId.epsilon) :
    a ∈ item.offers b st c ↔ item.Calls b st c a := by
  constructor
  · intro h
    rw [offers] at h
    split at h
    · next s β hrest =>
      split at h
      · next hs =>
        subst hs
        obtain ⟨dest, hdest, rfl⟩ := List.mem_map.mp h
        exact .shift hrest (Option.mem_toList.mp hdest)
      · cases h
    · cases h
    · next hrest =>
      split at h
      · next hrule =>
        split at h
        · next hs =>
          subst hs
          rw [List.mem_singleton.mp h]
          exact .accept hrest hrule
        · cases h
      · next rule hrule =>
        split at h
        · next ht =>
          rw [List.mem_singleton.mp h]
          exact .reduce hrest hrule (TerminalSet.mem_toList.mp ht)
        · cases h
  · intro h
    rw [offers]
    cases h with
    | shift hrest htarget => simp [hrest, htarget]
    | accept hrest hrule => simp [hrest, hrule]
    | reduce hrest hrule ht => simp [hrest, hrule, TerminalSet.mem_toList.mpr ht]
    | fallback => exact absurd rfl hc

lemma State.mem_offers (hc : c ≠ SymbolId.epsilon) : a ∈ st.offers b c ↔ st.Calls b c a := by
  simp only [offers, List.mem_flatMap, Item.mem_offers hc, Calls]

lemma TerminalSet.nodup_toList (set : TerminalSet) : set.toList.Nodup := by
  rw [toList]
  split
  · exact List.nodup_nil
  · exact List.nodup_range.filter _

/-! ## A cell and its offers -/

namespace Row

variable {g : Grammar} {state : StateId} {row : Row} {rule : RuleId}

/-- A reduction is offered once to the cell of each of its lookaheads. -/
lemma getElem?_putAll {l : List SymbolId} (hl : l.Nodup) :
    (row.putAll g state rule l).actions[c]? = row.actions[c]?.map fun cell =>
      if c ∈ l then g.offer c cell (.reduce rule) else cell := by
  induction l generalizing row with
  | nil => simp [putAll]
  | cons s l ih =>
    obtain ⟨hs, hl⟩ := List.nodup_cons.mp hl
    have hput : row.putAll g state rule (s :: l) =
        (row.put g state s (.reduce rule)).putAll g state rule l := rfl
    rw [hput, ih hl, getElem?_put]
    by_cases hc : c = s
    · subst hc
      simp [hs, Function.comp_def]
    · simp [hc]

/-- Filling in an item offers to each cell what the item calls for, and enters its fallback. -/
lemma getElem?_addItem_fall : (addItem g b state st row item).actions[c]? =
    row.actions[c]?.map fun cell =>
      item.fall b c ((item.offers b st c).foldl (g.offer c) cell) := by
  have hput : ∀ s incoming, (row.put g state s incoming).actions[c]? =
      row.actions[c]?.map fun cell =>
        (if s = c then [incoming] else []).foldl (g.offer c) cell := by
    intro s incoming
    rw [getElem?_put]
    by_cases hs : c = s
    · subst hs
      simp
    · simp [hs, Ne.symm hs]
  cases hrest : b.remaining item.key with
  | cons part β =>
    simp only [Item.fall_of_remaining hrest]
    cases part with
    | terminal s =>
      cases htarget : st.target? (.terminal s) with
      | none => simp [addItem, Item.offers, hrest, htarget]
      | some dest => simpa [addItem, Item.offers, hrest, htarget] using hput s (.shift dest)
    | nonterminal s => cases htarget : st.target? (.nonterminal s) <;>
        simp [addItem, Item.offers, hrest, htarget]
  | nil =>
    cases hrule : (b.production item.key).rule with
    | none =>
      have heoi := hput SymbolId.eoi .accept
      simp only [eq_comm (a := SymbolId.eoi)] at heoi
      simpa [addItem, Item.offers, Item.fall, hrest, hrule] using heoi
    | some rule =>
      have hall : (row.putAll g state rule item.lookaheads.toList).actions[c]? =
          row.actions[c]?.map fun cell =>
            (item.offers b st c).foldl (g.offer c) cell := by
        have hoffers : item.offers b st c =
            if c ∈ item.lookaheads.toList then [.reduce rule] else [] := by
          simp only [Item.offers, hrest, hrule]
        rw [getElem?_putAll item.lookaheads.nodup_toList, hoffers]
        split <;> rfl
      rw [addItem_reduce g state row hrest hrule]
      simp only [Item.fall, hrule]
      split
      · next hempty =>
        rw [putFallback, List.getElem?_modify, hall]
        by_cases hc : c = SymbolId.epsilon
        · simp [hc, hempty, Function.comp_def]
        · simp [hc, Ne.symm hc]
      · next hempty => simp [hall, hempty]

/-- Outside the `ε` column filling in an item offers to each cell what the item calls for. -/
lemma getElem?_addItem (hc : c ≠ SymbolId.epsilon) :
    (addItem g b state st row item).actions[c]? = row.actions[c]?.map fun cell =>
      (item.offers b st c).foldl (g.offer c) cell := by
  have hfall : ∀ cell, item.fall b c cell = cell := by
    intro cell
    rw [Item.fall]
    split
    · exact if_neg fun h => hc h.1
    · rfl
  rw [getElem?_addItem_fall]
  simp only [hfall]

/-- A cell of a row is what becomes of an empty one under the offers of the items. -/
lemma getElem?_ofState (g : Grammar) (state : StateId) (st : State) (hc : c ≠ SymbolId.epsilon)
    (hwidth : c < b.productions.width) :
    (ofState g b state st).actions[c]? = some ((st.offers b c).foldl (g.offer c) none) := by
  have hfold : ∀ (l : List Item) (row : Row),
      (l.foldl (addItem g b state st) row).actions[c]? = row.actions[c]?.map fun cell =>
        (l.flatMap (Item.offers b st c)).foldl (g.offer c) cell := by
    intro l
    induction l with
    | nil => simp
    | cons item l ih =>
      intro row
      rw [List.foldl_cons, ih, getElem?_addItem hc, Option.map_map, List.flatMap_cons]
      simp only [List.foldl_append]
      rfl
  rw [ofState, hfold, blank, List.getElem?_replicate, if_pos hwidth]
  rfl

end Row

/-! ## What becomes of a cell -/

namespace Grammar

variable {g : Grammar} {cell : Option Action} {offers : List Action} {dest : StateId}
  {rule : RuleId}

lemma isSome_offer (g : Grammar) (c : SymbolId) (cell : Option Action) (incoming : Action) :
    (g.offer c cell incoming).isSome = true := by
  cases cell with
  | none => rfl
  | some existing =>
    simp only [offer]
    split <;> rfl

/-- Offers never empty a cell. -/
lemma isSome_foldl_offer (h : cell.isSome = true) :
    (offers.foldl (g.offer c) cell).isSome = true := by
  induction offers generalizing cell with
  | nil => exact h
  | cons a offers ih => exact ih (g.isSome_offer c cell a)

/-- A cell stays empty if and only if nothing is offered. -/
lemma foldl_offer_eq_none_iff : offers.foldl (g.offer c) none = none ↔ offers = [] := by
  cases offers with
  | nil => simp
  | cons a offers =>
    have h : (offers.foldl (g.offer c) (some a)).isSome = true := isSome_foldl_offer rfl
    simp only [List.foldl_cons, offer, reduceCtorEq, iff_false]
    exact Option.isSome_iff_ne_none.mp h

lemma offer_self (g : Grammar) (c : SymbolId) (a : Action) : g.offer c (some a) a = some a := by
  simp [offer, clashes]

/-- Offering one and the same action fills the cell with it. -/
lemma foldl_offer_of_one (h : ∀ x ∈ offers, x = a) (hne : offers ≠ []) :
    offers.foldl (g.offer c) none = some a := by
  have hsame : ∀ l : List Action, (∀ x ∈ l, x = a) → l.foldl (g.offer c) (some a) = some a := by
    intro l
    induction l with
    | nil => exact fun _ => rfl
    | cons x l ih =>
      intro hl
      obtain ⟨rfl, hl⟩ := List.forall_mem_cons.mp hl
      rw [List.foldl_cons, offer_self]
      exact ih hl
  cases offers with
  | nil => exact absurd rfl hne
  | cons x offers =>
    obtain ⟨rfl, h⟩ := List.forall_mem_cons.mp h
    exact hsame offers h

/-- What was made of a shift and a reduction stays as it is when either is offered again. -/
lemma offer_arbitrate (h : a = .shift dest ∨ a = .reduce rule) :
    g.offer c (some (g.arbitrate c dest rule)) a = some (g.arbitrate c dest rule) := by
  rcases g.arbitrate_mem c dest rule with harb | harb | harb
  · rcases h with rfl | rfl
    · rw [harb, offer_self]
    · rw [harb]
      simp [offer, clashes, settle, harb]
  · rcases h with rfl | rfl
    · rw [harb]
      simp [offer, clashes, settle, harb]
    · rw [harb, offer_self]
  · rw [harb]
    simp [offer, clashes]

lemma foldl_offer_arbitrate (h : ∀ x ∈ offers, x = .shift dest ∨ x = .reduce rule) :
    offers.foldl (g.offer c) (some (g.arbitrate c dest rule)) =
      some (g.arbitrate c dest rule) := by
  induction offers with
  | nil => rfl
  | cons x l ih =>
    obtain ⟨hx, hl⟩ := List.forall_mem_cons.mp h
    rw [List.foldl_cons, offer_arbitrate hx]
    exact ih hl

/-- One shift and one reduction, in any order and number: the cell holds what arbitration makes of
the two. -/
lemma foldl_offer_of_two (h : ∀ x ∈ offers, x = .shift dest ∨ x = .reduce rule)
    (hshift : .shift dest ∈ offers) (hreduce : .reduce rule ∈ offers) :
    offers.foldl (g.offer c) none = some (g.arbitrate c dest rule) := by
  -- as long as one of the two alone was offered, the other one is still to come
  have hhalf : ∀ (l : List Action) (a a' : Action), (∀ x ∈ l, x = a ∨ x = a') → a' ∈ l →
      (∀ x ∈ l, x = .shift dest ∨ x = .reduce rule) →
      g.offer c (some a) a' = some (g.arbitrate c dest rule) →
      l.foldl (g.offer c) (some a) = some (g.arbitrate c dest rule) := by
    intro l a a'
    induction l with
    | nil => exact fun _ h => absurd h List.not_mem_nil
    | cons x l ih =>
      intro hboth hmem hl hsettle
      obtain ⟨hx, hboth⟩ := List.forall_mem_cons.mp hboth
      obtain ⟨-, hl⟩ := List.forall_mem_cons.mp hl
      by_cases hxa : x = a'
      · subst hxa
        rw [List.foldl_cons, hsettle]
        exact foldl_offer_arbitrate hl
      · rw [hx.resolve_right hxa, List.foldl_cons, offer_self]
        exact ih hboth ((List.mem_cons.mp hmem).resolve_left (Ne.symm hxa)) hl hsettle
  cases offers with
  | nil => exact absurd hshift List.not_mem_nil
  | cons x offers =>
    have htail := (List.forall_mem_cons.mp h).2
    rcases (List.forall_mem_cons.mp h).1 with rfl | rfl
    · refine hhalf offers _ _ htail ((List.mem_cons.mp hreduce).resolve_left (by simp)) htail ?_
      simp [offer, clashes, settle]
    · refine hhalf offers _ _ (fun x hx => (htail x hx).symm)
        ((List.mem_cons.mp hshift).resolve_left (by simp)) htail ?_
      simp [offer, clashes, settle]

/-! ## Cells of a table -/

namespace Builds

variable {target : SymbolId} {t : ActionTable} {state : StateId}

lemma action?_eq_foldl (h : g.Builds target t)
    (hst : (g.automatonOf target).states[state]? = some st) (hc : c ≠ SymbolId.epsilon)
    (hwidth : c < g.symbols.size) : t.action? state c =
      (st.offers (g.productions target).basis c).foldl (g.offer c) none := by
  rw [h.action?_eq, hst, Option.bind_some,
    Row.getElem?_ofState (b := (g.productions target).basis) g state st hc hwidth, Option.join_some]

/-- A cell outside the `ε` column is empty only if nothing is called for. -/
lemma not_calls_of_action?_eq_none (h : g.Builds target t)
    (hst : (g.automatonOf target).states[state]? = some st) (hc : c ≠ SymbolId.epsilon)
    (hwidth : c < g.symbols.size) (hnone : t.action? state c = none) (a : Action) :
    ¬ st.Calls (g.productions target).basis c a := by
  rw [h.action?_eq_foldl hst hc hwidth, foldl_offer_eq_none_iff] at hnone
  rw [← State.mem_offers hc, hnone]
  exact List.not_mem_nil

end Builds

end Grammar

end ShiftReduce
