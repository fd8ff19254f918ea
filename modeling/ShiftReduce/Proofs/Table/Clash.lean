import ShiftReduce.Proofs.Automaton.Construction
import ShiftReduce.Proofs.Table.Offers
/-!
# Clashes

Beside what becomes of a cell it is kept how. Each time an offer meets another action in the cell,
the two and the one that is kept are noted, so the notes on a cell begin with an action that was
called for, go on each with what the one before kept, and end with what the cell holds. There are
any if and only if two different actions are called for.

What the cell holds depends on the order of the items only where more than two actions meet, some of
them shifts. Accepting always wins, and of reductions alone the lowest rule.

Main statement: `Grammar.Valid.table_settled`.
-/

namespace ShiftReduce

/-- The clashes that were noted in a state on a symbol. -/
def ActionTable.conflictsAt (t : ActionTable) (state : StateId) (c : SymbolId) : List Conflict :=
  t.conflicts.filter fun x => x.state == state && x.lookahead == c

/-! ## Notes on one cell -/

namespace Grammar

variable {g : Grammar} {state : StateId} {c : SymbolId} {cell : Option Action} {a incoming : Action}
  {offers : List Action} {id : RuleId}

/-- What is noted when an action is offered to a cell. -/
def note (g : Grammar) (state : StateId) (c : SymbolId) (cell : Option Action)
    (incoming : Action) : List Conflict :=
  match cell with
  | none => []
  | some existing =>
    if clashes cell incoming then
      [⟨state, c, existing, incoming, g.settle c existing incoming⟩]
    else []

/-- What is noted when actions are offered to a cell one after another. -/
def notes (g : Grammar) (state : StateId) (c : SymbolId) :
    Option Action → List Action → List Conflict
  | _, [] => []
  | cell, a :: offers => g.note state c cell a ++ g.notes state c (g.offer c cell a) offers

lemma notes_append (l l' : List Action) : g.notes state c cell (l ++ l') =
    g.notes state c cell l ++ g.notes state c (l.foldl (g.offer c) cell) l' := by
  induction l generalizing cell with
  | nil => rfl
  | cons a l ih => rw [List.cons_append, notes, notes, ih, List.append_assoc, List.foldl_cons]

lemma of_mem_note {x : Conflict} (h : x ∈ g.note state c cell incoming) :
    x.state = state ∧ x.lookahead = c ∧ cell = some x.existing ∧ x.incoming = incoming ∧
      x.existing ≠ x.incoming ∧ x.chosen = g.settle c x.existing x.incoming := by
  cases cell with
  | none => cases h
  | some existing =>
    rw [note] at h
    split at h
    · next hclash =>
      obtain rfl := List.mem_singleton.mp h
      rw [clashes, Bool.and_eq_true, bne_iff_ne] at hclash
      exact ⟨rfl, rfl, rfl, rfl, hclash.1, rfl⟩
    · cases h

lemma of_mem_notes {x : Conflict} (h : x ∈ g.notes state c cell offers) :
    x.state = state ∧ x.lookahead = c ∧ x.incoming ∈ offers ∧ x.existing ≠ x.incoming ∧
      x.chosen = g.settle c x.existing x.incoming := by
  induction offers generalizing cell with
  | nil => cases h
  | cons a offers ih =>
    rcases List.mem_append.mp h with h | h
    · obtain ⟨hstate, hc, -, hincoming, hne, hchosen⟩ := of_mem_note h
      exact ⟨hstate, hc, List.mem_cons.mpr (.inl hincoming), hne, hchosen⟩
    · obtain ⟨hstate, hc, hincoming, hne, hchosen⟩ := ih h
      exact ⟨hstate, hc, List.mem_cons_of_mem a hincoming, hne, hchosen⟩

/-- The notes begin with what was in the cell, each goes on with what the one before kept, and what
the last one kept is in the cell. -/
lemma notes_chain (state : StateId) (a : Action) (offers : List Action) :
    ((g.notes state c (some a) offers).IsChain fun x y => x.chosen = y.existing) ∧
    (∀ x ∈ (g.notes state c (some a) offers).head?, x.existing = a) ∧
    offers.foldl (g.offer c) (some a) =
      some (((g.notes state c (some a) offers).getLast?.map Conflict.chosen).getD a) := by
  induction offers generalizing a with
  | nil => exact ⟨List.isChain_nil, by simp [notes], rfl⟩
  | cons b offers ih =>
    rw [notes, note, List.foldl_cons, offer]
    split
    · obtain ⟨hchain, hfirst, hlast⟩ := ih (g.settle c a b)
      refine ⟨List.isChain_cons.mpr ⟨fun y hy => (hfirst y hy).symm, hchain⟩, by simp, ?_⟩
      rw [hlast, List.singleton_append, List.getLast?_cons]
      cases (g.notes state c (some (g.settle c a b)) offers).getLast? <;> rfl
    · exact ih a

/-- Nothing is noted if and only if the offers are what is in the cell. -/
lemma notes_eq_nil_iff (ha : a ≠ .fail) :
    g.notes state c (some a) offers = [] ↔ ∀ x ∈ offers, x = a := by
  induction offers with
  | nil => simp [notes]
  | cons b offers ih =>
    rw [notes, List.append_eq_nil_iff, List.forall_mem_cons]
    by_cases hb : b = a
    · subst hb
      have hnote : g.note state c (some b) b = [] := by simp [note, clashes]
      rw [hnote, offer_self, ih]
      simp
    · have hclash : clashes (some a) b = true := by
        simp only [clashes, Bool.and_eq_true, bne_iff_ne]
        exact ⟨fun h => hb h.symm, ha⟩
      simp [note, hclash, hb]

/-- Something is noted if and only if two different actions are offered. -/
lemma notes_ne_nil_iff (hfail : ∀ x ∈ offers, x ≠ .fail) :
    g.notes state c none offers ≠ [] ↔ ∃ a ∈ offers, ∃ a' ∈ offers, a ≠ a' := by
  cases offers with
  | nil => simp [notes]
  | cons a offers =>
    show g.notes state c (some a) offers ≠ [] ↔ _
    rw [ne_eq, notes_eq_nil_iff (hfail a List.mem_cons_self)]
    constructor
    · intro hall
      obtain ⟨a', ha', hne⟩ : ∃ a' ∈ offers, a' ≠ a := by
        by_contra hnone
        exact hall fun x hx => by_contra fun hxa => hnone ⟨x, hx, hxa⟩
      exact ⟨a', List.mem_cons_of_mem a ha', a, List.mem_cons_self, hne⟩
    · rintro ⟨x, hx, y, hy, hxy⟩ hall
      have hsame : ∀ z ∈ a :: offers, z = a := List.forall_mem_cons.mpr ⟨rfl, hall⟩
      exact hxy ((hsame x hx).trans (hsame y hy).symm)

/-! ## Accepting and reductions -/

/-- Among reductions and accepting, accepting is kept. -/
lemma foldl_offer_accept (hoffers : ∀ x ∈ offers, x = .accept ∨ ∃ id, x = .reduce id)
    (hmem : .accept ∈ offers) : offers.foldl (g.offer c) none = some .accept := by
  have hkeep : ∀ x, x = .accept ∨ (∃ id, x = .reduce id) →
      g.offer c (some .accept) x = some .accept := by
    rintro x (rfl | ⟨id, rfl⟩)
    · exact offer_self g c _
    · rfl
  -- before accepting was offered the cell holds a reduction
  have hgo : ∀ (l : List Action) (cell : Option Action),
      (∀ x ∈ l, x = .accept ∨ ∃ id, x = .reduce id) →
      cell = some .accept ∨ ((cell = none ∨ ∃ id, cell = some (.reduce id)) ∧ .accept ∈ l) →
      l.foldl (g.offer c) cell = some .accept := by
    intro l
    induction l with
    | nil => exact fun cell _ h => h.resolve_right fun h => absurd h.2 List.not_mem_nil
    | cons x l ih =>
      intro cell hl h
      obtain ⟨hx, hl⟩ := List.forall_mem_cons.mp hl
      rw [List.foldl_cons]
      refine ih _ hl ?_
      rcases h with rfl | ⟨hcell, hmem⟩
      · exact .inl (hkeep x hx)
      rcases hx with rfl | ⟨id, rfl⟩
      · rcases hcell with rfl | ⟨id, rfl⟩ <;> exact .inl rfl
      · refine .inr ⟨?_, (List.mem_cons.mp hmem).resolve_left (by simp)⟩
        rcases hcell with rfl | ⟨other, rfl⟩
        · exact .inr ⟨id, rfl⟩
        · right
          rw [offer]
          split
          · exact ⟨_, rfl⟩
          · exact ⟨_, rfl⟩
  exact hgo offers none hoffers (.inr ⟨.inl rfl, hmem⟩)

/-- Of reductions alone the lowest rule is kept. -/
lemma foldl_offer_lowest (hoffers : ∀ x ∈ offers, ∃ id', x = .reduce id' ∧ id ≤ id')
    (hmem : .reduce id ∈ offers) : offers.foldl (g.offer c) none = some (.reduce id) := by
  have hoffer : ∀ m n, g.offer c (some (.reduce m)) (.reduce n) = some (.reduce (min m n)) := by
    intro m n
    by_cases hmn : m = n
    · subst hmn
      rw [offer_self, Nat.min_self]
    · simp [offer, clashes, settle, hmn]
  -- the cell holds a rule that is not lower, and it is this one or this one is still to come
  have hgo : ∀ (l : List Action) (cell : Option Action),
      (∀ x ∈ l, ∃ id', x = .reduce id' ∧ id ≤ id') →
      cell = some (.reduce id) ∨
        ((cell = none ∨ ∃ m, cell = some (.reduce m) ∧ id ≤ m) ∧ .reduce id ∈ l) →
      l.foldl (g.offer c) cell = some (.reduce id) := by
    intro l
    induction l with
    | nil => exact fun cell _ h => h.resolve_right fun h => absurd h.2 List.not_mem_nil
    | cons x l ih =>
      intro cell hl h
      obtain ⟨⟨n, rfl, hn⟩, hrest⟩ := List.forall_mem_cons.mp hl
      rw [List.foldl_cons]
      refine ih _ hrest ?_
      rcases h with rfl | ⟨hcell, hmem⟩
      · rw [hoffer, Nat.min_eq_left hn]
        exact .inl rfl
      by_cases hid : n = id
      · subst hid
        left
        rcases hcell with rfl | ⟨m, rfl, hm⟩
        · rfl
        · rw [hoffer, Nat.min_eq_right hm]
      · have hmem : Action.reduce id ∈ l :=
          (List.mem_cons.mp hmem).resolve_left fun h => hid (Action.reduce.inj h).symm
        refine .inr ⟨.inr ?_, hmem⟩
        rcases hcell with rfl | ⟨m, rfl, hm⟩
        · exact ⟨n, rfl, hn⟩
        · exact ⟨min m n, hoffer m n, Nat.le_min.mpr ⟨hm, hn⟩⟩
  exact hgo offers none hoffers (.inr ⟨.inl rfl, hmem⟩)

end Grammar

/-! ## Notes on one row -/

namespace Row

variable {g : Grammar} {b : Basis} {state : StateId} {st : State} {row : Row} {item : Item}
  {c : SymbolId} {cell : Option Action} {rule : RuleId}

/-- The notes on the cell of a symbol. -/
def notesOn (row : Row) (c : SymbolId) : List Conflict := row.conflicts.filter (·.lookahead == c)

/-- An offer to a cell notes what it meets there. -/
lemma conflicts_put (incoming : Action) (hcell : row.actions[c]? = some cell) :
    (row.put g state c incoming).conflicts = row.conflicts ++ g.note state c cell incoming := by
  rw [put, hcell]
  cases cell with
  | none => rfl
  | some existing =>
    simp only [Grammar.offer, Grammar.note]
    cases Grammar.clashes (some existing) incoming <;> rfl

lemma put_of_out_of_range (incoming : Action) (hcell : row.actions[c]? = none) :
    row.put g state c incoming = row := by
  rw [put, hcell]

lemma notesOn_put (c' : SymbolId) (incoming : Action) (hcell : row.actions[c]? = some cell) :
    (row.put g state c' incoming).notesOn c =
      row.notesOn c ++ if c' = c then g.note state c cell incoming else [] := by
  by_cases hc : c' = c
  · subst hc
    rw [notesOn, conflicts_put incoming hcell, List.filter_append, if_pos rfl]
    refine congrArg _ (List.filter_eq_self.mpr fun x hx => ?_)
    exact beq_iff_eq.mpr (Grammar.of_mem_note hx).2.1
  · rw [if_neg hc, List.append_nil]
    cases hcell' : row.actions[c']? with
    | none => rw [put_of_out_of_range incoming hcell']
    | some cell' =>
      rw [notesOn, conflicts_put incoming hcell', List.filter_append, notesOn]
      refine (congrArg _ (List.filter_eq_nil_iff.mpr fun x hx => ?_)).trans (List.append_nil _)
      rw [(Grammar.of_mem_note hx).2.1, beq_iff_eq]
      exact hc

lemma notesOn_putAll {l : List SymbolId} (hl : l.Nodup) (hcell : row.actions[c]? = some cell) :
    (row.putAll g state rule l).notesOn c =
      row.notesOn c ++ if c ∈ l then g.note state c cell (.reduce rule) else [] := by
  induction l generalizing row cell with
  | nil => simp [putAll]
  | cons s l ih =>
    obtain ⟨hs, hrest⟩ := List.nodup_cons.mp hl
    have hput : row.putAll g state rule (s :: l) =
        (row.put g state s (.reduce rule)).putAll g state rule l := rfl
    have hcell' : (row.put g state s (.reduce rule)).actions[c]? = if c = s
      then row.actions[s]?.map fun cell => g.offer s cell (.reduce rule) else row.actions[c]? :=
      getElem?_put
    by_cases hc : c = s
    · subst hc
      rw [if_pos rfl, hcell] at hcell'
      rw [hput, ih hrest hcell', notesOn_put c _ hcell, if_pos rfl, if_neg hs,
        if_pos List.mem_cons_self, List.append_nil]
    · rw [if_neg hc, hcell] at hcell'
      rw [hput, ih hrest hcell', notesOn_put s _ hcell, if_neg (Ne.symm hc), List.append_nil]
      simp [hc]

/-- Filling in an item notes on a cell what its offers to the cell lead to. -/
lemma notesOn_addItem (hcell : row.actions[c]? = some cell) :
    (addItem g b state st row item).notesOn c =
      row.notesOn c ++ g.notes state c cell (item.offers b st c) := by
  have hput : ∀ s incoming, (row.put g state s incoming).notesOn c =
      row.notesOn c ++ g.notes state c cell (if s = c then [incoming] else []) := by
    intro s incoming
    rw [notesOn_put s incoming hcell]
    split <;> simp [Grammar.notes]
  cases hrest : b.remaining item.key with
  | cons part β =>
    cases part with
    | terminal s =>
      cases htarget : st.target? (.terminal s) with
      | none => simp [addItem, Item.offers, hrest, htarget, Grammar.notes]
      | some dest => simpa [addItem, Item.offers, hrest, htarget] using hput s (.shift dest)
    | nonterminal s => cases htarget : st.target? (.nonterminal s) <;>
        simp [addItem, Item.offers, hrest, htarget, Grammar.notes, notesOn]
  | nil =>
    cases hrule : (b.production item.key).rule with
    | none =>
      have heoi := hput SymbolId.eoi .accept
      simp only [eq_comm (a := SymbolId.eoi)] at heoi
      simpa [addItem, Item.offers, hrest, hrule] using heoi
    | some rule =>
      have hall : (row.putAll g state rule item.lookaheads.toList).notesOn c = row.notesOn c ++
          if c ∈ item.lookaheads.toList then g.note state c cell (.reduce rule) else [] :=
        notesOn_putAll item.lookaheads.nodup_toList hcell
      have hoffers : item.offers b st c =
          if c ∈ item.lookaheads.toList then [.reduce rule] else [] := by
        simp only [Item.offers, hrest, hrule]
      have hfallback : ∀ row : Row, (row.putFallback rule).notesOn c = row.notesOn c :=
        fun _ => rfl
      rw [addItem_reduce g state row hrest hrule, hoffers]
      split
      · rw [hfallback, hall]
        split <;> simp [Grammar.notes]
      · rw [hall]
        split <;> simp [Grammar.notes]

/-- The notes on a cell of a row are those that the offers of the items lead to. -/
lemma notesOn_ofState (g : Grammar) (state : StateId) (st : State) (hc : c ≠ SymbolId.epsilon)
    (hwidth : c < b.productions.width) :
    (ofState g b state st).notesOn c = g.notes state c none (st.offers b c) := by
  have hfold : ∀ (l : List Item) (row : Row) (cell : Option Action),
      row.actions[c]? = some cell → (l.foldl (addItem g b state st) row).notesOn c =
        row.notesOn c ++ g.notes state c cell (l.flatMap (Item.offers b st c)) := by
    intro l
    induction l with
    | nil => simp [Grammar.notes]
    | cons item l ih =>
      intro row cell hcell
      have hcell' : (addItem g b state st row item).actions[c]? =
          some ((item.offers b st c).foldl (g.offer c) cell) := by
        rw [getElem?_addItem hc, hcell, Option.map_some]
      rw [List.foldl_cons, ih _ _ hcell', notesOn_addItem hcell, List.flatMap_cons,
        Grammar.notes_append, List.append_assoc]
  rw [ofState, hfold _ _ none]
  · rfl
  · rw [blank, List.getElem?_replicate, if_pos hwidth]

/-- What is noted in a row is noted for its state, on a symbol on which something is called for. Of
the actions noted each is called for there or is `fail`. -/
lemma of_mem_conflicts {x : Conflict} (hx : x ∈ (ofState g b state st).conflicts) :
    x.state = state ∧ (∃ a, st.Calls b x.lookahead a) ∧
      ∀ a ∈ [x.existing, x.incoming, x.chosen], a = .fail ∨ st.Calls b x.lookahead a := by
  refine (ofState_induction (P := fun row => (∀ c a, row.Has c a → a = .fail ∨ st.Calls b c a) ∧
    ∀ x ∈ row.conflicts, x.state = state ∧ (∃ a, st.Calls b x.lookahead a) ∧
      ∀ a ∈ [x.existing, x.incoming, x.chosen], a = .fail ∨ st.Calls b x.lookahead a)
    g b state st ?blank ?put (fun _ _ _ _ ih => ih) ?fallback).2 x hx
  case blank => exact ⟨fun c a hhas => absurd hhas (not_has_blank _ c a), by simp [blank]⟩
  case put =>
    rintro row c incoming hcalls ⟨hrow, ih⟩
    have hhas : ∀ c' a, (row.put g state c incoming).Has c' a → a = .fail ∨ st.Calls b c' a := by
      intro c' a hhas
      rcases has_of_put hhas with hold | ⟨rfl, rfl | rfl⟩
      · exact hrow c' a hold
      · exact .inr hcalls
      · exact .inl rfl
    refine ⟨hhas, fun x hx => ?_⟩
    cases hcell : row.actions[c]? with
    | none =>
      rw [put_of_out_of_range incoming hcell] at hx
      exact ih x hx
    | some cell =>
      rw [conflicts_put incoming hcell] at hx
      rcases List.mem_append.mp hx with hx | hx
      · exact ih x hx
      -- the new note is about what was in the cell, what was offered and what is kept of them
      obtain ⟨hstate, rfl, rfl, rfl, -, hchosen⟩ := Grammar.of_mem_note hx
      have hexisting := hrow x.lookahead x.existing hcell
      refine ⟨hstate, ⟨_, hcalls⟩, ?_⟩
      simp only [List.forall_mem_cons]
      refine ⟨hexisting, .inr hcalls, ?_, fun _ h => absurd h List.not_mem_nil⟩
      rcases g.settle_mem x.lookahead x.existing x.incoming with heq | heq | heq
      · rwa [hchosen, heq]
      · rw [hchosen, heq]
        exact .inr hcalls
      · exact .inl (hchosen.trans heq)
  case fallback =>
    rintro row rule hcalls ⟨hrow, ih⟩
    refine ⟨fun c a hhas => ?_, ih⟩
    rcases has_of_putFallback hhas with hold | ⟨rfl, rfl⟩
    · exact hrow c a hold
    · exact .inr hcalls

end Row

/-! ## Notes on a cell of a table -/

/-- Where blocks are told apart by the state, the clashes of one state are one block. -/
lemma filter_flatten (blocks : List (List Conflict)) (m j : Nat)
    (hblocks : ∀ i block, blocks[i]? = some block → ∀ x ∈ block, x.state = m + i) :
    (blocks.flatten.filter fun x => x.state == m + j) = blocks[j]?.getD [] := by
  induction blocks generalizing m j with
  | nil => rfl
  | cons block blocks ih =>
    have hfirst : ∀ x ∈ block, x.state = m := hblocks 0 block rfl
    have hrest : ∀ i block', blocks[i]? = some block' → ∀ x ∈ block', x.state = m + 1 + i := by
      intro i block' hblock' x hx
      rw [hblocks (i + 1) block' hblock' x hx]
      omega
    rw [List.flatten_cons, List.filter_append]
    cases j with
    | zero =>
      -- all later blocks are of later states
      have hlater : (blocks.flatten.filter fun x => x.state == m + 0) = [] := by
        refine List.filter_eq_nil_iff.mpr fun x hx => ?_
        obtain ⟨block', hblock', hx⟩ := List.mem_flatten.mp hx
        obtain ⟨i, hi⟩ := List.mem_iff_getElem?.mp hblock'
        rw [hrest i block' hi x hx, beq_iff_eq]
        omega
      rw [hlater, List.append_nil]
      exact List.filter_eq_self.mpr fun x hx => beq_iff_eq.mpr (hfirst x hx)
    | succ j =>
      have hearlier : (block.filter fun x => x.state == m + (j + 1)) = [] := by
        refine List.filter_eq_nil_iff.mpr fun x hx => ?_
        rw [hfirst x hx, beq_iff_eq]
        omega
      have hshift : m + (j + 1) = m + 1 + j := by omega
      rw [hearlier, List.nil_append, hshift]
      exact ih (m + 1) j hrest

namespace Automaton

variable {g : Grammar} {a : Automaton} {state : StateId} {st : State} {c : SymbolId}

/-- The clashes noted on a cell are those in the row of its state. -/
lemma conflictsAt_eq_notesOn (hst : a.states[state]? = some st) (c : SymbolId) :
    (a.table g).conflictsAt state c = (Row.ofState g a.basis state st).notesOn c := by
  have hrows : ∀ i, ((a.states.mapIdx fun i st => Row.ofState g a.basis i st).map
      Row.conflicts)[i]? = a.states[i]?.map fun st => (Row.ofState g a.basis i st).conflicts := by
    intro i
    rw [List.getElem?_map, List.getElem?_mapIdx, Option.map_map]
    rfl
  have hblock := filter_flatten _ 0 state fun i block hi x hx => by
    rw [hrows, Option.map_eq_some_iff] at hi
    obtain ⟨st', -, rfl⟩ := hi
    rw [(Row.of_mem_conflicts hx).1, Nat.zero_add]
  rw [Nat.zero_add, hrows, hst, Option.map_some, Option.getD_some] at hblock
  rw [Row.notesOn, ← hblock, List.filter_filter, ActionTable.conflictsAt, table, List.flatMap_def]
  simp only [Bool.and_comm]

/-- The notes on a cell of a table are those that the offers of the items lead to. -/
lemma conflictsAt_table (hst : a.states[state]? = some st) (hc : c ≠ SymbolId.epsilon)
    (hwidth : c < a.basis.productions.width) :
    (a.table g).conflictsAt state c = g.notes state c none (st.offers a.basis c) := by
  rw [conflictsAt_eq_notesOn hst, Row.notesOn_ofState g state st hc hwidth]

lemma action?_table_eq_foldl (hst : a.states[state]? = some st) (hc : c ≠ SymbolId.epsilon)
    (hwidth : c < a.basis.productions.width) :
    (a.table g).action? state c = (st.offers a.basis c).foldl (g.offer c) none := by
  rw [action?_table, hst, Option.bind_some, Row.getElem?_ofState g state st hc hwidth,
    Option.join_some]

end Automaton

/-! ## Cells of the table of a grammar -/

/-- The actions called for on a symbol are what decides its cell, and what was noted on the cell
accounts for what it holds. -/
structure Grammar.Settled (g : Grammar) (t : ActionTable) (state : StateId) (c : SymbolId)
    (called : Action → Prop) : Prop where
  undefined : t.action? state c = none ↔ ∀ a, ¬ called a
  single : ∀ a, called a → (∀ a', called a' → a' = a) → t.action? state c = some a
  accepts : called .accept → t.action? state c = some .accept
  lowest : ∀ id, called (.reduce id) → (∀ a, called a → ∃ id', a = .reduce id' ∧ id ≤ id') →
    t.action? state c = some (.reduce id)
  rule : ∀ id, called (.reduce id) → ∃ r, g.rule? id = some r
  /-- One shift against one reduction: the levels decide, and on a tie the arbitration. -/
  decided : ∀ dest id r, called (.shift dest) → called (.reduce id) →
    (∀ a, called a → a = .shift dest ∨ a = .reduce id) → g.rule? id = some r →
    (r.level < g.level c → t.action? state c = some (.shift dest)) ∧
    (g.level c < r.level → t.action? state c = some (.reduce id)) ∧
    (g.level c = r.level →
      (r.arbitration = .shift → t.action? state c = some (.shift dest)) ∧
      (r.arbitration = .reduce → t.action? state c = some (.reduce id)) ∧
      (r.arbitration = .fail → t.action? state c = some .fail))
  noted : (∃ x ∈ t.conflicts, x.state = state ∧ x.lookahead = c) ↔
    ∃ a, called a ∧ ∃ a', called a' ∧ a ≠ a'
  /-- What a note says: an action that is called for met another one in the cell. -/
  meets : ∀ x ∈ t.conflictsAt state c, called x.incoming ∧ x.existing ≠ x.incoming ∧
    x.chosen = g.settle c x.existing x.incoming
  first : ∀ x ∈ (t.conflictsAt state c).head?, called x.existing
  chain : (t.conflictsAt state c).IsChain fun x y => x.chosen = y.existing
  last : ∀ x ∈ (t.conflictsAt state c).getLast?, t.action? state c = some x.chosen

namespace Grammar

variable {g : Grammar} {target : SymbolId} {a : Automaton} {state : StateId} {st : State}
  {c : SymbolId}

/-- The production of a key stands for a rule, or it has none and no terminal. -/
lemma Valid.production_cases (hg : g.Valid) (htarget : g.target = some target) (key : Nat) :
    (∃ r ∈ g.rules, (g.productions target).basis.production key = g.production r) ∨
      ((g.productions target).basis.production key).rule = none ∧
        ∀ s, .terminal s ∉ ((g.productions target).basis.production key).rhs := by
  rw [Basis.production]
  generalize (g.productions target).basis.productionOf key = p
  rw [Productions.basis_productions]
  cases hp : (g.productions target).get? p with
  | none => exact .inr ⟨rfl, fun s => List.not_mem_nil⟩
  | some prod =>
    by_cases h0 : p = 0
    · rw [h0, (hg.proper_productions htarget).start, Option.some.injEq] at hp
      subst hp
      exact .inr ⟨rfl, by simp⟩
    · obtain ⟨r, hr, hprod⟩ := exists_rule_of_productions_get? hp h0
      exact .inl ⟨r, hr, hprod.symm⟩

/-- A reduction that is called for is one by a rule of the grammar. -/
lemma Valid.rule_of_calls (hg : g.Valid) (htarget : g.target = some target) {id : RuleId}
    (hcalls : st.Calls (g.productions target).basis c (.reduce id)) :
    ∃ r, g.rule? id = some r := by
  obtain ⟨item, -, hcalls⟩ := hcalls
  have hrule : ((g.productions target).basis.production item.key).rule = some id := by
    cases hcalls with
    | reduce _ hrule _ => exact hrule
    | fallback _ hrule _ => exact hrule
  rcases hg.production_cases htarget item.key with ⟨r, hr, hprod⟩ | ⟨hnone, -⟩
  · rw [hprod] at hrule
    cases hrule
    exact ⟨r, hg.rule?_id hr⟩
  · cases hnone.symm.trans hrule

/-- A terminal that may be shifted is mentioned in a clause. -/
lemma Valid.mem_clause_of_calls (hg : g.Valid) (htarget : g.target = some target) {dest : StateId}
    (hcalls : st.Calls (g.productions target).basis c (.shift dest)) :
    ∃ r ∈ g.rules, c ∈ r.clause := by
  obtain ⟨item, -, hcalls⟩ := hcalls
  have hmem : Part.terminal c ∈ ((g.productions target).basis.production item.key).rhs := by
    cases hcalls with
    | shift hrest _ =>
      rw [Basis.remaining] at hrest
      exact List.mem_of_mem_drop (hrest ▸ List.mem_cons_self)
  rcases hg.production_cases htarget item.key with ⟨r, hr, hprod⟩ | ⟨-, hnone⟩
  · rw [hprod] at hmem
    obtain ⟨s, hs, hpart⟩ := List.mem_map.mp hmem
    exact ⟨r, hr, eq_of_part_eq_terminal hpart ▸ Rule.mem_clause hs⟩
  · exact absurd hmem (hnone c)

/-- One shift and one reduction by a rule: the levels decide, and on a tie the arbitration. -/
lemma arbitrate_eq {id : RuleId} {r : Rule} (hr : g.rule? id = some r) (dest : StateId) :
    (r.level < g.level c → g.arbitrate c dest id = .shift dest) ∧
    (g.level c < r.level → g.arbitrate c dest id = .reduce id) ∧
    (g.level c = r.level →
      (r.arbitration = .shift → g.arbitrate c dest id = .shift dest) ∧
      (r.arbitration = .reduce → g.arbitrate c dest id = .reduce id) ∧
      (r.arbitration = .fail → g.arbitrate c dest id = .fail)) := by
  simp only [arbitrate, hr, Option.map_some, Option.getD_some]
  refine ⟨fun h => if_pos h, fun h => ?_, fun h => ?_⟩
  · rw [if_neg (Nat.lt_asymm h), if_pos h]
  · rw [h, if_neg (Nat.lt_irrefl _), if_neg (Nat.lt_irrefl _)]
    refine ⟨fun h => ?_, fun h => ?_, fun h => ?_⟩ <;> rw [h]

/-- A cell that actions are offered to, none of them `fail`, is settled by them. -/
lemma settled_of_offers {t : ActionTable} {called : Action → Prop} {offers : List Action}
    (hcell : t.action? state c = offers.foldl (g.offer c) none)
    (hnotes : t.conflictsAt state c = g.notes state c none offers)
    (hcalled : ∀ a, called a ↔ a ∈ offers) (hfail : ∀ a ∈ offers, a ≠ .fail)
    (hrule : ∀ id, called (.reduce id) → ∃ r, g.rule? id = some r)
    (haccept : .accept ∈ offers → ∀ a ∈ offers, a = .accept ∨ ∃ id, a = .reduce id) :
    g.Settled t state c called := by
  have hnoted : (∃ x ∈ t.conflicts, x.state = state ∧ x.lookahead = c) ↔
      t.conflictsAt state c ≠ [] := by
    rw [ActionTable.conflictsAt, ne_eq, List.filter_eq_nil_iff]
    simp
  -- the first offer fills the cell, and all notes come after it
  have hcons : ∀ x, t.conflictsAt state c = x → x ≠ [] → ∃ a l, offers = a :: l ∧
      x = g.notes state c (some a) l := by
    rintro x rfl hx
    cases offers with
    | nil => exact absurd hnotes hx
    | cons a l => exact ⟨a, l, rfl, hnotes⟩
  refine ⟨?undefined, ?single, ?accepts, ?lowest, hrule, ?decided, ?noted, ?meets, ?first, ?chain,
    ?last⟩
  case undefined =>
    rw [hcell, foldl_offer_eq_none_iff, List.eq_nil_iff_forall_not_mem]
    exact forall_congr' fun a => not_congr (hcalled a).symm
  case single =>
    intro a ha hone
    rw [hcell]
    exact foldl_offer_of_one (fun x hx => hone x ((hcalled x).mpr hx))
      (List.ne_nil_of_mem ((hcalled a).mp ha))
  case accepts =>
    intro ha
    have hmem := (hcalled _).mp ha
    rw [hcell]
    exact foldl_offer_accept (haccept hmem) hmem
  case lowest =>
    intro id hid hlowest
    rw [hcell]
    exact foldl_offer_lowest (fun x hx => hlowest x ((hcalled x).mpr hx)) ((hcalled _).mp hid)
  case decided =>
    intro dest id r hdest hid honly hr
    have harbitrate : t.action? state c = some (g.arbitrate c dest id) := by
      rw [hcell]
      exact foldl_offer_of_two (fun x hx => honly x ((hcalled x).mpr hx)) ((hcalled _).mp hdest)
        ((hcalled _).mp hid)
    obtain ⟨hshift, hreduce, htie⟩ := arbitrate_eq (c := c) hr dest
    rw [harbitrate]
    refine ⟨fun h => congrArg some (hshift h), fun h => congrArg some (hreduce h), fun h => ?_⟩
    obtain ⟨hshift, hreduce, hfail⟩ := htie h
    exact ⟨fun h => congrArg some (hshift h), fun h => congrArg some (hreduce h),
      fun h => congrArg some (hfail h)⟩
  case noted =>
    rw [hnoted, hnotes, notes_ne_nil_iff hfail]
    simp only [hcalled]
  case meets =>
    intro x hx
    rw [hnotes] at hx
    obtain ⟨-, -, hincoming, hne, hchosen⟩ := of_mem_notes hx
    exact ⟨(hcalled _).mpr hincoming, hne, hchosen⟩
  case first =>
    intro x hx
    obtain ⟨a, l, rfl, hl⟩ := hcons _ rfl fun hnil => by simp [hnil] at hx
    rw [hl] at hx
    rw [(notes_chain state a l).2.1 x hx]
    exact (hcalled a).mpr List.mem_cons_self
  case chain =>
    by_cases hnil : t.conflictsAt state c = []
    · rw [hnil]
      exact List.isChain_nil
    · obtain ⟨a, l, -, hl⟩ := hcons _ rfl hnil
      rw [hl]
      exact (notes_chain state a l).1
  case last =>
    intro x hx
    obtain ⟨a, l, rfl, hl⟩ := hcons _ rfl fun hnil => by simp [hnil] at hx
    have hlast : (g.notes state c (some a) l).getLast? = some x := hl ▸ hx
    rw [hcell, List.foldl_cons, offer]
    refine (notes_chain state a l).2.2.trans ?_
    rw [hlast]
    rfl

/-- Every cell of a table outside the `ε` column is what the items of its state call for, and what
was noted on it is exact. No clause mentions the end of input, so that accepting, which is called
for there alone, meets no shift. Where item keys fit, every terminal after a dot can be shifted. -/
theorem Valid.table_settled (hg : g.Valid) (heoi : ∀ r ∈ g.rules, SymbolId.eoi ∉ r.clause)
    (ha : g.automaton = .ok a) (hst : a.states[state]? = some st)
    (hc : g.symbols.isTerminal c = true) (hne : c ≠ SymbolId.epsilon) :
    g.table = .ok (a.table g) ∧ g.Settled (a.table g) state c (st.Calls a.basis c) ∧
      (g.KeysFit → ∀ item ∈ st.items a.basis, ∀ β, a.basis.remaining item.key = .terminal c :: β →
        ∃ dest, st.target? (.terminal c) = some dest) := by
  obtain ⟨target, htarget, -, rfl⟩ := automaton_eq_ok ha
  have hwidth := SymbolTable.lt_size_of_isTerminal hc
  have htable : g.table = .ok ((g.automatonOf target).table g) := by
    rw [table, ha]
    rfl
  have hcell := Automaton.action?_table_eq_foldl (g := g) hst hne hwidth
  have hnotes := Automaton.conflictsAt_table (g := g) hst hne hwidth
  have hcalled : ∀ a, st.Calls (g.productions target).basis c a ↔
      a ∈ st.offers (g.productions target).basis c := fun a => (State.mem_offers hne).symm
  refine ⟨htable, settled_of_offers hcell hnotes hcalled ?_ (fun id => hg.rule_of_calls htarget) ?_,
    fun hk item hitem β hrest => ?_⟩
  · intro a ha
    obtain ⟨item, -, hcalls⟩ := (hcalled a).mpr ha
    exact hcalls.ne_fail
  · -- accepting is called for at the end of input, which no item can shift
    intro haccept a ha
    have heq : c = SymbolId.eoi := by
      obtain ⟨item, -, hcalls⟩ := (hcalled _).mpr haccept
      cases hcalls
      rfl
    have hcalls := (hcalled a).mpr ha
    cases a with
    | shift dest =>
      obtain ⟨r, hr, hmem⟩ := hg.mem_clause_of_calls htarget hcalls
      exact absurd (heq ▸ hmem) (heoi r hr)
    | reduce id => exact .inr ⟨id, rfl⟩
    | accept => exact .inl rfl
    | fail =>
      obtain ⟨item, -, hcalls⟩ := hcalls
      cases hcalls
  · have hb : g.Builds target ((g.automatonOf target).table g) :=
      ⟨hg, htarget, hk target htarget, rfl⟩
    have hmem := List.mem_of_getElem? hst
    exact hb.exists_target hmem (hb.dotted_mem_closure hmem hitem)
      ((Productions.remaining_eq_rest _ _).symm.trans hrest)

/-- Comparisons that may not be chained: `E → E < E` and `E → x`. -/
def chained : Grammar where
  name := none
  symbols := ⟨SymbolTable.initial.entries ++
    [⟨.nonterminal, "E"⟩, ⟨.terminal, "<"⟩, ⟨.terminal, "x"⟩]⟩
  rules := [{ Rule.plain 0 2 [2, 3, 2] with arbitration := .fail }, .plain 1 2 [4]]
  levels := []
  target := some 2

lemma valid_chained : chained.Valid :=
  ⟨⟨_, rfl⟩, rfl, by decide, by decide, by decide, rfl⟩

theorem table_settled_chained : chained.Valid ∧
    (∀ r ∈ chained.rules, SymbolId.eoi ∉ r.clause) ∧ chained.symbols.isTerminal 3 = true ∧
    ∃ a st, chained.automaton = .ok a ∧ a.states[4]? = some st ∧
      chained.Settled (a.table chained) 4 3 (st.Calls a.basis 3) ∧
      (a.table chained).conflictsAt 4 3 = [⟨4, 3, .shift 3, .reduce 0, .fail⟩] ∧
      (a.table chained).action? 4 3 = some .fail := by
  have hautomaton : chained.automaton = .ok (chained.automatonOf 2) := rfl
  have heoi : ∀ r ∈ chained.rules, SymbolId.eoi ∉ r.clause := by decide
  obtain ⟨st, hst⟩ := Option.isSome_iff_exists.mp
    (by decide +kernel : ((chained.automatonOf 2).states[4]?).isSome = true)
  have hnotes : ((chained.automatonOf 2).table chained).conflictsAt 4 3 =
      [⟨4, 3, .shift 3, .reduce 0, .fail⟩] := by
    decide +kernel
  obtain ⟨-, hsettled, -⟩ := valid_chained.table_settled heoi hautomaton hst
    (c := 3) rfl (by decide)
  refine ⟨valid_chained, heoi, rfl, _, st, hautomaton, hst, hsettled, hnotes, ?_⟩
  exact hsettled.last ⟨4, 3, .shift 3, .reduce 0, .fail⟩ (by rw [hnotes]; rfl)

end Grammar

end ShiftReduce
