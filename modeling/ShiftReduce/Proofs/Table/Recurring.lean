import ShiftReduce.Proofs.Automaton.Regrouping
import ShiftReduce.Proofs.Table.Clash
import ShiftReduce.Proofs.Table.Dispute
/-!
# Clashes that are noted again

One item of a state at most calls for a reduction or for accepting, but several may call for one and
the same shift. So two actions that have met in a cell meet again only if one of them is a shift,
and only if the shift has lost: then the winner is still in the cell when the next item offers the
shift, and wins once more. Such a clash is noted for each of these items, but never more often than
there are items that call for the shift. All other clashes are noted once.

Main statement: `Grammar.Valid.clashes_noted_again`.
-/

namespace ShiftReduce

namespace Conflict

/-- The clashes are between the same two actions in the same cell. -/
def Same (x y : Conflict) : Prop :=
  x.state = y.state ∧ x.lookahead = y.lookahead ∧
    (x.existing = y.existing ∧ x.incoming = y.incoming ∨
      x.existing = y.incoming ∧ x.incoming = y.existing)

instance : DecidableRel Same := fun _ _ => inferInstanceAs (Decidable (_ ∧ _ ∧ _))

/-- A shift is offered to a cell that holds what it has lost to already. -/
def Again (x y : Conflict) : Prop :=
  (∃ dest, y.incoming = .shift dest) ∧ y.chosen = y.existing ∧ x.chosen = y.existing

variable {x y z : Conflict}

lemma Same.refl (x : Conflict) : x.Same x := ⟨rfl, rfl, .inl ⟨rfl, rfl⟩⟩

lemma Same.symm (h : x.Same y) : y.Same x := by
  obtain ⟨hstate, hlookahead, ⟨hexisting, hincoming⟩ | ⟨hexisting, hincoming⟩⟩ := h
  · exact ⟨hstate.symm, hlookahead.symm, .inl ⟨hexisting.symm, hincoming.symm⟩⟩
  · exact ⟨hstate.symm, hlookahead.symm, .inr ⟨hincoming.symm, hexisting.symm⟩⟩

lemma Same.trans (h : x.Same y) (h' : y.Same z) : x.Same z := by
  refine ⟨h.1.trans h'.1, h.2.1.trans h'.2.1, ?_⟩
  rcases h.2.2 with ⟨he, hi⟩ | ⟨he, hi⟩ <;> rcases h'.2.2 with ⟨he', hi'⟩ | ⟨he', hi'⟩
  · exact .inl ⟨he.trans he', hi.trans hi'⟩
  · exact .inr ⟨he.trans he', hi.trans hi'⟩
  · exact .inr ⟨he.trans hi', hi.trans he'⟩
  · exact .inl ⟨he.trans hi', hi.trans he'⟩

/-- A shift is one of the two actions. -/
def HasShift (x : Conflict) : Prop :=
  ∃ dest, x.existing = .shift dest ∨ x.incoming = .shift dest

lemma Same.hasShift (h : x.Same y) (hx : x.HasShift) : y.HasShift := by
  obtain ⟨dest, hx⟩ := hx
  refine ⟨dest, ?_⟩
  rcases h.2.2 with ⟨he, hi⟩ | ⟨he, hi⟩
  · rwa [← he, ← hi]
  · rw [← he, ← hi]
    exact hx.symm

lemma countP_same_congr (h : x.Same y) (l : List Conflict) :
    l.countP (fun z => decide (x.Same z)) = l.countP fun z => decide (y.Same z) := by
  refine List.countP_congr fun z _ => ?_
  simp only [decide_eq_true_eq]
  exact ⟨h.symm.trans, h.trans⟩

end Conflict

/-! ## One cell -/

namespace Grammar

variable {g : Grammar} {state : StateId} {c : SymbolId} {cell : Option Action} {a e : Action}
  {seen : List Action} {notes : List Conflict} {rule : RuleId} {dest : StateId}

/-- Against a shift it does not matter which of the two was there first. -/
lemma settle_shift_comm (he : e.dest? = none) (hfail : e ≠ .fail) :
    g.settle c (.shift dest) e = g.settle c e (.shift dest) := by
  cases e with
  | shift _ => cases he
  | reduce _ => rfl
  | accept => rfl
  | fail => exact absurd rfl hfail

/-- What is in a cell, and the clashes noted on it, after some actions were called for. -/
structure Told (g : Grammar) (c : SymbolId) (seen : List Action) (cell : Option Action)
    (notes : List Conflict) : Prop where
  held : ∀ a, cell = some a → a = .fail ∨ a ∈ seen
  meets : ∀ x ∈ notes, x.existing ∈ seen ∧ x.incoming ∈ seen ∧
    x.chosen = g.settle c x.existing x.incoming
  /-- What is in the cell, a shift apart, has won wherever it was met. -/
  kept : ∀ x ∈ notes, ∀ a, a.dest? = none → x.existing = a ∨ x.incoming = a →
    cell = some a → x.chosen = a
  again : notes.Pairwise fun x y => x.Same y → x.Again y
  counted : ∀ x ∈ notes, x.HasShift →
    notes.countP (fun y => decide (x.Same y)) ≤ (seen.filterMap Action.dest?).length

namespace Told

lemma nil (g : Grammar) (c : SymbolId) : g.Told c [] none [] :=
  ⟨by simp, by simp, by simp, .nil, by simp⟩

lemma mem_of_meets (h : g.Told c seen cell notes) {x : Conflict} (hx : x ∈ notes)
    (ha : x.existing = a ∨ x.incoming = a) : a ∈ seen := by
  obtain ⟨hexisting, hincoming, -⟩ := h.meets x hx
  rcases ha with rfl | rfl
  · exact hexisting
  · exact hincoming

lemma length_le (seen : List Action) (a : Action) : (seen.filterMap Action.dest?).length ≤
    ((seen ++ [a]).filterMap Action.dest?).length := by
  rw [List.filterMap_append, List.length_append]
  exact Nat.le_add_right _ _

/-- Where a call leaves the cell as it is, nothing is noted. -/
lemma skip (h : g.Told c seen cell notes) (a : Action) : g.Told c (seen ++ [a]) cell notes where
  held e he := (h.held e he).imp_right fun hmem => List.mem_append_left _ hmem
  meets x hx := by
    obtain ⟨hexisting, hincoming, hchosen⟩ := h.meets x hx
    exact ⟨List.mem_append_left _ hexisting, List.mem_append_left _ hincoming, hchosen⟩
  kept := h.kept
  again := h.again
  counted x hx hshift := (h.counted x hx hshift).trans (length_le seen a)

/-- An action that was not called for before, or a shift, may be put in the cell silently. -/
lemma fill (h : g.Told c seen cell notes) (hfresh : a.dest? = none → a ∉ seen) :
    g.Told c (seen ++ [a]) (some a) notes where
  held e he := by
    rw [← Option.some.inj he]
    exact .inr (List.mem_append_right _ List.mem_cons_self)
  meets := (h.skip a).meets
  kept x hx e hnone he heq := by
    obtain rfl := Option.some.inj heq
    exact absurd (h.mem_of_meets hx he) (hfresh hnone)
  again := h.again
  counted := (h.skip a).counted

section Meet

variable {y : Conflict} (h : g.Told c seen (some y.existing) notes)
  (hcand : Candidates (seen ++ [y.incoming])) (hfresh : y.incoming.dest? = none → y.incoming ∉ seen)
  (hexisting : y.existing ∈ seen) (hne : y.existing ≠ y.incoming)
  (hchosen : y.chosen = g.settle c y.existing y.incoming)

include h hcand hfresh hexisting hne hchosen

/-- Actions that have met before: a shift comes to what it has lost to. -/
lemma again_of_same {x : Conflict} (hx : x ∈ notes) (hsame : x.Same y) : x.Again y := by
  obtain ⟨-, -, hactions⟩ := hsame
  have hincoming := h.mem_of_meets hx (hactions.symm.imp And.left And.right)
  obtain ⟨dest, hdest⟩ : ∃ dest, y.incoming = .shift dest := by
    cases hdest : y.incoming.dest? with
    | none => exact absurd hincoming (hfresh hdest)
    | some dest => exact ⟨dest, Action.dest?_eq_some_iff.mp hdest⟩
  have hnone : y.existing.dest? = none := by
    refine Option.eq_none_iff_forall_ne_some.mpr fun dest' hdest' => hne ?_
    rw [Action.dest?_eq_some_iff] at hdest'
    rw [hdest', hdest, hcand.dest_unique dest' dest (List.mem_append_left _ (hdest' ▸ hexisting))
      (List.mem_append_left _ (hdest ▸ hincoming))]
  have hfail : y.existing ≠ .fail := fun heq =>
    hcand.fail_notMem (List.mem_append_left _ (heq ▸ hexisting))
  have hkept : x.chosen = y.existing :=
    h.kept x hx y.existing hnone (hactions.imp And.left And.right) rfl
  have hboth : x.chosen = y.chosen := by
    rw [(h.meets x hx).2.2, hchosen]
    rcases hactions with ⟨heq, heq'⟩ | ⟨heq, heq'⟩
    · rw [heq, heq']
    · rw [heq, heq', hdest, settle_shift_comm hnone hfail]
  exact ⟨⟨dest, hdest⟩, hboth.symm.trans hkept, hkept⟩

/-- A clash is counted no more often than the shift in it was called for. -/
lemma counted_meet {x : Conflict} (hx : x ∈ notes ++ [y]) (hshift : x.HasShift) :
    (notes ++ [y]).countP (fun z => decide (x.Same z)) ≤
      ((seen ++ [y.incoming]).filterMap Action.dest?).length := by
  have hcount : ∀ x : Conflict, (notes ++ [y]).countP (fun z => decide (x.Same z)) =
      notes.countP (fun z => decide (x.Same z)) + if x.Same y then 1 else 0 := by
    intro x
    rw [List.countP_append, List.countP_singleton]
    simp
  -- what comes again is a shift, which was called for once more
  have hold : ∀ x ∈ notes, x.HasShift → (notes ++ [y]).countP (fun z => decide (x.Same z)) ≤
      ((seen ++ [y.incoming]).filterMap Action.dest?).length := by
    intro x hx hshift
    rw [hcount]
    have hle := h.counted x hx hshift
    split
    · next hsame =>
      obtain ⟨⟨dest, hdest⟩, -⟩ :=
        h.again_of_same hcand hfresh hexisting hne hchosen hx hsame
      rw [hdest, List.filterMap_append, List.length_append]
      exact Nat.add_le_add_right hle 1
    · exact hle.trans (length_le seen _)
  rcases List.mem_append.mp hx with hx | hx
  · exact hold x hx hshift
  obtain rfl := List.mem_singleton.mp hx
  by_cases hmet : ∃ z ∈ notes, z.Same x
  · obtain ⟨z, hz, hsame⟩ := hmet
    rw [← Conflict.countP_same_congr hsame]
    exact hold z hz (hsame.symm.hasShift hshift)
  · have hzero : notes.countP (fun z => decide (x.Same z)) = 0 :=
      List.countP_eq_zero.mpr fun z hz hsame => hmet ⟨z, hz, (of_decide_eq_true hsame).symm⟩
    rw [hcount, hzero, if_pos (.refl x), Nat.zero_add]
    obtain ⟨dest, hdest⟩ := hshift
    have hmem : Action.shift dest ∈ seen ++ [x.incoming] := by
      rcases hdest with hdest | hdest
      · exact List.mem_append_left _ (hdest ▸ hexisting)
      · exact List.mem_append_right _ (List.mem_singleton.mpr hdest.symm)
    exact List.length_pos_of_mem (List.mem_filterMap.mpr ⟨_, hmem, rfl⟩)

/-- What is called for meets another action in the cell. -/
lemma meet : g.Told c (seen ++ [y.incoming]) (some y.chosen) (notes ++ [y]) := by
  have hincoming : y.incoming ∈ seen ++ [y.incoming] :=
    List.mem_append_right _ List.mem_cons_self
  have hmem := g.settle_mem c y.existing y.incoming
  rw [← hchosen] at hmem
  refine ⟨?held, ?meets, ?kept, ?again, fun x => h.counted_meet hcand hfresh hexisting hne hchosen⟩
  case held =>
    intro a ha
    obtain rfl := Option.some.inj ha
    rcases hmem with heq | heq | heq
    · exact .inr (heq ▸ List.mem_append_left _ hexisting)
    · exact .inr (heq ▸ hincoming)
    · exact .inl heq
  case meets =>
    refine List.forall_mem_append.mpr ⟨(h.skip _).meets, List.forall_mem_singleton.mpr ?_⟩
    exact ⟨List.mem_append_left _ hexisting, hincoming, hchosen⟩
  case kept =>
    refine List.forall_mem_append.mpr ⟨fun x hx a hnone ha hcell => ?_,
      List.forall_mem_singleton.mpr fun a _ _ hcell => Option.some.inj hcell⟩
    -- earlier notes are about what stays in the cell, since what comes is new to them
    have hseen := h.mem_of_meets hx ha
    rw [Option.some.injEq] at hcell
    subst hcell
    rcases hmem with heq | heq | heq
    · exact h.kept x hx _ hnone ha (congrArg some heq.symm)
    · rw [heq] at hnone hseen
      exact absurd hseen (hfresh hnone)
    · rw [heq] at hseen
      exact absurd (List.mem_append_left _ hseen) hcand.fail_notMem
  case again =>
    refine List.pairwise_append.mpr ⟨h.again, List.pairwise_singleton _ _, fun x hx z hz => ?_⟩
    obtain rfl := List.mem_singleton.mp hz
    exact h.again_of_same hcand hfresh hexisting hne hchosen hx

end Meet

/-- What becomes of a cell that an action is offered to. -/
lemma offer (h : g.Told c seen cell notes) (hcand : Candidates (seen ++ [a]))
    (hfresh : a.dest? = none → a ∉ seen) :
    g.Told c (seen ++ [a]) (g.offer c cell a) (notes ++ g.note state c cell a) := by
  cases cell with
  | none =>
    rw [note, List.append_nil]
    exact h.fill hfresh
  | some e =>
    rw [note, Grammar.offer]
    split
    · next hclash =>
      rw [clashes, Bool.and_eq_true, bne_iff_ne, bne_iff_ne] at hclash
      exact meet (y := ⟨state, c, e, a, g.settle c e a⟩) h hcand hfresh
        ((h.held e rfl).resolve_left hclash.2) hclash.1 rfl
    · rw [List.append_nil]
      exact h.skip a

/-- What becomes of a cell of the `ε` column that a fallback is entered in. -/
lemma fallback (h : g.Told c seen cell notes) (hfresh : .reduce rule ∉ seen) :
    g.Told c (seen ++ [.reduce rule]) (offerFallback cell rule) notes := by
  have hfill := h.fill (a := .reduce rule) fun _ => hfresh
  unfold offerFallback
  split
  · exact hfill
  · split
    · exact hfill
    · exact h.skip _
  · exact h.skip _

end Told

end Grammar

/-! ## One item after another -/

/-- A reduction that was offered before its fallback is entered leaves nothing to the fallback. -/
lemma offerFallback_offer (g : Grammar) (c : SymbolId) (cell : Option Action) (rule : RuleId) :
    offerFallback (g.offer c cell (.reduce rule)) rule = g.offer c cell (.reduce rule) := by
  cases cell with
  | none => simp [Grammar.offer, offerFallback]
  | some e =>
    cases e with
    | shift dest =>
      have hoffer : g.offer c (some (.shift dest)) (.reduce rule) =
          some (g.arbitrate c dest rule) := rfl
      rw [hoffer]
      rcases g.arbitrate_mem c dest rule with h | h | h <;> simp [h, offerFallback]
    | reduce other =>
      rw [Grammar.offer_reduce_reduce, offerFallback,
        if_neg (Nat.not_lt.mpr (Nat.min_le_right other rule))]
    | accept => rfl
    | fail => rfl

namespace Item

variable {b : Basis} {st : State} {item : Item} {c : SymbolId} {a a' : Action} {dest : StateId}

/-- Does the terminal stand after the dot of the item? -/
def shifts (b : Basis) (c : SymbolId) (item : Item) : Bool :=
  (b.remaining item.key).head? == some (.terminal c)

lemma Calls.shifts (h : item.Calls b st c (.shift dest)) : item.shifts b c = true := by
  cases h with
  | shift hrest _ => rw [Item.shifts, hrest, List.head?_cons, beq_self_eq_true]

/-- An item calls for one action at most on a symbol. -/
lemma Calls.unique (h : item.Calls b st c a) (h' : item.Calls b st c a') : a = a' := by
  cases h <;> cases h' <;> simp_all

/-- What calls for a reduction or for accepting is complete. -/
lemma Calls.complete (h : item.Calls b st c a) (ha : a.dest? = none) :
    b.remaining item.key = [] ∧ (b.production item.key).rule = a.rule? := by
  cases h with
  | shift _ _ => cases ha
  | accept hrest hrule => exact ⟨hrest, hrule⟩
  | reduce hrest hrule _ => exact ⟨hrest, hrule⟩
  | fallback hrest hrule _ => exact ⟨hrest, hrule⟩

/-- An item offers one action at most to a cell. -/
lemma offers_cases (b : Basis) (st : State) (c : SymbolId) (item : Item) :
    item.offers b st c = [] ∨ ∃ a, item.offers b st c = [a] ∧ item.Calls b st c a := by
  rw [offers]
  split
  · next s β hrest =>
    split
    · next hs =>
      subst hs
      cases htarget : st.target? (.terminal s) with
      | none => exact .inl rfl
      | some dest => exact .inr ⟨_, rfl, .shift hrest htarget⟩
    · exact .inl rfl
  · exact .inl rfl
  · next hrest =>
    split
    · next hrule =>
      split
      · next hs =>
        subst hs
        exact .inr ⟨_, rfl, .accept hrest hrule⟩
      · exact .inl rfl
    · next rule hrule =>
      split
      · next ht => exact .inr ⟨_, rfl, .reduce hrest hrule (TerminalSet.mem_toList.mp ht)⟩
      · exact .inl rfl

/-- An item leaves a cell as it is, or enters its fallback there. -/
lemma fall_cases (b : Basis) (st : State) (c : SymbolId) (item : Item) :
    (∀ cell, item.fall b c cell = cell) ∨ ∃ rule, item.Calls b st c (.reduce rule) ∧
      ∀ cell, item.fall b c cell = offerFallback cell rule := by
  cases hrule : (b.production item.key).rule with
  | none => exact .inl fun cell => by simp only [fall, hrule]
  | some rule =>
    by_cases hc : c = SymbolId.epsilon ∧ (b.production item.key).rhs.isEmpty = true
    · have hrest : b.remaining item.key = [] := by
        rw [Basis.remaining, List.isEmpty_iff.mp hc.2, List.drop_nil]
      right
      exact ⟨rule, hc.1 ▸ .fallback hrest hrule hc.2,
        fun cell => by simp only [fall, hrule, if_pos hc]⟩
    · exact .inl fun cell => by simp only [fall, hrule, if_neg hc]

end Item

namespace Row

variable {g : Grammar} {b : Basis} {state : StateId} {st : State} {row : Row} {item : Item}
  {c : SymbolId} {done : List Item}

/-- Some items have been filled in, and this is what is known of the cell of a symbol. -/
def Recorded (g : Grammar) (b : Basis) (st : State) (c : SymbolId) (done : List Item) (row : Row) :
    Prop :=
  ∃ seen cell, row.actions[c]? = some cell ∧ g.Told c seen cell (row.notesOn c) ∧
    (∀ a ∈ seen, ∃ item ∈ done, item.Calls b st c a) ∧
    (seen.filterMap Action.dest?).length ≤ done.countP (Item.shifts b c)

/-- Filling in one more item. -/
lemma Recorded.addItem (h : row.Recorded g b st c done) (hitem : item ∈ st.items b)
    (hdone : ∀ item ∈ done, item ∈ st.items b)
    (hfresh : ∀ a : Action, a.dest? = none → item.Calls b st c a →
      ∀ item' ∈ done, ¬ item'.Calls b st c a) :
    (addItem g b state st row item).Recorded g b st c (done ++ [item]) := by
  obtain ⟨seen, cell, hcell, htold, hseen, hcount⟩ := h
  have hcell' : (Row.addItem g b state st row item).actions[c]? =
      some (item.fall b c ((item.offers b st c).foldl (g.offer c) cell)) := by
    rw [getElem?_addItem_fall, hcell, Option.map_some]
  have hnotes : (Row.addItem g b state st row item).notesOn c =
      row.notesOn c ++ g.notes state c cell (item.offers b st c) := notesOn_addItem hcell
  -- what the item calls for comes last, and it may be called for by this item
  have hcalled : ∀ {a}, item.Calls b st c a → ∀ x ∈ seen ++ [a],
      ∃ item' ∈ done ++ [item], item'.Calls b st c x := by
    intro a ha x hx
    rcases List.mem_append.mp hx with hx | hx
    · obtain ⟨item', hitem', hcalls⟩ := hseen x hx
      exact ⟨item', List.mem_append_left _ hitem', hcalls⟩
    · obtain rfl := List.mem_singleton.mp hx
      exact ⟨item, List.mem_append_right _ List.mem_cons_self, ha⟩
  have hcand : ∀ {a}, item.Calls b st c a → Candidates (seen ++ [a]) := fun ha =>
    Grammar.candidates_of_calls fun x hx => by
      obtain ⟨item', hitem', hcalls⟩ := hcalled ha x hx
      refine ⟨item', ?_, hcalls⟩
      rcases List.mem_append.mp hitem' with hmem | hmem
      · exact hdone item' hmem
      · exact List.mem_singleton.mp hmem ▸ hitem
  have hnew : ∀ {a : Action}, item.Calls b st c a → a.dest? = none → a ∉ seen := by
    intro a ha hnone hmem
    obtain ⟨item', hitem', hcalls⟩ := hseen a hmem
    exact hfresh a hnone ha item' hitem' hcalls
  have hcount' : ∀ {a}, item.Calls b st c a → ((seen ++ [a]).filterMap Action.dest?).length ≤
      (done ++ [item]).countP (Item.shifts b c) := by
    intro a ha
    rw [List.filterMap_append, List.length_append, List.countP_append]
    refine Nat.add_le_add hcount ?_
    cases hdest : a.dest? with
    | none => simp [hdest]
    | some dest =>
      rw [Action.dest?_eq_some_iff] at hdest
      subst hdest
      simp [Action.dest?, ha.shifts]
  rcases item.offers_cases b st c with hoffers | ⟨a, hoffers, ha⟩ <;>
    rcases item.fall_cases b st c with hfall | ⟨rule, hrule, hfall⟩ <;>
    rw [hoffers, hfall] at hcell' <;> rw [hoffers] at hnotes
  · rw [Grammar.notes, List.append_nil] at hnotes
    refine ⟨seen, _, hcell', hnotes ▸ htold, fun a ha => ?_, ?_⟩
    · obtain ⟨item', hitem', hcalls⟩ := hseen a ha
      exact ⟨item', List.mem_append_left _ hitem', hcalls⟩
    · rw [List.countP_append]
      exact hcount.trans (Nat.le_add_right _ _)
  · rw [Grammar.notes, List.append_nil] at hnotes
    exact ⟨_, _, hcell', hnotes ▸ htold.fallback (hnew hrule rfl), hcalled hrule, hcount' hrule⟩
  · rw [Grammar.notes, Grammar.notes, List.append_nil] at hnotes
    exact ⟨_, _, hcell', hnotes ▸ htold.offer (hcand ha) (hnew ha), hcalled ha, hcount' ha⟩
  · obtain rfl := ha.unique hrule
    rw [List.foldl_cons, List.foldl_nil, offerFallback_offer] at hcell'
    rw [Grammar.notes, Grammar.notes, List.append_nil] at hnotes
    exact ⟨_, _, hcell', hnotes ▸ htold.offer (hcand ha) (hnew ha), hcalled ha, hcount' ha⟩

/-- What is known of the cells of a state, in which no two items call for the same action unless it
is a shift. -/
lemma recorded_ofState (hwidth : c < b.productions.width)
    (hitems : (st.items b).Pairwise fun item item' => ∀ a : Action, a.dest? = none →
      item.Calls b st c a → ¬ item'.Calls b st c a) :
    (ofState g b state st).Recorded g b st c (st.items b) := by
  have hfold : ∀ (l done : List Item) (row : Row), st.items b = done ++ l →
      row.Recorded g b st c done →
      (l.foldl (Row.addItem g b state st) row).Recorded g b st c (st.items b) := by
    intro l
    induction l with
    | nil =>
      intro done row heq h
      rw [heq, List.append_nil]
      exact h
    | cons item l ih =>
      intro done row heq h
      have hpair := List.pairwise_append.mp (heq ▸ hitems)
      refine ih (done ++ [item]) _ (by rw [heq, List.append_assoc, List.singleton_append])
        (h.addItem ?_ (fun item' hitem' => ?_) fun a hnone ha item' hitem' hcalls => ?_)
      · rw [heq]
        exact List.mem_append_right _ List.mem_cons_self
      · rw [heq]
        exact List.mem_append_left _ hitem'
      · exact hpair.2.2 item' hitem' item List.mem_cons_self a hnone hcalls ha
  refine hfold _ [] _ rfl ⟨[], none, ?_, .nil g c, by simp, by simp⟩
  rw [blank, List.getElem?_replicate, if_pos hwidth]

/-- Clashes are noted in columns only. -/
lemma lookahead_lt_of_mem_conflicts {x : Conflict} (hx : x ∈ (ofState g b state st).conflicts) :
    x.lookahead < b.productions.width := by
  refine (ofState_induction (P := fun row => row.actions.length = b.productions.width ∧
    ∀ x ∈ row.conflicts, x.lookahead < b.productions.width) g b state st ?blank ?put
    (fun _ _ _ _ ih => ih) ?fallback).2 x hx
  case blank => exact ⟨List.length_replicate, by simp [blank]⟩
  case put =>
    rintro row c a - ⟨hlength, ih⟩
    refine ⟨length_put.trans hlength, fun x hx => ?_⟩
    cases hcell : row.actions[c]? with
    | none =>
      rw [put_of_out_of_range a hcell] at hx
      exact ih x hx
    | some cell =>
      rw [conflicts_put a hcell] at hx
      rcases List.mem_append.mp hx with hx | hx
      · exact ih x hx
      · rw [(Grammar.of_mem_note hx).2.1, ← hlength]
        exact (List.getElem?_eq_some_iff.mp hcell).1
  case fallback =>
    rintro row rule - ⟨hlength, ih⟩
    exact ⟨by rw [putFallback, List.length_modify, hlength], ih⟩

end Row

/-! ## The clashes of a table -/

/-- What holds of any two members with the same key, in their order, holds of all with the same key
if it does so among the members of each key. -/
lemma pairwise_of_filter {α β : Type} [BEq β] [LawfulBEq β] (key : α → β) {R : α → α → Prop}
    {l : List α} (h : ∀ x ∈ l, (l.filter fun y => key y == key x).Pairwise R) :
    l.Pairwise fun x y => key x = key y → R x y := by
  refine List.pairwise_iff_getElem.mpr fun i j hi hj hij hkey => ?_
  have hpair := List.pairwise_filter.mp (h l[i] (List.getElem_mem hi))
  exact List.pairwise_iff_getElem.mp hpair i j hi hj hij (beq_self_eq_true _)
    (beq_iff_eq.mpr hkey.symm)

/-- Of a list no two members of which satisfy a test, one satisfies it at most. -/
lemma countP_le_one {α : Type} {test : α → Bool} {l : List α}
    (h : l.Pairwise fun x y => test x = true → ¬ test y = true) : l.countP test ≤ 1 := by
  induction l with
  | nil => exact Nat.zero_le 1
  | cons x l ih =>
    obtain ⟨hx, hl⟩ := List.pairwise_cons.mp h
    by_cases htest : test x = true
    · have hzero : l.countP test = 0 := List.countP_eq_zero.mpr fun y hy => hx y hy htest
      rw [List.countP_cons_of_pos htest, hzero]
    · rw [List.countP_cons_of_neg htest]
      exact ih hl

namespace Grammar

variable {g : Grammar} {a : Automaton} {target : SymbolId} {t : ActionTable} {st : State}
  {x : Conflict}

/-- No two items of a state call for the same reduction, or both for accepting. -/
lemma Builds.pairwise_calls (h : g.Builds target t)
    (hst : st ∈ (g.automatonOf target).states) (c : SymbolId) :
    (st.items (g.productions target).basis).Pairwise fun item item' => ∀ a : Action,
      a.dest? = none → item.Calls (g.productions target).basis st c a →
        ¬ item'.Calls (g.productions target).basis st c a := by
  have hnodup := List.pairwise_map.mp (h.isLalr.nodup_items st hst)
  refine hnodup.imp_of_mem fun {item item'} hitem hitem' hne a hnone hcalls hcalls' => hne ?_
  obtain ⟨hrest, hrule⟩ := hcalls.complete hnone
  obtain ⟨hrest', hrule'⟩ := hcalls'.complete hnone
  have hdotted : ∀ item ∈ st.items (g.productions target).basis,
      (g.productions target).basis.remaining item.key = [] →
      (g.productions target).get? ((g.productions target).basis.dotted item.key).production =
          some ((g.productions target).basis.production item.key) ∧
        ((g.productions target).basis.dotted item.key).dot =
          ((g.productions target).basis.production item.key).rhs.length := by
    intro item hitem hrest
    obtain ⟨prod, hp, hdot⟩ := (h.isLalr.reachable st hst).isDotted h.proper
      (h.dotted_mem_closure hst hitem)
    rw [Productions.production_eq hp]
    rw [Productions.remaining_eq_rest, Productions.rest_eq hp, List.drop_eq_nil_iff] at hrest
    exact ⟨hp, Nat.le_antisymm hdot hrest⟩
  obtain ⟨hp, hdot⟩ := hdotted item hitem hrest
  obtain ⟨hp', hdot'⟩ := hdotted item' hitem' hrest'
  have hnumber := h.valid.production_unique h.accepts hp hp' (hrule.trans hrule'.symm)
  have hsame := Option.some.inj (hp.symm.trans ((congrArg _ hnumber).trans hp'))
  exact congrArg₂ Dotted.mk hnumber (hdot.trans (hsame ▸ hdot'.symm))

/-- Every clash is noted in a state. -/
lemma exists_state_of_mem_conflicts (hx : x ∈ (a.table g).conflicts) :
    ∃ st, a.states[x.state]? = some st ∧
      x ∈ (Row.ofState g a.basis x.state st).conflicts := by
  rw [Automaton.table, List.mem_flatMap] at hx
  obtain ⟨row, hrow, hx⟩ := hx
  obtain ⟨i, hi, rfl⟩ := List.mem_mapIdx.mp hrow
  obtain rfl := (Row.of_mem_conflicts hx).1
  exact ⟨_, List.getElem?_eq_getElem hi, hx⟩

/-- A clash is noted again only when a shift is offered once more to what it has lost to, so no
more often than items call for the shift; any other clash is noted once. -/
theorem Valid.clashes_noted_again (hg : g.Valid) (hfit : g.KeysFit) (ha : g.automaton = .ok a) :
    g.table = .ok (a.table g) ∧
    ((a.table g).conflicts.Pairwise fun x y => x.Same y → x.Again y) ∧
    ∀ x ∈ (a.table g).conflicts, ∃ st, a.states[x.state]? = some st ∧
      (a.table g).conflicts.countP (fun y => decide (x.Same y)) ≤
        max 1 ((st.items a.basis).countP (Item.shifts a.basis x.lookahead)) := by
  obtain ⟨target, htarget, -, rfl⟩ := automaton_eq_ok ha
  have htable : g.table = .ok ((g.automatonOf target).table g) := by
    rw [table, ha]
    rfl
  have hb : g.Builds target ((g.automatonOf target).table g) :=
    ⟨hg, htarget, hfit target htarget, rfl⟩
  have htold : ∀ x ∈ ((g.automatonOf target).table g).conflicts, ∃ st,
      (g.automatonOf target).states[x.state]? = some st ∧ ∃ seen cell,
        g.Told x.lookahead seen cell
          (((g.automatonOf target).table g).conflictsAt x.state x.lookahead) ∧
        (seen.filterMap Action.dest?).length ≤
          (st.items (g.productions target).basis).countP
            (Item.shifts (g.productions target).basis x.lookahead) := by
    intro x hx
    obtain ⟨st, hst, hx⟩ := exists_state_of_mem_conflicts hx
    have hrecorded : (Row.ofState g (g.productions target).basis x.state st).Recorded g
        (g.productions target).basis st x.lookahead (st.items (g.productions target).basis) :=
      Row.recorded_ofState (Row.lookahead_lt_of_mem_conflicts hx)
        (hb.pairwise_calls (List.mem_of_getElem? hst) x.lookahead)
    obtain ⟨seen, cell, -, htold, -, hcount⟩ := hrecorded
    rw [Automaton.conflictsAt_eq_notesOn hst]
    exact ⟨st, hst, seen, cell, htold, hcount⟩
  have hcell : ∀ x : Conflict, ((g.automatonOf target).table g).conflictsAt x.state x.lookahead =
      ((g.automatonOf target).table g).conflicts.filter
        fun y => (y.state, y.lookahead) == (x.state, x.lookahead) := fun x => rfl
  have hagain : ((g.automatonOf target).table g).conflicts.Pairwise
      fun x y => x.Same y → x.Again y := by
    refine (pairwise_of_filter (fun x : Conflict => (x.state, x.lookahead))
      (R := fun x y => x.Same y → x.Again y) fun x hx => ?_).imp
      fun h hsame => h (Prod.ext hsame.1 hsame.2.1) hsame
    obtain ⟨st, -, seen, cell, h, -⟩ := htold x hx
    exact hcell x ▸ h.again
  refine ⟨htable, hagain, fun x hx => ?_⟩
  obtain ⟨st, hst, seen, cell, h, hcount⟩ := htold x hx
  refine ⟨st, hst, ?_⟩
  by_cases hshift : x.HasShift
  · have hmem : x ∈ ((g.automatonOf target).table g).conflictsAt x.state x.lookahead := by
      rw [hcell x]
      exact List.mem_filter.mpr ⟨hx, beq_self_eq_true _⟩
    have hcounted := h.counted x hmem hshift
    rw [hcell x, List.countP_filter] at hcounted
    refine le_max_of_le_right (le_trans (le_of_eq ?_) (hcounted.trans hcount))
    refine List.countP_congr fun y _ => ?_
    rw [Bool.and_eq_true, decide_eq_true_eq, beq_iff_eq]
    exact ⟨fun hsame => ⟨hsame, Prod.ext hsame.1.symm hsame.2.1.symm⟩, And.left⟩
  · -- what is noted again would be a shift
    refine le_max_of_le_left (countP_le_one (hagain.imp fun {y z} h hy => ?_))
    rw [decide_eq_true_eq] at hy ⊢
    intro hz
    obtain ⟨⟨dest, hdest⟩, -⟩ := h (hy.symm.trans hz)
    exact hshift (hz.symm.hasShift ⟨dest, .inr hdest⟩)

/-- `S → B t`, `S → A`, `S → C`, `B → x`, `A → x t` and `C → x t y`: behind `x` two items call for
shifting `t`, and the reduction by `B → x` is preferred to that. -/
def insistent : Grammar where
  name := none
  symbols := ⟨SymbolTable.initial.entries ++
    [⟨.nonterminal, "S"⟩, ⟨.nonterminal, "B"⟩, ⟨.terminal, "t"⟩, ⟨.nonterminal, "A"⟩,
      ⟨.nonterminal, "C"⟩, ⟨.terminal, "x"⟩, ⟨.terminal, "y"⟩]⟩
  rules := [.plain 0 2 [3, 4], .plain 1 2 [5], .plain 2 2 [6],
    { Rule.plain 3 3 [7] with arbitration := .reduce }, .plain 4 5 [7, 4], .plain 5 6 [7, 4, 8]]
  levels := []
  target := some 2

lemma valid_insistent : insistent.Valid :=
  ⟨⟨_, rfl⟩, rfl, by decide, by decide, by decide, rfl⟩

lemma keysFit_insistent : insistent.KeysFit := by
  rintro target ⟨⟩
  decide

lemma conflicts_insistent : ((insistent.automatonOf 2).table insistent).conflicts =
    [⟨5, 4, .reduce 3, .shift 7, .reduce 3⟩, ⟨5, 4, .reduce 3, .shift 7, .reduce 3⟩] := by
  decide +kernel

theorem clashes_noted_again_insistent : insistent.Valid ∧ insistent.KeysFit ∧
    ∃ a st, insistent.automaton = .ok a ∧ insistent.table = .ok (a.table insistent) ∧
      ((a.table insistent).conflicts.Pairwise fun x y => x.Same y → x.Again y) ∧
      a.states[5]? = some st ∧ (a.table insistent).conflicts.countP (fun y =>
        decide (Conflict.Same ⟨5, 4, .reduce 3, .shift 7, .reduce 3⟩ y)) = 2 ∧
      2 ≤ max 1 ((st.items a.basis).countP (Item.shifts a.basis 4)) := by
  have hautomaton : insistent.automaton = .ok (insistent.automatonOf 2) := rfl
  obtain ⟨htable, hagain, hcount⟩ :=
    valid_insistent.clashes_noted_again keysFit_insistent hautomaton
  have hmem : (⟨5, 4, .reduce 3, .shift 7, .reduce 3⟩ : Conflict) ∈
      ((insistent.automatonOf 2).table insistent).conflicts := by
    rw [conflicts_insistent]
    exact List.mem_cons_self
  obtain ⟨st, hst, hle⟩ := hcount _ hmem
  rw [conflicts_insistent] at hle
  exact ⟨valid_insistent, keysFit_insistent, _, st, hautomaton, htable, hagain, hst,
    by rw [conflicts_insistent]; decide, hle⟩

/-- A clash may be noted twice. -/
theorem noted_twice : insistent.Valid ∧ ∃ t, insistent.table = .ok t ∧
    ¬ t.conflicts.Pairwise fun x y => ¬ (x.state = y.state ∧ x.lookahead = y.lookahead ∧
      (x.existing = y.existing ∧ x.incoming = y.incoming ∨
        x.existing = y.incoming ∧ x.incoming = y.existing)) := by
  refine ⟨valid_insistent, (insistent.automatonOf 2).table insistent, rfl, ?_⟩
  rw [conflicts_insistent]
  decide

end Grammar

end ShiftReduce
