import ShiftReduce.Proofs.Automaton.Construction
import ShiftReduce.Proofs.Automaton.LeastClosure
import ShiftReduce.Proofs.Table.Overflow
/-!
# Closures in place

The closure of a state may also be worked out in its list of items. One item after another is looked
at. A symbol that it calls for and that has no items yet gets them at the end of the list; of one
that has some all items get the lookaheads that are missing, and if there were any the search goes
back to the first of them, unless it has not come that far. It ends behind the last item.

Demands are met in another order than by `State.close`, and often more than once. The items are the
same ones, in the same places.

Main statement: `Grammar.Valid.close_in_place`.
-/

namespace ShiftReduce

/-- The items of a state while its closure is worked out. -/
structure Worksheet where
  items : List Item
  /-- Where the items of a symbol start, if there are any. -/
  starts : SymbolId → Option Nat
  /-- The number of the item to look at. -/
  place : Nat

/-- Adds lookaheads to some items in a row. -/
def Item.raiseFrom (items : List Item) (start count : Nat) (set : TerminalSet) : List Item :=
  items.take start ++
    (((items.drop start).take count).map fun item => ⟨item.key, item.lookaheads.union set⟩) ++
    items.drop (start + count)

namespace Worksheet

/-- The items of a symbol start at the first that begins a production of it. -/
def ofItems (b : Basis) (items : List Item) : Worksheet where
  items := items
  starts s := items.findIdx? fun item => b.dotOf item.key == 0 && (b.production item.key).lhs == s
  place := 0

/-- Looks at an item. -/
def turn (b : Basis) (w : Worksheet) (item : Item) : Worksheet :=
  match b.demand? item with
  | none => { w with place := w.place + 1 }
  | some (s, set) =>
    match w.starts s with
    | some start =>
      let items := Item.raiseFrom w.items start (b.productions.range s).length set
      if items = w.items then { w with place := w.place + 1 }
      else { w with items := items, place := min w.place start }
    | none =>
      { items := w.items ++ b.openings s set
        starts := Function.update w.starts s (some w.items.length)
        place := w.place + 1 }

section Turn

variable {b : Basis} {w : Worksheet} {item : Item} {s : SymbolId} {set : TerminalSet} {start : Nat}

lemma turn_of_none (h : b.demand? item = none) :
    w.turn b item = { w with place := w.place + 1 } := by
  rw [turn, h]

lemma turn_of_known (h : b.demand? item = some (s, set)) (hstart : w.starts s = some start) :
    w.turn b item =
      if Item.raiseFrom w.items start (b.productions.range s).length set = w.items then
        { w with place := w.place + 1 }
      else ⟨Item.raiseFrom w.items start (b.productions.range s).length set, w.starts,
        min w.place start⟩ := by
  rw [turn, h]
  simp only [hstart]

lemma turn_of_new (h : b.demand? item = some (s, set)) (hstart : w.starts s = none) :
    w.turn b item = ⟨w.items ++ b.openings s set,
      Function.update w.starts s (some w.items.length), w.place + 1⟩ := by
  rw [turn, h]
  simp only [hstart]

end Turn

/-- Looks at items until there is none left. -/
def run (b : Basis) : Nat → Worksheet → Option (List Item)
  | 0, _ => none
  | fuel + 1, w =>
    match w.items[w.place]? with
    | none => some w.items
    | some item => run b fuel (w.turn b item)

end Worksheet

/-- The items with the closure worked out among them. -/
def Basis.closeInPlace (b : Basis) (fuel : Nat) (items : List Item) : Option (List Item) :=
  (Worksheet.ofItems b items).run b fuel

/-! ## Raising a block of items -/

lemma Item.raiseFrom_append (front items back : List Item) (set : TerminalSet) :
    Item.raiseFrom (front ++ (items ++ back)) front.length items.length set =
      front ++ ((items.map fun item => ⟨item.key, item.lookaheads.union set⟩) ++ back) := by
  rw [raiseFrom, List.take_left, List.drop_left, List.take_left, ← List.append_assoc front,
    ← List.length_append, List.drop_left, List.append_assoc]

lemma Item.raiseFrom_zero (items : List Item) (start : Nat) (set : TerminalSet) :
    Item.raiseFrom items start 0 set = items := by
  simp [raiseFrom]

lemma Basis.map_openings (b : Basis) (s : SymbolId) (old set : TerminalSet) :
    (b.openings s old).map (fun item => ⟨item.key, item.lookaheads.union set⟩) =
      b.openings s (old.union set) := by
  rw [openings, openings, List.map_map]
  rfl

/-! ## Where blocks start -/

namespace Basis

variable {b : Basis} {core : List Nat} {symbols before after : List SymbolId} {s s' : SymbolId}

/-- The place of the first item of a symbol. -/
def blockStart (b : Basis) (core : List Nat) (symbols : List SymbolId) (s : SymbolId) :
    Option Nat :=
  if s ∈ symbols then some (b.keysWith core (symbols.takeWhile (· ≠ s))).length else none

lemma blockStart_of_split (hnot : s ∉ before) :
    b.blockStart core (before ++ s :: after) s = some (b.keysWith core before).length := by
  have htake : (before ++ s :: after).takeWhile (· ≠ s) = before := by
    rw [List.takeWhile_append_of_pos fun s' hs' => ?_, List.takeWhile_cons_of_neg (by simp),
      List.append_nil]
    exact decide_eq_true fun heq => hnot (heq ▸ hs')
  rw [blockStart, if_pos (by simp), htake]

lemma blockStart_eq_none_iff : b.blockStart core symbols s = none ↔ s ∉ symbols := by
  simp [blockStart]

lemma mem_of_blockStart {n : Nat} (h : b.blockStart core symbols s = some n) : s ∈ symbols := by
  by_contra hs
  rw [blockStart_eq_none_iff.mpr hs] at h
  cases h

lemma blockStart_append (hne : s ≠ s') :
    b.blockStart core (symbols ++ [s']) s = b.blockStart core symbols s := by
  by_cases hs : s ∈ symbols
  · obtain ⟨before, after, rfl, hnot⟩ := List.eq_append_cons_of_mem hs
    rw [List.append_assoc, List.cons_append, blockStart_of_split hnot, blockStart_of_split hnot]
  · rw [blockStart_eq_none_iff.mpr hs, blockStart_eq_none_iff.mpr (by simp [hs, hne])]

end Basis

/-- The items of a symbol are where they start, and raising them raises the symbol. -/
lemma Item.raiseFrom_block {b : Basis} {kernel : List Item} {c : List (SymbolId × TerminalSet)}
    {s : SymbolId} {start : Nat} (set : TerminalSet) (hrange : b.productions.range s ≠ [])
    (hstart : b.blockStart (kernel.map Item.key) (c.map Prod.fst) s = some start) :
    let items := kernel ++ c.flatMap fun x => b.openings x.1 x.2
    let raised := Item.raiseFrom items start (b.productions.range s).length set
    raised = (kernel ++ (raise c (s, set)).flatMap fun x => b.openings x.1 x.2) ∧
      (raised = items → raise c (s, set) = c) ∧ ∀ n < start, raised[n]? = items[n]? := by
  intro items raised
  obtain ⟨c₁, old, c₂, hc, hnot⟩ := exists_split (Basis.mem_of_blockStart hstart)
  rw [hc, List.map_append, List.map_cons, Basis.blockStart_of_split hnot, Option.some.injEq,
    ← Basis.map_key_items, List.length_map] at hstart
  have hlength : (b.openings s old).length = (b.productions.range s).length := by
    rw [Basis.openings, List.length_map]
  have hitems : items = (kernel ++ c₁.flatMap fun x => b.openings x.1 x.2) ++
      (b.openings s old ++ c₂.flatMap fun x => b.openings x.1 x.2) := by
    simp only [items, hc, List.flatMap_append, List.flatMap_cons, List.append_assoc]
  have hraise : raise c (s, set) = c₁ ++ (s, old.union set) :: c₂ := by
    rw [hc, raise_of_split hnot]
  have hraised : raised = (kernel ++ c₁.flatMap fun x => b.openings x.1 x.2) ++
      (b.openings s (old.union set) ++ c₂.flatMap fun x => b.openings x.1 x.2) := by
    rw [← Basis.map_openings, ← raiseFrom_append, ← hitems, hstart, hlength]
  refine ⟨?_, fun hsame => ?_, fun n hn => ?_⟩
  · rw [hraised, hraise, List.flatMap_append, List.flatMap_cons, List.append_assoc]
  · rw [hraised, hitems] at hsame
    have hopenings := List.append_cancel_right (List.append_cancel_left hsame)
    obtain ⟨p, hp⟩ := List.exists_mem_of_ne_nil _ hrange
    have hunion : old.union set = old := by
      have hmem : (⟨b.key p 0, old.union set⟩ : Item) ∈ b.openings s old :=
        hopenings ▸ List.mem_map.mpr ⟨p, hp, rfl⟩
      obtain ⟨q, -, heq⟩ := List.mem_map.mp hmem
      exact (congrArg Item.lookaheads heq).symm
    rw [hraise, hunion, hc]
  · rw [← hstart] at hn
    rw [hraised, hitems, List.getElem?_append_left hn, List.getElem?_append_left hn]

/-! ## One turn -/

namespace Worksheet

/-- The items are those of a closure of the kernel, in which nothing is that is not owed, and the
items before the place have their demands met. -/
structure Fits (ps : Productions) (kernel : List Item) (c : List (SymbolId × TerminalSet))
    (w : Worksheet) : Prop where
  items : w.items = kernel ++ c.flatMap fun x => ps.basis.openings x.1 x.2
  starts : ∀ s < ps.width, ps.range s ≠ [] →
    w.starts s = ps.basis.blockStart (kernel.map Item.key) (c.map Prod.fst) s
  scanned : ps.basis.Scanned (kernel.map Item.key) (c.map Prod.fst) w.place
  met : ∀ n < w.place, ∀ item, w.items[n]? = some item → ∀ demand,
    ps.basis.demand? item = some demand → ps.range demand.1 ≠ [] → Met c demand
  lt_width : ∀ x ∈ c, x.1 < ps.width ∧ ∀ t ∈ x.2, t < ps.width
  owed : ∀ x ∈ c, ps.Owed (ps.itemSet kernel) x.1 x.2

namespace Fits

variable {ps : Productions} {target s : SymbolId} {kernel : List Item}
  {c : List (SymbolId × TerminalSet)} {w : Worksheet} {item : Item} {set : TerminalSet}
  {start : Nat}

lemma nodup (h : w.Fits ps kernel c) : (c.map Prod.fst).Nodup :=
  h.scanned.found.nodup fun _ _ hnext => (Basis.calls?_of_nextSymbol hnext).2

lemma getElem?_keysWith (h : w.Fits ps kernel c) (hitem : w.items[w.place]? = some item) :
    (ps.basis.keysWith (kernel.map Item.key) (c.map Prod.fst))[w.place]? = some item.key := by
  rw [← Basis.map_key_items, ← h.items, List.getElem?_map, hitem]
  rfl

/-- An item whose demand is met already is left behind. -/
lemma advance (h : w.Fits ps kernel c) (hitem : w.items[w.place]? = some item)
    (hmet : ∀ demand, ps.basis.demand? item = some demand → ps.range demand.1 ≠ [] →
      Met c demand) : Fits ps kernel c { w with place := w.place + 1 } where
  items := h.items
  starts := h.starts
  scanned := by
    have hnote := h.scanned.note (h.getElem?_keysWith hitem)
    have hsame : ps.basis.note (c.map Prod.fst) item.key = c.map Prod.fst := by
      cases hd : ps.basis.demand? item with
      | none => exact Basis.note_of_demand?_eq_none hd
      | some demand =>
        rw [Basis.note, Basis.calls?_of_demand? hd]
        split
        · next s hs =>
          split at hs
          · cases hs
          · next hrange =>
            obtain rfl := Option.some.inj hs
            obtain ⟨set, hset, -⟩ := hmet demand hd hrange
            rw [if_pos (List.mem_map_of_mem hset)]
        · rfl
    rwa [hsame] at hnote
  met n hn item' hitem' := by
    rcases Nat.lt_succ_iff_lt_or_eq.mp hn with hn | rfl
    · exact h.met n hn item' hitem'
    · rwa [Option.some.inj (hitem'.symm.trans hitem)]
  lt_width := h.lt_width
  owed := h.owed

section Turn

variable (hps : ps.Proper target) (hk : ps.KeysFit) (hkernel : ps.IsKernel kernel)

include hps hk hkernel

/-- What an item demands may be raised. -/
lemma raise_owed (h : w.Fits ps kernel c) (hitem : w.items[w.place]? = some item)
    (hdemand : ps.basis.demand? item = some (s, set)) :
    (∀ x ∈ raise c (s, set), x.1 < ps.width ∧ ∀ t ∈ x.2, t < ps.width) ∧
      ∀ x ∈ raise c (s, set), ps.Owed (ps.itemSet kernel) x.1 x.2 := by
  have hmem : item ∈ kernel ++ c.flatMap fun x => ps.basis.openings x.1 x.2 :=
    h.items ▸ List.mem_of_getElem? hitem
  have hlookaheads : ∀ t ∈ item.lookaheads, t < ps.width := by
    rcases List.mem_append.mp hmem with hmem | hmem
    · exact hkernel.lt_width item hmem
    · obtain ⟨x, hx, hmem⟩ := List.mem_flatMap.mp hmem
      rw [Productions.lookaheads_of_mem_openings hmem]
      exact (h.lt_width x hx).2
  constructor
  · exact State.forall_mem_raise (P := fun s set => s < ps.width ∧ ∀ t ∈ set, t < ps.width)
      (fun _ _ _ => State.bounded_union) h.lt_width
      (State.bounded_demand hps hdemand hlookaheads)
  · exact State.forall_mem_raise (P := ps.Owed (ps.itemSet kernel))
      (fun _ _ _ => Productions.owed_union) h.owed
      (Productions.owed_of_item hps hk h.owed hmem hdemand)

/-- The items of a symbol are raised, and the search goes back to them. -/
lemma goBack (h : w.Fits ps kernel c) (hitem : w.items[w.place]? = some item)
    (hdemand : ps.basis.demand? item = some (s, set)) (hrange : ps.range s ≠ [])
    (hstart : ps.basis.blockStart (kernel.map Item.key) (c.map Prod.fst) s = some start) :
    Fits ps kernel (raise c (s, set))
      ⟨Item.raiseFrom w.items start (ps.range s).length set, w.starts, min w.place start⟩ := by
  obtain ⟨hraised, -, hbefore⟩ := Item.raiseFrom_block set hrange hstart
  obtain ⟨hlt, howed⟩ := h.raise_owed hps hk hkernel hitem hdemand
  have hsymbols : (raise c (s, set)).map Prod.fst = c.map Prod.fst := by
    rw [map_fst_raise, if_pos (Basis.mem_of_blockStart hstart)]
  rw [← h.items] at hraised hbefore
  refine ⟨hraised, ?_, ?_, fun n hn item' hitem' demand hd hdrange => ?_, hlt, howed⟩
  · rw [hsymbols]
    exact h.starts
  · rw [hsymbols]
    exact h.scanned.mono (Nat.min_le_left _ _)
  · have hn : n < w.place ∧ n < start := Nat.lt_min.mp hn
    refine (h.met n hn.1 item' ?_ demand hd hdrange).of_grows (grows_raise c _)
    rw [← hbefore n hn.2]
    exact hitem'

/-- A symbol is new, and its items come last. -/
lemma openBlock (h : w.Fits ps kernel c) (hitem : w.items[w.place]? = some item)
    (hdemand : ps.basis.demand? item = some (s, set)) (hrange : ps.range s ≠ [])
    (hs : s ∉ c.map Prod.fst) :
    Fits ps kernel (raise c (s, set))
      ⟨w.items ++ ps.basis.openings s set, Function.update w.starts s (some w.items.length),
        w.place + 1⟩ := by
  obtain ⟨hlt, howed⟩ := h.raise_owed hps hk hkernel hitem hdemand
  have hplace := (List.getElem?_eq_some_iff.mp hitem).1
  have hsymbols : (raise c (s, set)).map Prod.fst = c.map Prod.fst ++ [s] := by
    rw [map_fst_raise, if_neg hs]
  refine ⟨?_, fun s' hs' hrange' => ?_, ?_, fun n hn item' hitem' demand hd hdrange => ?_, hlt,
    howed⟩
  · rw [raise_of_notMem hs, List.flatMap_append, List.flatMap_singleton, ← List.append_assoc,
      ← h.items]
  · rw [hsymbols]
    by_cases heq : s' = s
    · subst heq
      rw [Basis.blockStart_of_split hs, ← Basis.map_key_items, List.length_map, ← h.items]
      exact Function.update_self ..
    · rw [Basis.blockStart_append heq, ← h.starts s' hs' hrange']
      exact Function.update_of_ne heq ..
  · have hnote := h.scanned.note (h.getElem?_keysWith hitem)
    have hraised : ps.basis.raised c (s, set) = raise c (s, set) := if_neg hrange
    rw [← Basis.map_fst_raised hdemand, hraised] at hnote
    exact hnote
  · have hn : n < w.place + 1 := hn
    have hitem' : (w.items ++ ps.basis.openings s set)[n]? = some item' := hitem'
    rw [List.getElem?_append_left (by omega)] at hitem'
    rcases Nat.lt_succ_iff_lt_or_eq.mp hn with hn | rfl
    · exact (h.met n hn item' hitem' demand hd hdrange).of_grows (grows_raise c _)
    · rw [Option.some.inj (hitem'.symm.trans hitem), hdemand, Option.some.injEq] at hd
      rw [← hd]
      exact met_raise c _

/-- A turn keeps the worksheet fitting to a closure that is no smaller. If the closure is the same,
so are the items, and the next one is up. -/
lemma turn (h : w.Fits ps kernel c) (hitem : w.items[w.place]? = some item) :
    ∃ c', Fits ps kernel c' (w.turn ps.basis item) ∧ Grows c c' ∧
      (c = c' → (w.turn ps.basis item).items = w.items ∧
        (w.turn ps.basis item).place = w.place + 1) := by
  cases hd : ps.basis.demand? item with
  | none =>
    rw [turn_of_none hd]
    exact ⟨c, h.advance hitem (by simp [hd]), .refl c, fun _ => ⟨rfl, rfl⟩⟩
  | some demand =>
    obtain ⟨s, set⟩ := demand
    have hwidth : s < ps.width := by
      obtain ⟨β, hrest, -⟩ := Productions.demand?_eq_some_iff.mp hd
      exact (hps.symbol_lt_of_rest hrest).1
    have hadvance : (ps.range s ≠ [] → Met c (s, set)) →
        Fits ps kernel c { w with place := w.place + 1 } := by
      intro hmet
      refine h.advance hitem fun demand hd' hrange => ?_
      obtain rfl := Option.some.inj (hd.symm.trans hd')
      exact hmet hrange
    by_cases hrange : ps.range s = []
    · -- a symbol without productions adds nothing, and where it starts does not matter
      have hfits := hadvance fun hne => absurd hrange hne
      cases hstart : w.starts s with
      | some start =>
        rw [turn_of_known hd hstart, if_pos (by
          rw [ps.basis_productions, hrange, List.length_nil, Item.raiseFrom_zero])]
        exact ⟨c, hfits, .refl c, fun _ => ⟨rfl, rfl⟩⟩
      | none =>
        have hnil : ps.basis.openings s set = [] := by
          rw [Basis.openings, ps.basis_productions, hrange, List.map_nil]
        rw [turn_of_new hd hstart, hnil, List.append_nil]
        refine ⟨c, ⟨hfits.items, fun s' hs' hrange' => ?_, hfits.scanned, hfits.met,
          hfits.lt_width, hfits.owed⟩, .refl c, fun _ => ⟨rfl, rfl⟩⟩
        rw [← h.starts s' hs' hrange']
        refine Function.update_of_ne ?_ ..
        rintro rfl
        exact hrange' hrange
    · have hblock := h.starts s hwidth hrange
      cases hstart : w.starts s with
      | some start =>
        rw [hstart] at hblock
        obtain ⟨hraised, hsame, -⟩ := Item.raiseFrom_block set hrange hblock.symm
        rw [← h.items] at hraised hsame
        rw [turn_of_known hd hstart]
        split
        · next heq =>
          exact ⟨c, hadvance fun _ => met_of_raise_eq (hsame heq), .refl c, fun _ => ⟨rfl, rfl⟩⟩
        · next hne =>
          refine ⟨_, h.goBack hps hk hkernel hitem hd hrange hblock.symm, grows_raise c _,
            fun heq => absurd ?_ hne⟩
          rw [← heq, ← h.items] at hraised
          exact hraised
      | none =>
        have hs : s ∉ c.map Prod.fst := Basis.blockStart_eq_none_iff.mp (hblock.symm.trans hstart)
        rw [turn_of_new hd hstart]
        refine ⟨_, h.openBlock hps hk hkernel hitem hd hrange hs, grows_raise c _, fun heq => ?_⟩
        have hlength := congrArg List.length heq
        rw [raise_of_notMem hs, List.length_append, List.length_singleton] at hlength
        omega

/-! ## The run -/

/-- The search comes to an end, and what it ends with is complete. -/
lemma run (c : List (SymbolId × TerminalSet)) (w : Worksheet) (h : w.Fits ps kernel c) :
    ∃ n c', ps.Completes kernel c' ∧ ∀ fuel, n ≤ fuel → w.run ps.basis fuel =
      some (kernel ++ c'.flatMap fun x => ps.basis.openings x.1 x.2) := by
  cases hitem : w.items[w.place]? with
  | none =>
    have hend := List.getElem?_eq_none_iff.mp hitem
    refine ⟨1, c, ⟨h.scanned.found, fun item hmem demand hd hrange => ?_, h.owed⟩,
      fun fuel hfuel => ?_⟩
    · rw [← h.items] at hmem
      obtain ⟨n, hn⟩ := List.mem_iff_getElem?.mp hmem
      have hlt := (List.getElem?_eq_some_iff.mp hn).1
      exact h.met n (by omega) item hn demand hd hrange
    · obtain ⟨fuel, rfl⟩ := Nat.exists_eq_add_of_le' hfuel
      rw [Worksheet.run, hitem, ← h.items]
  | some item =>
    obtain ⟨c', h', hgrows, hsame⟩ := h.turn hps hk hkernel hitem
    have hplace := (List.getElem?_eq_some_iff.mp hitem).1
    -- the closure knows more, or there is less of the list ahead
    have hless : Prod.Lex (· < ·) (· < ·)
        ((State.unknown ps.width c').card, (w.turn ps.basis item).items.length -
          (w.turn ps.basis item).place)
        ((State.unknown ps.width c).card, w.items.length - w.place) := by
      by_cases heq : c = c'
      · obtain ⟨hitems, hnext⟩ := hsame heq
        rw [← heq, hitems, hnext]
        exact .right _ (by omega)
      · exact .left _ _ (State.card_unknown_lt hgrows heq h.nodup h'.nodup h'.lt_width)
    obtain ⟨n, d, hd, hrun⟩ := run c' (w.turn ps.basis item) h'
    refine ⟨n + 1, d, hd, fun fuel hfuel => ?_⟩
    obtain ⟨fuel, rfl⟩ := Nat.exists_eq_add_of_le' (Nat.le_of_add_left_le hfuel)
    rw [Worksheet.run, hitem]
    exact hrun fuel (by omega)
termination_by ((State.unknown ps.width c).card, w.items.length - w.place)
decreasing_by exact hless

end Turn

/-! ## The first worksheet -/

/-- The items of a state are those of its closure, and each symbol starts where its items do. -/
lemma ofItems (hps : ps.Proper target) (hk : ps.KeysFit) {st : State}
    (hkernel : ps.IsKernel st.kernel) (h : st.Sound ps) :
    Fits ps st.kernel (ps.basis.solid st.closure)
      (Worksheet.ofItems ps.basis (st.items ps.basis)) where
  items := by
    rw [Basis.flatMap_solid]
    rfl
  starts s hs hrange := by
    -- the items at which a search for the symbol stops
    let test (item : Item) : Bool :=
      ps.basis.dotOf item.key == 0 && (ps.basis.production item.key).lhs == s
    have hkernelTest : ∀ item ∈ st.kernel, test item = false := by
      intro item hitem
      rcases hkernel.start_or_moved item hitem with hstart | hpos
      · have hget : ps.get? (ps.basis.dotted item.key).production =
            some ⟨ps.width, [.nonterminal target], none⟩ := by
          rw [hstart]
          exact hps.start
        have hprod := Productions.production_eq hget
        have hne : (ps.basis.production item.key).lhs ≠ s := by
          rw [hprod]
          exact Nat.ne_of_gt hs
        simp [test, hne]
      · have hne : ps.basis.dotOf item.key ≠ 0 := Nat.ne_of_gt hpos
        simp [test, hne]
    have hopenings : ∀ {s' : SymbolId} {set : TerminalSet},
        ∀ item ∈ ps.basis.openings s' set, test item = decide (s' = s) := by
      intro s' set item hitem
      obtain ⟨hdot, prod, hprod, hlhs⟩ := Productions.opening_of_mem_openings hps hk hitem
      have hdot : ps.basis.dotOf item.key = 0 := hdot
      rw [← hlhs, ← Productions.production_eq hprod]
      simp [test, hdot, beq_eq_decide]
    have hfront : ∀ c : List (SymbolId × TerminalSet), s ∉ c.map Prod.fst →
        (st.kernel ++ c.flatMap fun x => ps.basis.openings x.1 x.2).findIdx? test = none := by
      intro c hnot
      refine List.findIdx?_eq_none_iff.mpr fun item hitem => ?_
      rcases List.mem_append.mp hitem with hitem | hitem
      · exact hkernelTest item hitem
      · obtain ⟨x, hx, hitem⟩ := List.mem_flatMap.mp hitem
        rw [hopenings item hitem]
        exact decide_eq_false fun heq => hnot (heq ▸ List.mem_map_of_mem hx)
    show (st.items ps.basis).findIdx? test = _
    rw [State.items, ← Basis.flatMap_solid]
    by_cases hmem : s ∈ (ps.basis.solid st.closure).map Prod.fst
    · obtain ⟨c₁, set, c₂, hc, hnot⟩ := exists_split hmem
      obtain ⟨p, ps', hrest⟩ := List.exists_cons_of_ne_nil hrange
      have hblock : ps.basis.openings s set =
          ⟨ps.basis.key p 0, set⟩ :: ps'.map fun p => ⟨ps.basis.key p 0, set⟩ := by
        rw [Basis.openings, ps.basis_productions, hrest, List.map_cons]
      have hfirst : test ⟨ps.basis.key p 0, set⟩ = true := by
        have hmem : (⟨ps.basis.key p 0, set⟩ : Item) ∈ ps.basis.openings s set :=
          hblock ▸ List.mem_cons_self
        rw [hopenings _ hmem, decide_eq_true rfl]
      rw [hc, List.map_append, List.map_cons, Basis.blockStart_of_split hnot, List.flatMap_append,
        List.flatMap_cons, ← List.append_assoc, List.findIdx?_append, hfront c₁ hnot, hblock,
        List.cons_append, List.findIdx?_cons, hfirst, ← Basis.map_key_items, List.length_map]
      simp
    · rw [hfront _ hmem, Basis.blockStart_eq_none_iff.mpr hmem]
  scanned := ⟨h.found, fun key hkey => by simp [Worksheet.ofItems] at hkey⟩
  met n hn := absurd hn (Nat.not_lt_zero n)
  lt_width x hx := h.tidy.2.2 x (List.mem_of_mem_filter hx)
  owed x hx := h.owed x (List.mem_of_mem_filter hx)

end Fits

end Worksheet

namespace State

variable {ps : Productions} {target : SymbolId} {st : State}

/-- The search ends, and it ends with the items of the completed state. -/
lemma Sound.closeInPlace (h : st.Sound ps) (hps : ps.Proper target) (hk : ps.KeysFit)
    (hkernel : ps.IsKernel st.kernel) :
    ∃ n, ∀ fuel, n ≤ fuel → ps.basis.closeInPlace fuel (st.items ps.basis) =
      some ((st.close ps.basis).items ps.basis) := by
  obtain ⟨n, c, hc, hrun⟩ := Worksheet.Fits.run hps hk hkernel _ _
    (Worksheet.Fits.ofItems hps hk hkernel h)
  rw [items_close, ← hc.eq hps hk hkernel (h.completes hps hk)]
  exact ⟨n, hrun⟩

end State

namespace Grammar

variable {g : Grammar} {target : SymbolId}

/-- The closure worked out in place. For a state with nothing but its kernel, or with what an
earlier completion has found for the same kernel and no more lookaheads, the search ends, with the
kernel and then the items of the least closure. These are the items of the completed state, and they
are the same if the search begins with the kernel alone. -/
theorem Valid.close_in_place (hg : g.Valid) (hk : g.KeysFit) (htarget : g.target = some target)
    {st : State} (hkernel : (g.productions target).IsKernel st.kernel)
    (hst : st.Staged (g.productions target).basis) :
    let ps := g.productions target
    ∃ c, ps.IsLeast st.kernel c ∧
      let items := st.kernel ++ c.flatMap fun x => ps.basis.openings x.1 x.2
      (∃ n, ∀ fuel, n ≤ fuel → ps.basis.closeInPlace fuel (st.items ps.basis) = some items ∧
        ps.basis.closeInPlace fuel st.kernel = some items) ∧
      (st.close ps.basis).items ps.basis = items ∧
      ((State.ofKernel st.kernel).close ps.basis).items ps.basis = items := by
  intro ps
  have hps := hg.proper_productions htarget
  have hfit := hk target htarget
  have hsound := hst.sound hps hfit hkernel
  have hfresh : (State.ofKernel st.kernel).Sound ps :=
    State.Staged.sound hps hfit (.fresh rfl) hkernel
  -- there is one complete closure for the kernel
  have hcomplete := hsound.completes hps hfit
  have hsame := (hfresh.completes hps hfit).eq hps hfit hkernel hcomplete
  have hitems : ((State.ofKernel st.kernel).close ps.basis).items ps.basis =
      (st.close ps.basis).items ps.basis := by
    rw [State.items_close, State.items_close, hsame]
    rfl
  obtain ⟨n, hrun⟩ := hsound.closeInPlace hps hfit hkernel
  obtain ⟨m, hrun'⟩ := hfresh.closeInPlace hps hfit hkernel
  have hkernelItems : (State.ofKernel st.kernel).items ps.basis = st.kernel := List.append_nil _
  rw [hkernelItems, hitems] at hrun'
  refine ⟨_, hcomplete.isLeast hps hfit hkernel, ?_⟩
  rw [← State.items_close]
  exact ⟨⟨max n m, fun fuel hfuel => ⟨hrun fuel ((le_max_left n m).trans hfuel),
    hrun' fuel ((le_max_right n m).trans hfuel)⟩⟩, rfl, hitems⟩

/-- Two symbols that begin with each other: `S → A x`, `S → y`, `A → S z` and `A → w`. -/
def circular : Grammar where
  name := none
  symbols := ⟨SymbolTable.initial.entries ++
    [⟨.nonterminal, "S"⟩, ⟨.nonterminal, "A"⟩, ⟨.terminal, "x"⟩, ⟨.terminal, "y"⟩,
      ⟨.terminal, "z"⟩, ⟨.terminal, "w"⟩]⟩
  rules := [.plain 0 2 [3, 4], .plain 1 2 [5], .plain 2 3 [2, 6], .plain 3 3 [7]]
  levels := []
  target := some 2

/-- The start state, with the closure that was found before the end of input could follow. -/
def circularStart : State where
  kernel := [⟨0, .singleton SymbolId.eoi⟩]
  closure := ((State.ofKernel [⟨0, .empty⟩]).close (circular.productions 2).basis).closure
  transitions := []

theorem close_in_place_circular : circular.Valid ∧ circular.KeysFit ∧ circular.target = some 2 ∧
    (circular.productions 2).IsKernel circularStart.kernel ∧
    circularStart.Staged (circular.productions 2).basis ∧
    circularStart.items (circular.productions 2).basis = [⟨0, .singleton 0⟩, ⟨3, .singleton 6⟩,
      ⟨6, .singleton 6⟩, ⟨9, .singleton 4⟩, ⟨12, .singleton 4⟩] ∧
    ∃ n, ∀ fuel, n ≤ fuel → (circular.productions 2).basis.closeInPlace fuel
        (circularStart.items (circular.productions 2).basis) =
      some [⟨0, .singleton 0⟩, ⟨3, (TerminalSet.singleton 0).union (.singleton 6)⟩,
        ⟨6, (TerminalSet.singleton 0).union (.singleton 6)⟩, ⟨9, .singleton 4⟩,
        ⟨12, .singleton 4⟩] := by
  have hvalid : circular.Valid := ⟨⟨_, rfl⟩, rfl, by decide, by decide, by decide, rfl⟩
  have hfit : circular.KeysFit := by
    rintro target ⟨⟩
    decide
  have hkernel : (circular.productions 2).IsKernel circularStart.kernel := by
    refine ⟨List.pairwise_singleton _ _, fun item hitem => ?_, fun item hitem t ht => ?_⟩
    · rw [List.mem_singleton.mp hitem]
      exact .inl rfl
    · rw [List.mem_singleton.mp hitem, TerminalSet.mem_singleton] at ht
      rw [ht]
      decide
  have hbelow : Item.Below ⟨0, .empty⟩ ⟨0, .singleton SymbolId.eoi⟩ :=
    ⟨rfl, fun t ht => absurd ht TerminalSet.not_mem_empty⟩
  have hstaged : circularStart.Staged (circular.productions 2).basis :=
    .resumed (.fresh rfl) (.cons hbelow .nil) rfl
  refine ⟨hvalid, hfit, rfl, hkernel, hstaged, by decide +kernel, ?_⟩
  obtain ⟨c, -, ⟨n, hrun⟩, hclose, -⟩ := hvalid.close_in_place hfit rfl hkernel hstaged
  refine ⟨n, fun fuel hfuel => ?_⟩
  rw [(hrun fuel hfuel).1, ← hclose]
  decide +kernel

section Wrapped

variable {n m : Nat} (h : Wraps n m)

include h

/-- With keys that wrap around, the items of `A` behind `S → ( . A` are taken for `^ → . S`, and
the items of `S` are added. -/
lemma crowded_closeInPlace (l : TerminalSet) (fuel : Nat) :
    (crowdedBasis n m).closeInPlace (fuel + 5) [⟨(crowdedBasis n m).key 2 1, l⟩] =
      some ([⟨(crowdedBasis n m).key 2 1, l⟩] ++
        ((crowdedBasis n m).openings 4 l ++ (crowdedBasis n m).openings 2 l)) := by
  have hdot : (crowdedBasis n m).dotOf ((crowdedBasis n m).key 2 1) = 1 :=
    congrArg Dotted.dot (crowded_dotted h (p := 2) (d := 1) (by decide) (by decide))
  simp [Basis.closeInPlace, Worksheet.run, Worksheet.ofItems, Worksheet.turn, crowded_demand h,
    crowded_openings_start h, crowded_openings_last h, hdot]

omit h in
/-- Behind `S → ( . A` the dot stands before `A` only. -/
lemma crowded_called (hn : n ≠ 0) : ∀ i ∈ ((crowded n m).productions 2).closure {⟨2, 1⟩}, ∀ s β,
    ((crowded n m).productions 2).rest i = .nonterminal s :: β → s = 4 := by
  obtain ⟨-, -, -, hopen, hlast⟩ := crowded_rest (m := m) hn
  rw [crowded_closure_open hn]
  rintro i (rfl | rfl) s β hrest
  · rw [hopen] at hrest
    cases hrest
    rfl
  · simp [hlast] at hrest

lemma crowded_isKernel : ((crowded n m).productions 2).IsKernel
    [⟨(crowdedBasis n m).key 2 1, .singleton SymbolId.eoi⟩] := by
  have hdotted := crowded_dotted h (p := 2) (d := 1) (by decide) (by decide)
  refine ⟨List.pairwise_singleton _ _, fun item hitem => .inr ?_, fun item hitem t ht => ?_⟩
  · rw [List.mem_singleton.mp hitem]
    exact Nat.lt_of_lt_of_eq Nat.one_pos (congrArg Dotted.dot hdotted).symm
  · rw [List.mem_singleton.mp hitem, TerminalSet.mem_singleton] at ht
    rw [ht]
    exact (by decide : SymbolId.eoi < 9)

/-- The items of `S` are in no least closure of this kernel. -/
lemma crowded_not_least (l : TerminalSet) {c : List (SymbolId × TerminalSet)}
    (hc : ((crowded n m).productions 2).IsLeast [⟨(crowdedBasis n m).key 2 1, l⟩] c) :
    (c.flatMap fun x => (crowdedBasis n m).openings x.1 x.2) ≠
      (crowdedBasis n m).openings 4 l ++ (crowdedBasis n m).openings 2 l := by
  intro heq
  have hcore : (((crowded n m).productions 2).itemSet
      [⟨(crowdedBasis n m).key 2 1, l⟩]).core = {⟨2, 1⟩} := by
    have hdotted := crowded_dotted h (p := 2) (d := 1) (by decide) (by decide)
    ext i
    rw [Set.mem_singleton_iff, ← hdotted]
    simp [Productions.itemSet, Basis.dottedSet, crowdedBasis, eq_comm]
  have hmem : (⟨(crowdedBasis n m).key 1 0, l⟩ : Item) ∈
      c.flatMap fun x => (crowdedBasis n m).openings x.1 x.2 := by
    rw [heq, crowded_openings_start h]
    simp
  obtain ⟨⟨s, set⟩, hx, hmem⟩ := List.mem_flatMap.mp hmem
  obtain ⟨-, i, hi, β, hrest⟩ := (hc.mem_iff s).mp (List.mem_map_of_mem hx)
  rw [hcore] at hi
  have htwo := h.two_le
  obtain rfl := crowded_called (by omega) i hi s β hrest
  rw [crowded_openings_last h, List.mem_singleton, Item.mk.injEq,
    crowded_key_inj h (by decide) (by decide) (by decide) (by decide)] at hmem
  exact absurd hmem.1.1 (by decide)

end Wrapped

/-- Where keys wrap around, the closure that is worked out is not that of the kernel: behind
`S → ( . A` there are items of `S`. -/
theorem spurious_overfull : overfull.Valid ∧ overfull.target = some 2 ∧
    (∃ t, overfull.table = .ok t) ∧
    let ps := overfull.productions 2
    let kernel : List Item := [⟨ps.basis.key 2 1, .singleton SymbolId.eoi⟩]
    ps.IsKernel kernel ∧ (State.ofKernel kernel).Staged ps.basis ∧
    ¬ ∃ c n, ps.IsLeast kernel c ∧ ∀ fuel, n ≤ fuel → ps.basis.closeInPlace fuel kernel =
      some (kernel ++ c.flatMap fun x => ps.basis.openings x.1 x.2) := by
  have hwraps := wraps_overfull
  refine ⟨valid_crowded (by decide), rfl, ⟨_, crowded_table hwraps⟩, crowded_isKernel hwraps,
    .fresh rfl, ?_⟩
  rintro ⟨c, n, hc, hrun⟩
  have hitems := (hrun (n + 5) (by omega)).symm.trans (crowded_closeInPlace hwraps _ n)
  exact crowded_not_least hwraps _ hc (List.append_cancel_left (Option.some.inj hitems))

end Grammar

end ShiftReduce
