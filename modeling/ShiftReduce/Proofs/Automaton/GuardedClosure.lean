import ShiftReduce.Proofs.Automaton.Guarded
import ShiftReduce.Proofs.Automaton.InPlace
/-!
# Closures by index, with guarded accesses

The closure of a state is worked out in its list of items, over a lowered grammar. A key leads to
its production by position, the dot to a symbol of the production and to what stands behind it, an
index to its first set and to its span, and the start of a block to the items of the block, one
after another. There is no result if one of these accesses is out of range.

For items that fit a closure of a kernel there is a result: the items, and the place that is looked
at, are at every turn those of the search by symbol, and the block of an index starts where that of
its symbol does. That a block ends before the list does is what a misplaced start would break.

Main statement: `Guarded.closeInPlace_eq`.
-/

namespace ShiftReduce

/-- What the search for states reads: the lowered grammar, the stride of the item keys, and the
first sets by index. -/
structure LoweredBasis where
  lowered : Lowered
  stride : Nat
  firsts : List FirstSet

namespace LoweredBasis

/-- The key of a production and the number of symbols before the dot. -/
def key (b : LoweredBasis) (production dot : Nat) : Nat := (production * b.stride + dot) % wordRange

/-- The number of the production of a key. -/
def productionOf (b : LoweredBasis) (key : Nat) : Nat := key / b.stride

/-- The number of symbols before the dot of a key. -/
def dotOf (b : LoweredBasis) (key : Nat) : Nat := key % b.stride

/-- The production of a key, which must be there. -/
def production? (b : LoweredBasis) (key : Nat) : Option LoweredProduction :=
  b.lowered.prods[b.productionOf key]?

/-- The numbers of the productions of an index, which must be taken. -/
def range? (b : LoweredBasis) (n : Nat) : Option (List Nat) :=
  (b.lowered.nts[n]?).map fun x => x.2.numbers

/-- The basis is that of the productions, by index. -/
structure Mirrors (b : LoweredBasis) (ps : Productions) : Prop where
  lowered : b.lowered.Mirrors ps
  stride : b.stride = ps.stride
  firsts : ∃ z, b.firsts = Guarded.byIndex b.lowered (FirstSets.compute ps) z

end LoweredBasis

/-- One more than the length of the longest right-hand side. -/
def Lowered.stride (l : Lowered) : Nat :=
  l.prods.foldl (fun n prod => max n prod.symbols.length) 0 + 1

lemma Lowered.Mirrors.stride {l : Lowered} {ps : Productions} (h : l.Mirrors ps) :
    l.stride = ps.stride := by
  simp only [Lowered.stride, Productions.stride, h.list, List.foldl_map, production,
    List.length_map]

/-- Where items of a symbol start there is room for all of them. -/
lemma Worksheet.Fits.start_add_length_le {ps : Productions} {kernel : List Item}
    {c : List (SymbolId × TerminalSet)} {w : Worksheet} {s : SymbolId} {start : Nat}
    (h : w.Fits ps kernel c) (hs : s < ps.width)
    (hrange : ps.range s ≠ []) (hstart : w.starts s = some start) :
    start + (ps.range s).length ≤ w.items.length := by
  rw [h.starts s hs hrange] at hstart
  obtain ⟨c₁, set, c₂, hc, hnot⟩ := exists_split (Basis.mem_of_blockStart hstart)
  rw [hc, List.map_append, List.map_cons, Basis.blockStart_of_split hnot, Option.some.injEq,
    ← Basis.map_key_items, List.length_map] at hstart
  rw [h.items, hc, ← hstart]
  simp [Basis.openings, ps.basis_productions]
  omega

namespace Guarded

/-- The basis of a lowered grammar. -/
def basis (l : Lowered) (fuel : Nat) : Option LoweredBasis := do
  return ⟨l, l.stride, ← firsts l fuel⟩

variable {l : Lowered} {b : LoweredBasis} {ps : Productions} {target s : SymbolId} {n : Nat}

lemma basis_eq (h : l.Mirrors ps) (hps : ps.Proper target) :
    ∃ b : LoweredBasis, b.lowered = l ∧ b.Mirrors ps ∧ ∃ n, ∀ fuel, n ≤ fuel →
      basis l fuel = some b := by
  obtain ⟨z, n, hfirsts⟩ := firsts_eq h hps
  refine ⟨⟨l, l.stride, byIndex l (FirstSets.compute ps) z⟩, rfl, ⟨h, h.stride, z, rfl⟩, n,
    fun fuel hfuel => ?_⟩
  rw [basis, hfirsts fuel hfuel]
  rfl

/-! ## The closure of a state -/

/-- The items of a state while its closure is worked out. -/
structure Sheet where
  items : List Item
  /-- Where the items of an index start, if there are any. -/
  starts : Nat → Option Nat
  /-- The number of the item to look at. -/
  place : Nat

/-- Adds lookaheads to the item of a number, which must be there. -/
def raiseAt (set : TerminalSet) (items : List Item) (j : Nat) : Option (List Item) := do
  let item ← items[j]?
  return items.set j ⟨item.key, item.lookaheads.union set⟩

/-- Adds lookaheads to some items in a row. -/
def raise (items : List Item) (start count : Nat) (set : TerminalSet) : Option (List Item) :=
  (List.range' start count).foldlM (raiseAt set) items

/-- What stands behind a position, which must not be beyond the end. -/
def behind (symbols : List LoweredSymbol) (i : Nat) : Option (List LoweredSymbol) :=
  if i ≤ symbols.length then some (symbols.drop i) else none

namespace Sheet

/-- Notes where the items of the left-hand side of an item start, if it begins a production and none
has been noted. -/
def note (b : LoweredBasis) (starts : Nat → Option Nat) (x : Item × Nat) :
    Option (Nat → Option Nat) :=
  if b.dotOf x.1.key = 0 then do
    let prod ← b.production? x.1.key
    return if (starts prod.nt).isNone then Function.update starts prod.nt (some x.2) else starts
  else some starts

/-- The items of a state, with the starts of those that begin productions. -/
def ofItems (b : LoweredBasis) (items : List Item) : Option Sheet := do
  return ⟨items, ← items.zipIdx.foldlM (note b) fun _ => none, 0⟩

/-- Looks at an item that calls for an index. -/
def call (b : LoweredBasis) (w : Sheet) (n : Nat) (set : TerminalSet) : Option Sheet := do
  let numbers ← b.range? n
  match w.starts n with
  | some start =>
    let items ← raise w.items start numbers.length set
    return if items = w.items then { w with place := w.place + 1 }
      else { w with items := items, place := if start < w.place then start else w.place }
  | none =>
    return {
      items := w.items ++ numbers.map fun p => ⟨b.key p 0, set⟩
      starts := Function.update w.starts n (some w.items.length)
      place := w.place + 1 }

/-- Looks at an item. -/
def turn (b : LoweredBasis) (w : Sheet) (item : Item) : Option Sheet := do
  let prod ← b.production? item.key
  if b.dotOf item.key = prod.symbols.length then return { w with place := w.place + 1 }
  else match ← prod.symbols[b.dotOf item.key]? with
    | .token _ => return { w with place := w.place + 1 }
    | .nonterminal n =>
      let rest ← behind prod.symbols (b.dotOf item.key + 1)
      let first ← symbolsFirst b.lowered.width b.firsts (some item.lookaheads) .empty rest
      call b w n first.terminals

/-- Looks at items until there is none left. -/
def run (b : LoweredBasis) : Nat → Sheet → Option (List Item)
  | 0, _ => none
  | fuel + 1, w =>
    match w.items[w.place]? with
    | none => some w.items
    | some item => do run b fuel (← w.turn b item)

end Sheet

/-- The items with the closure worked out among them. -/
def closeInPlace (b : LoweredBasis) (fuel : Nat) (items : List Item) : Option (List Item) := do
  (← Sheet.ofItems b items).run b fuel

/-- Every item of the list is a production with a dot in it. -/
def AreDotted (ps : Productions) (items : List Item) : Prop :=
  ∀ item ∈ items, ps.IsDotted (ps.basis.dotted item.key)

/-! ## Accesses that are in range -/

lemma empty_union (set : TerminalSet) : TerminalSet.empty.union set = set :=
  TerminalSet.ext_mem fun t => by simp

lemma raiseAt_length (front back : List Item) (item : Item) (set : TerminalSet) :
    raiseAt set (front ++ item :: back) front.length =
      some (front ++ ⟨item.key, item.lookaheads.union set⟩ :: back) := by
  simp [raiseAt]

/-- A block that ends before the list does is raised, and so is one without items. -/
lemma raise_eq {items : List Item} {start count : Nat} (set : TerminalSet)
    (h : count ≠ 0 → start + count ≤ items.length) :
    raise items start count set = some (Item.raiseFrom items start count set) := by
  by_cases hzero : count = 0
  · rw [hzero, Item.raiseFrom_zero]
    rfl
  have h := h hzero
  have hblock : ∀ (block front back : List Item),
      raise (front ++ (block ++ back)) front.length block.length set = some (front ++
        ((block.map fun item => ⟨item.key, item.lookaheads.union set⟩) ++ back)) := by
    intro block
    induction block with
    | nil => exact fun _ _ => rfl
    | cons item block ih =>
      intro front back
      have hnext := ih (front ++ [⟨item.key, item.lookaheads.union set⟩]) back
      rw [List.length_append, List.length_singleton, List.append_assoc, List.append_assoc,
        List.singleton_append] at hnext
      rw [raise, List.length_cons, List.range'_succ, List.foldlM_cons, List.cons_append,
        raiseAt_length, Option.bind_eq_bind, Option.bind_some]
      exact hnext
  have hsplit : items.take start ++
      ((items.drop start).take count ++ items.drop (start + count)) = items := by
    rw [← List.drop_drop, List.take_append_drop, List.take_append_drop]
  have hfront : (items.take start).length = start := by
    rw [List.length_take]
    omega
  have hcount : ((items.drop start).take count).length = count := by
    rw [List.length_take, List.length_drop]
    omega
  have hraise := hblock ((items.drop start).take count) (items.take start)
    (items.drop (start + count))
  rw [hfront, hcount, hsplit] at hraise
  rw [hraise, Item.raiseFrom, List.append_assoc]

section Mirrors

variable (h : b.Mirrors ps) (hps : ps.Proper target)

include h

lemma key_eq (p dot : Nat) : b.key p dot = ps.basis.key p dot := by
  rw [LoweredBasis.key, h.stride]
  rfl

lemma productionOf_eq (key : Nat) : b.productionOf key = ps.basis.productionOf key := by
  rw [LoweredBasis.productionOf, h.stride]
  rfl

lemma dotOf_eq (key : Nat) : b.dotOf key = ps.basis.dotOf key := by
  rw [LoweredBasis.dotOf, h.stride]
  rfl

/-- The key of an item has a production, and its dot is not beyond the end. -/
lemma exists_production {key : Nat} (hkey : ps.IsDotted (ps.basis.dotted key)) :
    ∃ prod ∈ b.lowered.prods, b.production? key = some prod ∧
      ps.basis.production key = b.lowered.production prod ∧
      b.dotOf key ≤ prod.symbols.length := by
  obtain ⟨prod', hprod', hdot⟩ := hkey
  rw [h.lowered.get?_eq] at hprod'
  obtain ⟨prod, hprod, rfl⟩ := Option.map_eq_some_iff.mp hprod'
  refine ⟨prod, List.mem_of_getElem? hprod, ?_, Productions.production_eq ?_, ?_⟩
  · rw [LoweredBasis.production?, productionOf_eq h]
    exact hprod
  · rw [h.lowered.get?_eq, hprod, Option.map_some]
  · rw [dotOf_eq h]
    exact hdot.trans_eq (List.length_map _)

lemma range?_eq (hn : b.lowered.IsIndex n) :
    b.range? n = some (ps.range (b.lowered.ntSymbol n)) := by
  rw [← h.lowered.range_eq n hn, LoweredBasis.range?, Lowered.range,
    List.getElem?_eq_getElem hn.2, Option.map_some, Option.elim_some]

include hps

/-- An item either calls for nothing, or it calls for an index and there is a first set. -/
lemma Sheet.turn_cases (w : Sheet) {item : Item} (hitem : ps.IsDotted (ps.basis.dotted item.key)) :
    ps.basis.demand? item = none ∧ w.turn b item = some { w with place := w.place + 1 } ∨
      ∃ n set, b.lowered.IsIndex n ∧
        ps.basis.demand? item = some (b.lowered.ntSymbol n, set) ∧
        w.turn b item = w.call b n set := by
  obtain ⟨prod, hmem, hprod, hproduction, hdot⟩ := exists_production h hitem
  have hremaining : ps.basis.remaining item.key =
      (prod.symbols.drop (b.dotOf item.key)).map b.lowered.part := by
    rw [Basis.remaining, hproduction, Lowered.production, List.map_drop, dotOf_eq h]
  rw [Basis.demand?, hremaining, Sheet.turn, hprod, Option.bind_eq_bind, Option.bind_some]
  by_cases hend : b.dotOf item.key = prod.symbols.length
  · rw [if_pos hend, hend, List.drop_length]
    exact .inl ⟨rfl, rfl⟩
  · have hlt : b.dotOf item.key < prod.symbols.length := Nat.lt_of_le_of_ne hdot hend
    have hrange := h.lowered.inRange hps hmem
    have hrest : ∀ symbol ∈ prod.symbols.drop (b.dotOf item.key + 1),
        b.lowered.InRange symbol := fun symbol hmem => hrange symbol (List.mem_of_mem_drop hmem)
    have hsymbol := hrange _ (List.getElem_mem hlt)
    rw [if_neg hend, List.drop_eq_getElem_cons hlt, List.map_cons, List.getElem?_eq_getElem hlt,
      Option.bind_eq_bind, Option.bind_some]
    generalize prod.symbols[b.dotOf item.key] = symbol at hsymbol
    cases symbol with
    | token s => exact .inl ⟨rfl, rfl⟩
    | nonterminal n =>
      obtain ⟨z, hfirsts⟩ := h.firsts
      refine .inr ⟨n, _, hsymbol, rfl, ?_⟩
      have hfirst : symbolsFirst b.lowered.width (byIndex b.lowered (FirstSets.compute ps) z)
          (some item.lookaheads) .empty (prod.symbols.drop (b.dotOf item.key + 1)) = _ :=
        symbolsFirst_eq _ hrest
      simp only [behind, if_pos (Nat.succ_le_of_lt hlt), Option.bind_eq_bind, Option.bind_some,
        hfirsts, hfirst, Option.getD_some, empty_union]
      rfl

omit h in
lemma areDotted_openings (hk : ps.KeysFit) (s : SymbolId) (set : TerminalSet) :
    AreDotted ps (ps.basis.openings s set) :=
  fun _ hitem => (Productions.opening_of_mem_openings hps hk hitem).isDotted

omit h in
/-- With the kernel all items of a state are productions with a dot. -/
lemma areDotted_items (hk : ps.KeysFit) {st : State} (hdotted : AreDotted ps st.kernel) :
    AreDotted ps (st.items ps.basis) := by
  refine List.forall_mem_append.mpr ⟨hdotted, fun item hitem => ?_⟩
  obtain ⟨x, -, hitem⟩ := List.mem_flatMap.mp hitem
  exact areDotted_openings hps hk x.1 x.2 item hitem

/-! ## Turn by turn -/

namespace Sheet

/-- The sheet by index is the worksheet by symbol. -/
structure Like (b : LoweredBasis) (w : Sheet) (w' : Worksheet) : Prop where
  items : w.items = w'.items
  starts : ∀ n, b.lowered.IsIndex n → w.starts n = w'.starts (b.lowered.ntSymbol n)
  place : w.place = w'.place

variable {w : Sheet} {w' : Worksheet} {item : Item} {set : TerminalSet}

omit hps in
/-- An index is called for as its symbol is, if its block ends before the list does. -/
lemma Like.call (hlike : w.Like b w') (hn : b.lowered.IsIndex n)
    (hdemand : ps.basis.demand? item = some (b.lowered.ntSymbol n, set))
    (hroom : ∀ start, w'.starts (b.lowered.ntSymbol n) = some start →
      ps.range (b.lowered.ntSymbol n) ≠ [] →
        start + (ps.range (b.lowered.ntSymbol n)).length ≤ w'.items.length) :
    ∃ v, w.call b n set = some v ∧ v.Like b (w'.turn ps.basis item) := by
  obtain ⟨items, starts, place⟩ := w
  obtain ⟨rfl, hstarts, rfl⟩ := hlike
  rw [Sheet.call, range?_eq h hn, Option.bind_eq_bind, Option.bind_some]
  cases hknown : w'.starts (b.lowered.ntSymbol n) with
  | some start =>
    have hstart : starts n = some start := (hstarts n hn).trans hknown
    have hraise := raise_eq set fun hcount =>
      hroom start hknown (List.ne_nil_of_length_pos (Nat.pos_of_ne_zero hcount))
    rw [Worksheet.turn_of_known hdemand hknown, ps.basis_productions]
    simp only [hstart, hraise]
    refine ⟨_, rfl, ?_⟩
    split
    · exact ⟨rfl, hstarts, rfl⟩
    · refine ⟨rfl, hstarts, ?_⟩
      show (if start < w'.place then start else w'.place) = min w'.place start
      split <;> omega
  | none =>
    have hstart : starts n = none := (hstarts n hn).trans hknown
    rw [Worksheet.turn_of_new hdemand hknown]
    simp only [hstart]
    refine ⟨_, rfl, ?_, fun m hm => ?_, rfl⟩
    · rw [Basis.openings, ps.basis_productions]
      simp only [key_eq h]
    · show Function.update starts n _ m = Function.update w'.starts _ _ (b.lowered.ntSymbol m)
      by_cases hmn : m = n
      · rw [hmn, Function.update_self, Function.update_self]
      · have hne : b.lowered.ntSymbol m ≠ b.lowered.ntSymbol n :=
          fun heq => hmn (h.lowered.ntSymbol_inj hm.2 hn.2 heq)
        rw [Function.update_of_ne hmn, Function.update_of_ne hne]
        exact hstarts m hm

omit hps in
/-- The starts of blocks by index are those by symbol. -/
lemma foldlM_note {items : List Item} (hitems : AreDotted ps items) (starts : Nat → Option Nat)
    (k : Nat) : ∃ starts', (items.zipIdx k).foldlM (note b) starts = some starts' ∧
      ∀ n, b.lowered.IsIndex n → starts' n = (starts n).or ((items.findIdx? fun item =>
        ps.basis.dotOf item.key == 0 &&
          (ps.basis.production item.key).lhs == b.lowered.ntSymbol n).map (· + k)) := by
  induction items generalizing starts k with
  | nil => exact ⟨starts, rfl, fun n _ => by simp⟩
  | cons item items ih =>
    obtain ⟨hitem, hitems⟩ := List.forall_mem_cons.mp hitems
    obtain ⟨prod, hmem, hprod, hproduction, -⟩ := exists_production h hitem
    have hshift : ∀ o : Option Nat, (o.map (· + 1)).map (· + k) = o.map (· + (k + 1)) := by
      rintro (_ | i)
      · rfl
      · exact congrArg some (Nat.add_right_comm i 1 k)
    by_cases hdot : ps.basis.dotOf item.key = 0
    · have hnote : note b starts (item, k) = some (if (starts prod.nt).isNone then
          Function.update starts prod.nt (some k) else starts) := by
        rw [note, dotOf_eq h, if_pos hdot, hprod]
        rfl
      obtain ⟨starts', hfold, hstarts'⟩ := ih hitems (if (starts prod.nt).isNone then
        Function.update starts prod.nt (some k) else starts) (k + 1)
      refine ⟨starts', ?_, fun n hn => ?_⟩
      · rw [List.zipIdx_cons, List.foldlM_cons, hnote]
        exact hfold
      · have hlhs := h.lowered.lhs_eq_iff hn hmem
        rw [hstarts' n hn, List.findIdx?_cons, hproduction, ← hshift]
        by_cases hnt : prod.nt = n
        · -- the item is the first of its index, unless there is a start already
          subst hnt
          cases hold : starts prod.nt <;> simp [hold, hdot, hlhs]
        · have hsame : (if (starts prod.nt).isNone then Function.update starts prod.nt (some k)
              else starts) n = starts n := by
            split
            · exact Function.update_of_ne (Ne.symm hnt) _ _
            · rfl
          rw [hsame]
          simp [hdot, hlhs, hnt]
    · have hnote : note b starts (item, k) = some starts := by
        rw [note, dotOf_eq h, if_neg hdot]
      obtain ⟨starts', hfold, hstarts'⟩ := ih hitems starts (k + 1)
      refine ⟨starts', ?_, fun n hn => ?_⟩
      · rw [List.zipIdx_cons, List.foldlM_cons, hnote]
        exact hfold
      · rw [hstarts' n hn, List.findIdx?_cons, ← hshift]
        simp [hdot]

omit hps in
/-- The sheet of some items is their worksheet. -/
lemma ofItems_like {items : List Item} (hitems : AreDotted ps items) :
    ∃ w, ofItems b items = some w ∧ w.Like b (Worksheet.ofItems ps.basis items) := by
  obtain ⟨starts, hfold, hstarts⟩ := foldlM_note h hitems (fun _ => none) 0
  refine ⟨⟨items, starts, 0⟩, ?_, rfl, fun n hn => ?_, rfl⟩
  · rw [ofItems, hfold]
    rfl
  · show starts n = _
    rw [hstarts n hn, Option.none_or]
    exact Option.map_id'

variable (hk : ps.KeysFit) {kernel : List Item} {c : List (SymbolId × TerminalSet)}

include hk

/-- Turn by turn the search by index does what the search by symbol does. -/
lemma run_eq (hkernel : ps.IsKernel kernel) (hdotted : AreDotted ps kernel) (fuel : Nat)
    (hfits : w'.Fits ps kernel c) (hlike : w.Like b w') :
    w.run b fuel = w'.run ps.basis fuel := by
  induction fuel generalizing w w' c with
  | zero => rfl
  | succ fuel ih =>
    rw [Sheet.run, Worksheet.run, hlike.items, hlike.place]
    cases hitem : w'.items[w'.place]? with
    | none => rfl
    | some item =>
      have hmem : item ∈ kernel ++ c.flatMap fun x => ps.basis.openings x.1 x.2 :=
        hfits.items ▸ List.mem_of_getElem? hitem
      have hitemDotted : ps.IsDotted (ps.basis.dotted item.key) := by
        rcases List.mem_append.mp hmem with hmem | hmem
        · exact hdotted item hmem
        · obtain ⟨x, -, hmem⟩ := List.mem_flatMap.mp hmem
          exact areDotted_openings hps hk x.1 x.2 item hmem
      obtain ⟨c', hfits', -⟩ := hfits.turn hps hk hkernel hitem
      have hturn : ∃ v, w.turn b item = some v ∧ v.Like b (w'.turn ps.basis item) := by
        rcases w.turn_cases h hps hitemDotted with ⟨hdemand, hturn⟩ | ⟨n, set, hn, hdemand, hturn⟩
        · rw [Worksheet.turn_of_none hdemand]
          exact ⟨_, hturn, hlike.items, hlike.starts, congrArg (· + 1) hlike.place⟩
        · rw [hturn]
          exact hlike.call h hn hdemand fun start hstart hrange =>
            hfits.start_add_length_le (h.lowered.ntSymbol_lt n hn) hrange hstart
      obtain ⟨v, hv, hlike'⟩ := hturn
      simp only [hv, Option.bind_eq_bind, Option.bind_some]
      exact ih hfits' hlike'

end Sheet

/-- The closure worked out by index is that of the completed state. -/
theorem closeInPlace_eq (hk : ps.KeysFit) {st : State} (hst : st.Sound ps)
    (hkernel : ps.IsKernel st.kernel) (hdotted : AreDotted ps st.kernel) :
    ∃ n, ∀ fuel, n ≤ fuel → closeInPlace b fuel (st.items ps.basis) =
      some ((st.close ps.basis).items ps.basis) := by
  have hitems := areDotted_items hps hk hdotted
  obtain ⟨n, hrun⟩ := hst.closeInPlace hps hk hkernel
  obtain ⟨w, hw, hlike⟩ := Sheet.ofItems_like h hitems
  refine ⟨n, fun fuel hfuel => ?_⟩
  rw [closeInPlace, hw, Option.bind_eq_bind, Option.bind_some, ← hrun fuel hfuel]
  exact Sheet.run_eq h hps hk hkernel hdotted fuel (Worksheet.Fits.ofItems hps hk hkernel hst) hlike

end Mirrors

end Guarded

end ShiftReduce
