import ShiftReduce.Proofs.Automaton.Lowering
import ShiftReduce.Proofs.Automaton.Sweep
/-!
# First sets by index, with guarded accesses

The sets of an automaton may be worked out over a lowered grammar. Productions, first sets and spans
are then found by index, and terminals are put into sets made for the symbols of the grammar. Each
of these accesses has a guard here: there is no result if a single one is out of range.

First sets are swept in place. For a lowered grammar that mirrors proper productions there is a
result: after every sweep the sets by index are those that a sweep by symbol has, with one more for
`^`. That of `^` is not read by any other; it may take one sweep longer to settle.

Main statement: `Guarded.firsts_eq`.
-/

namespace ShiftReduce

namespace Guarded

/-! ## Folds and iterations -/

section Option

variable {α β γ : Type}

lemma mapM_eq_some {f? : α → Option β} {f : α → β} {l : List α}
    (h : ∀ x ∈ l, f? x = some (f x)) : l.mapM f? = some (l.map f) := by
  induction l with
  | nil => rfl
  | cons x l ih =>
    obtain ⟨hx, hl⟩ := List.forall_mem_cons.mp h
    rw [List.mapM_cons, hx, ih hl]
    rfl

/-- A fold every step of which has a result that stays in a relation to the result of another
fold. -/
lemma foldlM_rel {R : β → γ → Prop} {f? : β → α → Option β} {f : γ → α → γ} {l : List α}
    (h : ∀ x ∈ l, ∀ b c, R b c → ∃ b', f? b x = some b' ∧ R b' (f c x)) {b : β} {c : γ}
    (hb : R b c) : ∃ b', l.foldlM f? b = some b' ∧ R b' (l.foldl f c) := by
  induction l generalizing b c with
  | nil => exact ⟨b, rfl, hb⟩
  | cons x l ih =>
    obtain ⟨hx, hl⟩ := List.forall_mem_cons.mp h
    obtain ⟨b', hstep, hb'⟩ := hx b c hb
    rw [List.foldlM_cons, hstep]
    exact ih hl hb'

/-- A fold every step of which has a result and keeps the invariant that this rests on. -/
lemma foldlM_eq_some {f? : β → α → Option β} {f : β → α → β} {p : β → Prop} {l : List α}
    (h : ∀ x ∈ l, ∀ b, p b → f? b x = some (f b x) ∧ p (f b x)) {b : β} (hb : p b) :
    l.foldlM f? b = some (l.foldl f b) ∧ p (l.foldl f b) := by
  have hstep : ∀ x ∈ l, ∀ b c, b = c ∧ p c → ∃ b', f? b x = some b' ∧ b' = f c x ∧ p (f c x) := by
    rintro x hx b _ ⟨rfl, hb⟩
    exact ⟨f b x, (h x hx b hb).1, rfl, (h x hx b hb).2⟩
  obtain ⟨_, hfold, rfl, hp⟩ := foldlM_rel hstep ⟨rfl, hb⟩
  exact ⟨hfold, hp⟩

/-- Repeats a step that may fail until the value stays the same. -/
def untilStable [DecidableEq α] (step : α → Option α) : Nat → α → Option α
  | 0, _ => none
  | fuel + 1, x => do
    let y ← step x
    if y = x then some x else untilStable step fuel y

/-- An iteration ends with a value that the next step keeps, even if it has come to it before. -/
lemma untilStable_eq [DecidableEq α] {step : α → Option α} {y : Nat → α}
    (hstep : ∀ j, step (y j) = some (y (j + 1))) {k : Nat} (hstable : y (k + 1) = y k) {fuel : Nat}
    (hfuel : k < fuel) : untilStable step fuel (y 0) = some (y k) := by
  induction k generalizing y fuel with
  | zero =>
    obtain ⟨fuel, rfl⟩ := Nat.exists_eq_add_of_le' hfuel
    rw [untilStable, hstep 0, Option.bind_eq_bind, Option.bind_some, if_pos hstable]
  | succ k ih =>
    obtain ⟨fuel, rfl⟩ := Nat.exists_eq_add_of_le' (Nat.succ_le_of_lt (Nat.zero_lt_of_lt hfuel))
    rw [untilStable, hstep 0, Option.bind_eq_bind, Option.bind_some]
    split
    · next hsame =>
      -- from a value that is kept no other is ever reached
      have hall : ∀ j, y j = y 0 := by
        intro j
        induction j with
        | zero => rfl
        | succ j ihj =>
          have hnext := hstep j
          rw [ihj, hstep 0, Option.some.injEq] at hnext
          exact hnext.symm.trans hsame
      rw [hall (k + 1)]
    · exact ih (fun j => hstep (j + 1)) hstable (by omega)

/-- An iteration to a fixed point is so many steps. -/
lemma exists_iterate [DecidableEq α] (step : α → α) (fuel : Nat) (x : α) :
    ∃ k, ShiftReduce.untilStable step fuel x = step^[k] x := by
  induction fuel generalizing x with
  | zero => exact ⟨0, rfl⟩
  | succ fuel ih =>
    rw [ShiftReduce.untilStable]
    split
    · exact ⟨0, rfl⟩
    · obtain ⟨k, hk⟩ := ih (step x)
      exact ⟨k + 1, hk⟩

end Option

variable {l : Lowered} {ps : Productions} {target n p : Nat} {prod : LoweredProduction}
  {f : FirstSets} {z : FirstSet} {symbols : List LoweredSymbol} {acc : TerminalSet}

/-! ## First sets -/

/-- Adds a terminal to a set made for the symbols of a grammar, of which it must be one. -/
def insert (width : Nat) (set : TerminalSet) (s : SymbolId) : Option TerminalSet :=
  if s < width then some (set.union (.singleton s)) else none

/-- Adds to a set what can begin some symbols followed by one of the lookaheads, if there are any,
and says whether the symbols can vanish. -/
def symbolsFirst (width : Nat) (firsts : List FirstSet) (lookaheads : Option TerminalSet) :
    TerminalSet → List LoweredSymbol → Option FirstSet
  | first, [] => some ⟨match lookaheads with | some set => first.union set | none => first, true⟩
  | first, .token s :: _ => (insert width first s).map fun first => ⟨first, false⟩
  | first, .nonterminal n :: rest => do
    let found ← firsts[n]?
    let first := first.union found.terminals
    if found.nullable then symbolsFirst width firsts lookaheads first rest
    else some ⟨first, false⟩

/-- Adds what a production gives to the set of its left-hand side. -/
def absorb (width : Nat) (firsts : List FirstSet) (prod : LoweredProduction) :
    Option (List FirstSet) := do
  let first ← symbolsFirst width firsts none .empty prod.symbols
  let found ← firsts[prod.nt]?
  return firsts.set prod.nt (found.either first)

/-- Visits every production once, each with what the visits before it have added. -/
def sweep (l : Lowered) (firsts : List FirstSet) : Option (List FirstSet) :=
  l.prods.foldlM (absorb l.width) firsts

/-- The first sets by index. -/
def firsts (l : Lowered) (fuel : Nat) : Option (List FirstSet) :=
  untilStable (sweep l) fuel (List.replicate l.nts.length FirstSet.none)

/-- The first sets by index: those that are had by symbol, and one for `^`. -/
def byIndex (l : Lowered) (f : FirstSets) (z : FirstSet) : List FirstSet :=
  (List.range l.nts.length).map fun n => if n = 0 then z else f.get (l.ntSymbol n)

lemma getElem?_byIndex (hn : l.IsIndex n) : (byIndex l f z)[n]? = some (f.get (l.ntSymbol n)) := by
  rw [byIndex, List.getElem?_map, List.getElem?_range hn.2, Option.map_some,
    if_neg (Nat.ne_of_gt hn.1)]

lemma getElem?_byIndex_zero (h : 0 < l.nts.length) : (byIndex l f z)[0]? = some z := by
  rw [byIndex, List.getElem?_map, List.getElem?_range h, Option.map_some, if_pos rfl]

end Guarded

/-- The symbol is in range: a column of the table, or an index that is taken. -/
def Lowered.InRange (l : Lowered) : LoweredSymbol → Prop
  | .token s => s < l.width
  | .nonterminal n => l.IsIndex n

lemma Lowered.Mirrors.inRange {l : Lowered} {ps : Productions} {target : SymbolId}
    {prod : LoweredProduction} (h : l.Mirrors ps) (hps : ps.Proper target)
    (hprod : prod ∈ l.prods) : ∀ symbol ∈ prod.symbols, l.InRange symbol := by
  intro symbol hsymbol
  obtain ⟨p, hp⟩ := List.mem_iff_getElem?.mp hprod
  cases symbol with
  | token s =>
    have hget : ps.get? p = some (l.production prod) := by rw [h.get?_eq, hp, Option.map_some]
    rw [InRange, h.width]
    exact hps.symbol_lt hget (.terminal s) (List.mem_map.mpr ⟨_, hsymbol, rfl⟩)
  | nonterminal n => exact h.isIndex prod hprod n hsymbol

namespace Guarded

variable {l : Lowered} {ps : Productions} {target n p : Nat} {prod : LoweredProduction}
  {f : FirstSets} {z : FirstSet} {symbols : List LoweredSymbol} {acc : TerminalSet}

/-- What can begin some symbols is found by index as by symbol. -/
lemma symbolsFirst_eq (lookaheads : Option TerminalSet)
    (hsymbols : ∀ symbol ∈ symbols, l.InRange symbol) :
    symbolsFirst l.width (byIndex l f z) lookaheads acc symbols =
      some ⟨acc.union (f.ahead (symbols.map l.part) (lookaheads.getD .empty)),
        (f.ofParts (symbols.map l.part)).nullable⟩ := by
  induction symbols generalizing acc with
  | nil =>
    have hfirst : (match lookaheads with | some set => acc.union set | none => acc) =
        acc.union (f.ahead [] (lookaheads.getD .empty)) := by
      refine TerminalSet.ext_mem fun t => ?_
      cases lookaheads <;> simp [FirstSets.mem_ahead, FirstSets.ofParts]
    cases lookaheads <;> exact congrArg (fun set => some (FirstSet.mk set true)) hfirst
  | cons symbol symbols ih =>
    obtain ⟨hfirst, hrest⟩ := List.forall_mem_cons.mp hsymbols
    cases symbol with
    | token s =>
      rw [symbolsFirst, insert, if_pos (show s < l.width from hfirst)]
      rfl
    | nonterminal n =>
      have hget : (byIndex l f z)[n]? = some (f.get (l.ntSymbol n)) := getElem?_byIndex hfirst
      rw [symbolsFirst, hget, Option.bind_eq_bind, Option.bind_some]
      dsimp only
      rw [ih hrest, List.map_cons,
        Lowered.part, FirstSets.ofParts, FirstSets.ofPart, FirstSets.nullable_followedBy]
      cases hnull : (f.get (l.ntSymbol n)).nullable with
      | false =>
        rw [if_neg Bool.false_ne_true, Bool.false_and]
        refine congrArg (fun set => some (FirstSet.mk set false)) (TerminalSet.ext_mem fun t => ?_)
        simp [FirstSets.mem_ahead, FirstSets.ofParts, FirstSets.ofPart, FirstSets.mem_followedBy,
          FirstSets.nullable_followedBy, hnull]
      | true =>
        rw [if_pos rfl, Bool.true_and]
        refine congrArg (fun set => some (FirstSet.mk set _)) (TerminalSet.ext_mem fun t => ?_)
        simp [FirstSets.mem_ahead, FirstSets.ofParts, FirstSets.ofPart, FirstSets.mem_followedBy,
          FirstSets.nullable_followedBy, hnull, or_assoc]

/-! ## First sets in place -/

/-- A first set that is set by index. -/
lemma set_byIndex {f' : FirstSets} {found : FirstSet} (hn : l.IsIndex n)
    (hfound : f'.get (l.ntSymbol n) = found)
    (hrest : ∀ m, l.IsIndex m → m ≠ n → f'.get (l.ntSymbol m) = f.get (l.ntSymbol m)) :
    (byIndex l f z).set n found = byIndex l f' z := by
  refine List.ext_getElem (by simp [byIndex]) fun m hm hm' => ?_
  have hlt : m < l.nts.length := by simpa [byIndex] using hm'
  rw [List.getElem_set]
  simp only [byIndex, List.getElem_map, List.getElem_range]
  split
  · next heq =>
    subst heq
    rw [if_neg (Nat.ne_of_gt hn.1), hfound]
  · next hne =>
    split
    · rfl
    · next hpos => exact (hrest m ⟨Nat.pos_of_ne_zero hpos, hlt⟩ (Ne.symm hne)).symm

lemma set_byIndex_zero (f : FirstSets) (z z' : FirstSet) :
    (byIndex l f z).set 0 z' = byIndex l f z' := by
  refine List.ext_getElem (by simp [byIndex]) fun m hm hm' => ?_
  rw [List.getElem_set]
  simp only [byIndex, List.getElem_map, List.getElem_range]
  split
  · next heq => rw [if_pos heq.symm]
  · next hne => rw [if_neg (Ne.symm hne), if_neg (Ne.symm hne)]

/-- A sweep over the sets by symbol and the set of `^`. -/
def sweepBoth (ps : Productions) (target : SymbolId) (x : FirstSets × FirstSet) :
    FirstSets × FirstSet := (FirstSets.sweep ps x.1, x.2.either (x.1.get target))

/-- The sets by symbol and the set of `^` after some sweeps. -/
def swept (ps : Productions) (target : SymbolId) (j : Nat) : FirstSets × FirstSet :=
  (sweepBoth ps target)^[j] (List.replicate ps.width FirstSet.none, FirstSet.none)

lemma swept_succ (ps : Productions) (target : SymbolId) (j : Nat) :
    swept ps target (j + 1) = sweepBoth ps target (swept ps target j) :=
  Function.iterate_succ_apply' _ _ _

lemma fst_swept (ps : Productions) (target : SymbolId) (j : Nat) : (swept ps target j).1 =
    (FirstSets.sweep ps)^[j] (List.replicate ps.width FirstSet.none) := by
  induction j with
  | zero => rfl
  | succ j ih => rw [swept_succ, sweepBoth, ih, Function.iterate_succ_apply']

lemma either_either (a b : FirstSet) : (a.either b).either b = a.either b := by
  refine FirstSets.eq_of_same ?_ fun t => ?_
  · simp [FirstSet.either]
  · simp [FirstSet.either]

lemma mk_ahead_empty (f : FirstSets) (α : List Part) :
    (⟨TerminalSet.empty.union (f.ahead α .empty), (f.ofParts α).nullable⟩ : FirstSet) =
      f.ofParts α :=
  FirstSets.eq_of_same rfl fun t => by simp [FirstSets.mem_ahead]

section Mirrors

variable (h : l.Mirrors ps) (hps : ps.Proper target)

include h hps

/-- A production of an index adds to the set of its symbol. -/
lemma absorb_eq (hprod : prod ∈ l.prods) (hnt : prod.nt ≠ 0) (hf : f.length = ps.width) :
    absorb l.width (byIndex l f z) prod = some (byIndex l (f.absorb (l.production prod)) z) := by
  have hindex : l.IsIndex prod.nt := ⟨Nat.pos_of_ne_zero hnt, h.nt_lt prod hprod⟩
  rw [absorb, symbolsFirst_eq none (h.inRange hps hprod), Option.bind_eq_bind, Option.bind_some,
    getElem?_byIndex hindex, Option.bind_some, Option.getD_none, mk_ahead_empty]
  refine congrArg some (set_byIndex hindex ?_ fun m hm hne => ?_)
  · rw [FirstSets.get_absorb, if_pos ⟨(h.lhs_eq_iff hindex hprod).mpr rfl,
      hf ▸ h.ntSymbol_lt _ hindex⟩]
    rfl
  · rw [FirstSets.get_absorb, if_neg]
    exact fun hlhs => hne ((h.lhs_eq_iff hm hprod).mp hlhs.1).symm

/-- The production of `^` adds to no set of a symbol. -/
lemma absorb_eq_of_start (hprod : prod ∈ l.prods) (hnt : prod.nt = 0) (hf : f.length = ps.width) :
    absorb l.width (byIndex l f z) prod =
        some (byIndex l f (z.either (f.ofParts (prod.symbols.map l.part)))) ∧
      f.absorb (l.production prod) = f := by
  have hlt : 0 < l.nts.length := hnt ▸ h.nt_lt prod hprod
  rw [absorb, symbolsFirst_eq none (h.inRange hps hprod), Option.bind_eq_bind, Option.bind_some,
    hnt, getElem?_byIndex_zero hlt, Option.bind_some, Option.getD_none, mk_ahead_empty]
  refine ⟨congrArg some (set_byIndex_zero f z _), ?_⟩
  have hlhs : (l.production prod).lhs = l.width := if_pos hnt
  rw [FirstSets.absorb, hlhs, h.width, ← hf]
  exact List.modify_eq_self (Nat.le_refl _)

/-- The production of `^` comes first. -/
lemma prods_eq_cons : ∃ start rest, l.prods = start :: rest ∧ start.nt = 0 ∧
    start.symbols.map l.part = [.nonterminal target] ∧ ∀ prod ∈ rest, prod.nt ≠ 0 := by
  obtain ⟨start, hstart, hproduction⟩ :=
    Option.map_eq_some_iff.mp ((h.get?_eq 0).symm.trans hps.start)
  cases hprods : l.prods with
  | nil =>
    rw [hprods] at hstart
    cases hstart
  | cons prod rest =>
    obtain rfl : prod = start := by
      rw [hprods] at hstart
      exact Option.some.inj hstart
    refine ⟨prod, rest, rfl, (h.nt_eq_zero_iff 0 prod hstart).mpr rfl,
      congrArg Production.rhs hproduction, fun prod' hprod' => ?_⟩
    obtain ⟨p, hp⟩ := List.mem_iff_getElem?.mp hprod'
    have hget : l.prods[p + 1]? = some prod' := by rw [hprods, List.getElem?_cons_succ, hp]
    rw [Ne, h.nt_eq_zero_iff (p + 1) prod' hget]
    exact Nat.succ_ne_zero p

/-- A sweep by index does what a sweep by symbol does, and to the set of `^` it adds that of the
accepted symbol. -/
lemma sweep_eq (hf : f.length = ps.width) : sweep l (byIndex l f z) =
    some (byIndex l (FirstSets.sweep ps f) (z.either (f.get target))) := by
  obtain ⟨start, rest, hprods, hnt, hsymbols, hrest⟩ := prods_eq_cons h hps
  obtain ⟨hfirst, hsame⟩ := absorb_eq_of_start (z := z) h hps (hprods ▸ List.mem_cons_self) hnt hf
  rw [hsymbols, FirstSets.ofParts_nonterminal] at hfirst
  have hsweep : FirstSets.sweep ps f =
      rest.foldl (fun f prod => f.absorb (l.production prod)) f := by
    rw [FirstSets.sweep, h.list, hprods, List.foldl_map, List.foldl_cons, hsame]
  rw [sweep, hsweep, hprods, List.foldlM_cons, hfirst]
  generalize z.either (f.get target) = z'
  -- the productions of rules leave the set of `^` as it is
  have hstep : ∀ prod ∈ rest, ∀ b f, b = byIndex l f z' ∧ f.length = ps.width →
      ∃ b', absorb l.width b prod = some b' ∧ b' = byIndex l (f.absorb (l.production prod)) z' ∧
        (f.absorb (l.production prod)).length = ps.width := by
    rintro prod hprod _ f ⟨rfl, hf⟩
    refine ⟨_, absorb_eq h hps (hprods ▸ List.mem_cons_of_mem _ hprod) (hrest prod hprod) hf,
      rfl, ?_⟩
    rw [FirstSets.absorb, List.length_modify, hf]
  obtain ⟨_, hfold, rfl, -⟩ := foldlM_rel hstep ⟨rfl, hf⟩
  exact hfold

/-- The first sets by index are those by symbol. The sweep after those that lead to them may still
add to the set of `^`; the next one does not. -/
theorem firsts_eq : ∃ z n, ∀ fuel, n ≤ fuel →
    firsts l fuel = some (byIndex l (FirstSets.compute ps) z) := by
  have hlength : ∀ j, (swept ps target j).1.length = ps.width := by
    intro j
    induction j with
    | zero => exact List.length_replicate
    | succ j ih =>
      rw [swept_succ, sweepBoth]
      exact FirstSets.sweep_induction (P := fun f => f.length = ps.width)
        (fun f hf p _ => by rw [FirstSets.absorb, List.length_modify, hf]) ih
  have hsteps : ∀ j, sweep l (byIndex l (swept ps target j).1 (swept ps target j).2) =
      some (byIndex l (swept ps target (j + 1)).1 (swept ps target (j + 1)).2) := fun j => by
    rw [sweep_eq h hps (hlength j), swept_succ]
    rfl
  obtain ⟨k, hk⟩ := exists_iterate (FirstSets.sweep ps) (ps.width * (ps.width + 1) + 1)
    (List.replicate ps.width FirstSet.none)
  rw [FirstSets.untilStable_sweep hps (Nat.lt_succ_self _), ← fst_swept ps target] at hk
  have hcompute : FirstSets.sweep ps (FirstSets.compute ps) = FirstSets.compute ps := by
    have hstable := FirstSets.sweep_untilStable hps (Nat.lt_succ_self (ps.width * (ps.width + 1)))
    rwa [FirstSets.untilStable_sweep hps (Nat.lt_succ_self _)] at hstable
  have hnext : (swept ps target (k + 1)).1 = FirstSets.compute ps := by
    rw [swept_succ, sweepBoth, ← hk, hcompute]
  have hstable : swept ps target (k + 2) = swept ps target (k + 1) := by
    rw [swept_succ, sweepBoth, hnext, hcompute, ← hnext]
    refine Prod.ext rfl ?_
    rw [hnext, swept_succ, sweepBoth, ← hk, either_either]
  have hstart : List.replicate l.nts.length FirstSet.none =
      byIndex l (swept ps target 0).1 (swept ps target 0).2 := by
    have hnone : ∀ s, FirstSets.get (List.replicate ps.width FirstSet.none) s = FirstSet.none := by
      intro s
      rw [FirstSets.get, List.getD_eq_getElem?_getD, List.getElem?_replicate]
      split <;> rfl
    refine List.ext_getElem (by simp [byIndex]) fun n hn hn' => ?_
    simp [byIndex, swept, hnone]
  refine ⟨(swept ps target (k + 1)).2, k + 2, fun fuel hfuel => ?_⟩
  rw [firsts, hstart, untilStable_eq hsteps (k := k + 1) (by rw [hstable]) (by omega), hnext]

end Mirrors

end Guarded

end ShiftReduce
