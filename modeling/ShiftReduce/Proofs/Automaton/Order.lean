import ShiftReduce.Proofs.Automaton.Closure
/-!
# The order of a closure

Which symbol comes next in a closure is decided by the keys of the items there are: it is the first
that an item calls for and that is not in the closure. However often the items are gone over, and
from whichever place on, the symbols come in one order, as long as no item is left out before the
items behind it.

Only symbols with productions count, since others add no items.

Main statements: `Found.eq_of_none` and `State.found_close`.
-/

namespace ShiftReduce

/-! ## Lists found one by one -/

/-- Every member of the list is what comes next behind those before it. -/
inductive Found {α : Type} (next : List α → Option α) : List α → Prop
  | nil : Found next []
  | snoc {l : List α} {x : α} : Found next l → next l = some x → Found next (l ++ [x])

namespace Found

variable {α : Type} {next : List α → Option α} {l l' : List α}

lemma exists_next (h' : Found next l') (hl : l <+: l') (hne : l ≠ l') :
    ∃ x, next l = some x ∧ l ++ [x] <+: l' := by
  induction h' with
  | nil => exact absurd (List.prefix_nil.mp hl) hne
  | @snoc l' y _ hnext ih =>
    rcases List.prefix_concat_iff.mp hl with heq | hl
    · exact absurd heq hne
    · by_cases heq : l = l'
      · exact ⟨y, heq ▸ hnext, heq ▸ List.prefix_refl _⟩
      · obtain ⟨x, hx, hprefix⟩ := ih hl heq
        exact ⟨x, hx, hprefix.trans (List.prefix_append _ _)⟩

lemma isPrefix_or (h : Found next l) (h' : Found next l') : l <+: l' ∨ l' <+: l := by
  induction h with
  | nil => exact .inl List.nil_prefix
  | @snoc l x _ hnext ih =>
    rcases ih with hl | hl
    · by_cases heq : l = l'
      · exact .inr (heq ▸ List.prefix_append _ _)
      · obtain ⟨y, hy, hprefix⟩ := h'.exists_next hl heq
        obtain rfl : x = y := Option.some.inj (hnext.symm.trans hy)
        exact .inl hprefix
    · exact .inr (hl.trans (List.prefix_append _ _))

/-- Two lists behind which nothing comes are one. -/
lemma eq_of_none (h : Found next l) (h' : Found next l') (hnone : next l = none)
    (hnone' : next l' = none) : l = l' := by
  have hend : ∀ {l l'}, Found next l' → next l = none → l <+: l' → l = l' := by
    intro l l' h' hnone hl
    by_contra hne
    obtain ⟨x, hx, -⟩ := h'.exists_next hl hne
    rw [hnone] at hx
    cases hx
  rcases h.isPrefix_or h' with hl | hl
  · exact hend h' hnone hl
  · exact (hend h hnone' hl).symm

lemma forall_mem {P : α → Prop} (h : Found next l) (hP : ∀ l x, next l = some x → P x) :
    ∀ x ∈ l, P x := by
  induction h with
  | nil => simp
  | snoc _ hnext ih =>
    exact List.forall_mem_append.mpr ⟨ih, List.forall_mem_singleton.mpr (hP _ _ hnext)⟩

lemma nodup (h : Found next l) (hnot : ∀ l x, next l = some x → x ∉ l) : l.Nodup := by
  induction h with
  | nil => exact List.nodup_nil
  | snoc _ hnext ih =>
    refine List.nodup_append.mpr ⟨ih, List.nodup_singleton _, fun a ha b hb => ?_⟩
    rw [List.mem_singleton.mp hb]
    rintro rfl
    exact hnot _ _ hnext ha

end Found

/-! ## The symbols that items call for -/

namespace Basis

variable (b : Basis)

/-- The symbol that an item of the key calls for, if it has productions. -/
def calls? (key : Nat) : Option SymbolId :=
  match b.remaining key with
  | .nonterminal s :: _ => if b.productions.range s = [] then none else some s
  | _ => none

/-- The keys of a state, in order: those of the kernel, then those of some symbols. -/
def keysWith (core : List Nat) (symbols : List SymbolId) : List Nat :=
  core ++ symbols.flatMap fun s => (b.productions.range s).map (b.key · 0)

/-- The first symbol that is called for and not there. -/
def nextSymbol (core : List Nat) (symbols : List SymbolId) : Option SymbolId :=
  ((b.keysWith core symbols).filterMap b.calls?).find? (· ∉ symbols)

/-- The symbols after one more item has been looked at. -/
def note (symbols : List SymbolId) (key : Nat) : List SymbolId :=
  match b.calls? key with
  | some s => if s ∈ symbols then symbols else symbols ++ [s]
  | none => symbols

/-- The symbols come in order, and the first items of the state have been looked at. -/
structure Scanned (core : List Nat) (symbols : List SymbolId) (n : Nat) : Prop where
  found : Found (b.nextSymbol core) symbols
  called : ∀ key ∈ (b.keysWith core symbols).take n, ∀ s, b.calls? key = some s → s ∈ symbols

variable {b} {core : List Nat} {symbols : List SymbolId} {key n : Nat} {s : SymbolId}

lemma calls?_eq_some_iff : b.calls? key = some s ↔
    (∃ rest, b.remaining key = .nonterminal s :: rest) ∧ b.productions.range s ≠ [] := by
  rw [calls?]
  split
  · next s' rest h =>
    simp only [h, Option.ite_none_left_eq_some, Option.some.injEq, List.cons.injEq,
      Part.nonterminal.injEq]
    constructor
    · rintro ⟨hne, rfl⟩
      exact ⟨⟨rest, rfl, rfl⟩, hne⟩
    · rintro ⟨⟨_, rfl, -⟩, hne⟩
      exact ⟨hne, rfl⟩
  · next h =>
    simp only [reduceCtorEq, false_iff, not_and, forall_exists_index]
    exact fun rest heq => absurd heq (h s rest)

lemma demand?_isSome_of_calls? {item : Item} (h : b.calls? item.key = some s) :
    ∃ set, b.demand? item = some (s, set) := by
  obtain ⟨⟨rest, hrest⟩, -⟩ := calls?_eq_some_iff.mp h
  exact ⟨_, by rw [demand?, hrest]⟩

lemma calls?_of_demand? {item : Item} {demand : SymbolId × TerminalSet}
    (h : b.demand? item = some demand) : b.calls? item.key =
      if b.productions.range demand.1 = [] then none else some demand.1 := by
  rw [demand?] at h
  split at h
  · next s rest hrest =>
    obtain rfl := Option.some.inj h
    rw [calls?, hrest]
  · cases h

lemma calls?_eq_none_of_demand? {item : Item} (h : b.demand? item = none) :
    b.calls? item.key = none := by
  rw [Option.eq_none_iff_forall_ne_some]
  intro s hs
  obtain ⟨set, hset⟩ := demand?_isSome_of_calls? hs
  rw [h] at hset
  cases hset

lemma nextSymbol_eq_none_iff : b.nextSymbol core symbols = none ↔
    ∀ key ∈ b.keysWith core symbols, ∀ s, b.calls? key = some s → s ∈ symbols := by
  simp only [nextSymbol, List.find?_eq_none, List.mem_filterMap, decide_not, Bool.not_eq_true',
    decide_eq_false_iff_not, not_not, forall_exists_index, and_imp]
  exact ⟨fun h key hkey s hs => h s key hkey hs, fun h s key hkey hs => h key hkey s hs⟩

/-- What comes next is called for by an item and not there. -/
lemma calls?_of_nextSymbol (h : b.nextSymbol core symbols = some s) :
    (∃ key ∈ b.keysWith core symbols, b.calls? key = some s) ∧ s ∉ symbols := by
  refine ⟨?_, by simpa using List.find?_some h⟩
  obtain ⟨key, hkey, hs⟩ := List.mem_filterMap.mp (List.mem_of_find?_eq_some h)
  exact ⟨key, hkey, hs⟩

lemma keysWith_append (core : List Nat) (symbols more : List SymbolId) :
    b.keysWith core (symbols ++ more) = b.keysWith core symbols ++ b.keysWith [] more := by
  rw [keysWith, keysWith, keysWith, List.flatMap_append, List.nil_append, List.append_assoc]

lemma isPrefix_note (symbols : List SymbolId) (key : Nat) : symbols <+: b.note symbols key := by
  rw [note]
  split
  · split
    · exact List.prefix_refl _
    · exact List.prefix_append _ _
  · exact List.prefix_refl _

lemma keysWith_isPrefix {symbols' : List SymbolId} (h : symbols <+: symbols') :
    b.keysWith core symbols <+: b.keysWith core symbols' := by
  obtain ⟨more, rfl⟩ := h
  rw [keysWith_append]
  exact List.prefix_append _ _

lemma Scanned.mono {m : Nat} (h : b.Scanned core symbols n) (hm : m ≤ n) :
    b.Scanned core symbols m :=
  ⟨h.found, fun key hkey => h.called key (List.take_subset_take_left _ hm hkey)⟩

/-- One more item is looked at. -/
lemma Scanned.note (h : b.Scanned core symbols n)
    (hkey : (b.keysWith core symbols)[n]? = some key) :
    b.Scanned core (b.note symbols key) (n + 1) := by
  have hlt := (List.getElem?_eq_some_iff.mp hkey).1
  -- the items looked at are the same ones in the new list
  have htake : (b.keysWith core (b.note symbols key)).take (n + 1) =
      (b.keysWith core symbols).take n ++ [key] := by
    have hprefix : b.keysWith core symbols <+: b.keysWith core (b.note symbols key) :=
      keysWith_isPrefix (b.isPrefix_note symbols key)
    obtain ⟨more, hmore⟩ := hprefix
    rw [← hmore, List.take_append_of_le_length hlt, List.take_add_one, hkey]
    rfl
  have hsub : symbols ⊆ b.note symbols key := (b.isPrefix_note symbols key).subset
  refine ⟨?found, fun key' hkey' s hs => ?called⟩
  case found =>
    rw [Basis.note]
    split
    · next s hs =>
      split
      · exact h.found
      · next hnot =>
        refine .snoc h.found ?_
        have hsplit : b.keysWith core symbols = (b.keysWith core symbols).take n ++
            key :: (b.keysWith core symbols).drop (n + 1) := by
          obtain ⟨_, rfl⟩ := List.getElem?_eq_some_iff.mp hkey
          rw [List.cons_getElem_drop_succ, List.take_append_drop]
        have hnone : (((b.keysWith core symbols).take n).filterMap b.calls?).find?
            (fun s => decide (s ∉ symbols)) = none := by
          refine List.find?_eq_none.mpr fun s' hs' => ?_
          obtain ⟨key', hkey', hcalls⟩ := List.mem_filterMap.mp hs'
          simpa using h.called key' hkey' s' hcalls
        rw [nextSymbol, hsplit, List.filterMap_append, List.find?_append, hnone,
          List.filterMap_cons, hs]
        simp [hnot]
    · exact h.found
  case called =>
    rw [htake, List.mem_append, List.mem_singleton] at hkey'
    rcases hkey' with hkey' | rfl
    · exact hsub (h.called key' hkey' s hs)
    · rw [Basis.note, hs]
      simp only
      split
      · assumption
      · simp

/-! ## The symbols of a closure -/

section Closure

variable {c d : List (SymbolId × TerminalSet)} {demand : SymbolId × TerminalSet}

/-- The entries of a closure that have items. -/
def solid (b : Basis) (c : List (SymbolId × TerminalSet)) : List (SymbolId × TerminalSet) :=
  c.filter fun x => b.productions.range x.1 ≠ []

/-- A closure with a demand raised, if the demand is for a symbol with productions. -/
def raised (b : Basis) (c : List (SymbolId × TerminalSet)) (demand : SymbolId × TerminalSet) :
    List (SymbolId × TerminalSet) :=
  if b.productions.range demand.1 = [] then c else raise c demand

lemma solid_raise (c : List (SymbolId × TerminalSet)) (demand : SymbolId × TerminalSet) :
    b.solid (raise c demand) = b.raised (b.solid c) demand := by
  rw [raised]
  induction c with
  | nil => by_cases hd : b.productions.range demand.1 = [] <;> simp [raise, solid, hd]
  | cons x c ih =>
    obtain ⟨s, set⟩ := x
    by_cases hs : s = demand.1
    · by_cases hd : b.productions.range demand.1 = [] <;> simp [raise, solid, hs, hd]
    · by_cases hd : b.productions.range demand.1 = [] <;>
        by_cases hx : b.productions.range s = [] <;>
        simp_all [raise, solid]

lemma flatMap_solid (c : List (SymbolId × TerminalSet)) :
    ((b.solid c).flatMap fun x => b.openings x.1 x.2) = c.flatMap fun x => b.openings x.1 x.2 := by
  induction c with
  | nil => rfl
  | cons x c ih =>
    rw [solid, List.filter_cons, List.flatMap_cons]
    split
    · rw [List.flatMap_cons]
      exact congrArg _ ih
    · next hx =>
      have hnil : b.openings x.1 x.2 = [] := by
        rw [openings, show b.productions.range x.1 = [] by simpa using hx, List.map_nil]
      rw [hnil, List.nil_append]
      exact ih

lemma map_key_openings (s : SymbolId) (set : TerminalSet) :
    (b.openings s set).map Item.key = (b.productions.range s).map (b.key · 0) := by
  rw [openings, List.map_map]
  rfl

lemma keysWith_map_fst (core : List Nat) (c : List (SymbolId × TerminalSet)) :
    b.keysWith core (c.map Prod.fst) =
      core ++ (c.flatMap fun x => b.openings x.1 x.2).map Item.key := by
  rw [keysWith, List.map_flatMap, List.flatMap_map]
  simp only [map_key_openings]

lemma map_key_items (kernel : List Item) (c : List (SymbolId × TerminalSet)) :
    (kernel ++ c.flatMap fun x => b.openings x.1 x.2).map Item.key =
      b.keysWith (kernel.map Item.key) (c.map Prod.fst) := by
  rw [keysWith_map_fst, List.map_append]

lemma keysWith_solid (core : List Nat) (c : List (SymbolId × TerminalSet)) :
    b.keysWith core ((b.solid c).map Prod.fst) = b.keysWith core (c.map Prod.fst) := by
  rw [keysWith_map_fst, keysWith_map_fst, flatMap_solid]

lemma map_fst_raised {item : Item} (h : b.demand? item = some demand) :
    (b.raised c demand).map Prod.fst = b.note (c.map Prod.fst) item.key := by
  rw [raised, note, calls?_of_demand? h]
  by_cases hd : b.productions.range demand.1 = []
  · rw [if_pos hd, if_pos hd]
  · rw [if_neg hd, if_neg hd, map_fst_raise]

lemma note_of_demand?_eq_none {item : Item} (h : b.demand? item = none) :
    b.note symbols item.key = symbols := by
  rw [note, calls?_eq_none_of_demand? h]

end Closure

end Basis

namespace Grows

variable {c d : List (SymbolId × TerminalSet)}

lemma isPrefix (h : Grows c d) : c.map Prod.fst <+: d.map Prod.fst := by
  induction h with
  | nil => exact List.nil_prefix
  | cons _ _ ih => exact (List.prefix_cons_inj _).mpr ih

end Grows

namespace State

variable {b : Basis} {core : List Nat} {c : List (SymbolId × TerminalSet)} {n : Nat}

/-- Some items behind those looked at are looked at. -/
lemma scanned_meet {items : List Item} (h : b.Scanned core ((b.solid c).map Prod.fst) n)
    (hitems : items.map Item.key <+: (b.keysWith core ((b.solid c).map Prod.fst)).drop n) :
    b.Scanned core ((b.solid (meet b items c)).map Prod.fst) (n + items.length) := by
  induction items generalizing c n with
  | nil => exact h
  | cons item items ih =>
    obtain ⟨rest, hrest⟩ := hitems
    rw [List.map_cons, List.cons_append] at hrest
    have hkey : (b.keysWith core ((b.solid c).map Prod.fst))[n]? = some item.key := by
      rw [← List.head?_drop, ← hrest, List.head?_cons]
    have hdrop : (b.keysWith core ((b.solid c).map Prod.fst)).drop (n + 1) =
        items.map Item.key ++ rest := by
      rw [← List.tail_drop, ← hrest, List.tail_cons]
    have hnote := h.note hkey
    rw [List.length_cons, ← Nat.add_assoc, Nat.add_right_comm, meet, List.filterMap_cons]
    cases hd : b.demand? item with
    | none =>
      rw [Basis.note_of_demand?_eq_none hd] at hnote
      exact ih hnote (hdrop ▸ List.prefix_append _ _)
    | some demand =>
      rw [← Basis.map_fst_raised hd, ← Basis.solid_raise] at hnote
      refine ih hnote ?_
      -- what is added comes behind these items
      have hprefix : b.keysWith core ((b.solid c).map Prod.fst) <+:
          b.keysWith core (b.note ((b.solid c).map Prod.fst) item.key) :=
        Basis.keysWith_isPrefix (b.isPrefix_note _ item.key)
      obtain ⟨more, hmore⟩ := hprefix
      rw [Basis.solid_raise, Basis.map_fst_raised hd, ← hmore, List.drop_append_of_le_length
        (List.getElem?_eq_some_iff.mp hkey).1, hdrop, List.append_assoc]
      exact List.prefix_append _ _

lemma found_sweep (fuel i : Nat) (h : b.Scanned core ((b.solid c).map Prod.fst)
      (b.keysWith core ((c.map Prod.fst).take i)).length) :
    Found (b.nextSymbol core) ((b.solid (sweep b fuel i c)).map Prod.fst) := by
  induction fuel generalizing i c with
  | zero => exact h.found
  | succ fuel ih =>
    rw [sweep]
    split
    · exact h.found
    · next s set hsome =>
      have hlt := (List.getElem?_eq_some_iff.mp hsome).1
      have hsymbol : (c.map Prod.fst)[i]? = some s := by rw [List.getElem?_map, hsome]; rfl
      have htake : ((meet b (b.openings s set) c).map Prod.fst).take (i + 1) =
          (c.map Prod.fst).take i ++ [s] := by
        obtain ⟨more, hmore⟩ := (grows_meet (b := b) (c := c) (b.openings s set)).isPrefix
        rw [← hmore, List.take_append_of_le_length (by rwa [List.length_map]),
          List.take_add_one, hsymbol]
        rfl
      have hblock : b.keysWith [] [s] = (b.openings s set).map Item.key := by
        rw [Basis.map_key_openings, Basis.keysWith, List.nil_append, List.flatMap_singleton]
      refine ih (i + 1) ?_
      rw [htake, Basis.keysWith_append, List.length_append, hblock, List.length_map]
      refine scanned_meet h ?_
      have hsplit : c.map Prod.fst =
          (c.map Prod.fst).take i ++ ([s] ++ (c.map Prod.fst).drop (i + 1)) := by
        have hdrop := List.drop_eq_getElem?_toList_append (l := c.map Prod.fst) (i := i)
        rw [hsymbol, Option.toList_some] at hdrop
        rw [← hdrop, List.take_append_drop]
      have hkeys := congrArg (b.keysWith core) hsplit
      rw [Basis.keysWith_append, Basis.keysWith_append, hblock] at hkeys
      rw [Basis.keysWith_solid, hkeys, List.drop_left]
      exact List.prefix_append _ _

/-- However often a closure is worked out, its symbols come in order. -/
lemma found_close (st : State)
    (h : Found (b.nextSymbol st.core) ((b.solid st.closure).map Prod.fst)) :
    Found (b.nextSymbol st.core) ((b.solid (st.close b).closure).map Prod.fst) := by
  refine (@untilStable_induction _ _ (spread b)
    (fun st' => st'.kernel = st.kernel ∧
      Found (b.nextSymbol st.core) ((b.solid st'.closure).map Prod.fst)) ?_ _ st ⟨rfl, h⟩).2
  rintro st' ⟨hkernel, h⟩
  refine ⟨hkernel, found_sweep _ 0 ?_⟩
  have hscanned : b.Scanned st.core ((b.solid st'.closure).map Prod.fst) 0 :=
    ⟨h, fun key hkey => by simp at hkey⟩
  have hcore : st'.kernel.map Item.key = st.core := by rw [hkernel, core]
  have hmeet : b.Scanned st.core ((b.solid (meet b st'.kernel st'.closure)).map Prod.fst)
      (0 + st'.kernel.length) := by
    refine scanned_meet hscanned ?_
    rw [List.drop_zero, hcore, Basis.keysWith]
    exact List.prefix_append _ _
  rw [Nat.zero_add, ← hcore] at hmeet
  rwa [List.take_zero, Basis.keysWith, List.flatMap_nil, List.append_nil, ← hcore, List.length_map]

end State

end ShiftReduce
