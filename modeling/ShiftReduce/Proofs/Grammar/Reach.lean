import ShiftReduce.Table.Build
import Mathlib.Data.Finset.Card
import Mathlib.Logic.Relation
/-!
# What is visited

A symbol is visited because the search starts with it or because a clause mentions it. So a grammar
is not refused if rules define its accepted symbol and the non-terminals of its clauses.

And everything that can be reached is visited: the fuel covers the symbols on the stack and those
that may still come on it. So a grammar is refused only if something reachable is undefined.

Main statements: `Grammar.exists_table`, `Grammar.mem_reach_iff` and `Grammar.exists_table_iff`.
-/

namespace ShiftReduce

namespace Grammar

variable {g : Grammar} {s : SymbolId} {v : Visit} {fuel : Nat} {stack : List Visit}
  {seen : List SymbolId}

/-! ## Mentioned and reached -/

/-- A clause of the first symbol has the second, a non-terminal. -/
def Mentions (g : Grammar) (s t : SymbolId) : Prop :=
  ∃ r ∈ g.rules, r.target = s ∧ t ∈ r.clause ∧ g.symbols.isNonterminal t = true

/-- The second symbol is the first, or is mentioned below it. -/
def Reaches (g : Grammar) : SymbolId → SymbolId → Prop := Relation.ReflTransGen g.Mentions

lemma mem_mentions_iff : v ∈ g.mentions s ↔ ∃ r ∈ g.rules, r.target = s ∧ v.symbol ∈ r.clause ∧
    g.symbols.isNonterminal v.symbol = true ∧ v.via = some r.id := by
  simp only [mentions, mem_rulesOf, List.mem_flatMap, List.mem_map, List.mem_filter]
  constructor
  · rintro ⟨r, ⟨hr, htarget⟩, t, ⟨hmem, hnonterminal⟩, rfl⟩
    exact ⟨r, hr, htarget, hmem, hnonterminal, rfl⟩
  · rintro ⟨r, hr, htarget, hmem, hnonterminal, hvia⟩
    exact ⟨r, ⟨hr, htarget⟩, v.symbol, ⟨hmem, hnonterminal⟩, by rw [← hvia]⟩

lemma mem_mentions {t : SymbolId} : (∃ v ∈ g.mentions s, v.symbol = t) ↔ g.Mentions s t := by
  constructor
  · rintro ⟨v, hv, rfl⟩
    obtain ⟨r, hr, htarget, hmem, hnonterminal, -⟩ := mem_mentions_iff.mp hv
    exact ⟨r, hr, htarget, hmem, hnonterminal⟩
  · rintro ⟨r, hr, htarget, hmem, hnonterminal⟩
    exact ⟨⟨t, some r.id⟩, mem_mentions_iff.mpr ⟨r, hr, htarget, hmem, hnonterminal, rfl⟩, rfl⟩

/-! ## What is visited -/

/-- What comes on the stack is mentioned, and was not seen before. -/
lemma mem_discover {mentioned : List Visit}
    (h : v ∈ (mentioned.foldl discover (stack, seen)).1) :
    v ∈ stack ∨ v ∈ mentioned ∧ v.symbol ∉ seen := by
  induction mentioned generalizing stack seen with
  | nil => exact .inl h
  | cons v' mentioned ih =>
    rw [List.foldl_cons, discover] at h
    split at h
    · exact (ih h).imp_right (And.imp_left (List.mem_cons_of_mem v'))
    · next hnew =>
      have hnew : v'.symbol ∉ seen := fun hmem => hnew (List.contains_iff_mem.mpr hmem)
      rcases ih h with hmem | ⟨hmem, hfresh⟩
      · rcases List.mem_cons.mp hmem with rfl | hmem
        · exact .inr ⟨List.mem_cons_self, hnew⟩
        · exact .inl hmem
      · exact .inr ⟨List.mem_cons_of_mem v' hmem, fun hseen =>
          hfresh (List.mem_cons_of_mem _ hseen)⟩

/-- A visit comes from the stack, or from a clause of something that the stack reaches. -/
lemma origin_of_mem_explore (h : v ∈ g.explore fuel stack seen) :
    v ∈ stack ∨ ∃ u ∈ stack, ∃ s, g.Reaches u.symbol s ∧ v ∈ g.mentions s := by
  induction fuel generalizing stack seen with
  | zero =>
    rw [explore] at h
    cases h
  | succ fuel ih =>
    cases stack with
    | nil =>
      rw [explore] at h
      · cases h
      · exact Nat.succ_ne_zero fuel
    | cons top stack =>
      rw [explore] at h
      rcases List.mem_cons.mp h with rfl | h
      · exact .inl List.mem_cons_self
      · rcases ih h with hmem | ⟨u, hu, s, hreaches, hv⟩
        · rcases mem_discover hmem with hold | ⟨hnew, -⟩
          · exact .inl (List.mem_cons_of_mem top hold)
          · exact .inr ⟨top, List.mem_cons_self, top.symbol, .refl, hnew⟩
        · rcases mem_discover hu with hold | ⟨hnew, -⟩
          · exact .inr ⟨u, List.mem_cons_of_mem top hold, s, hreaches, hv⟩
          · exact .inr ⟨top, List.mem_cons_self, s,
              .head (mem_mentions.mp ⟨u, hnew, rfl⟩) hreaches, hv⟩

lemma mem_explore (h : v ∈ g.explore fuel stack seen) : v ∈ stack ∨ ∃ s, v ∈ g.mentions s :=
  (origin_of_mem_explore h).imp_right fun ⟨_, _, s, _, hv⟩ => ⟨s, hv⟩

/-- The visited symbols are the first one and non-terminals of clauses. -/
lemma mem_reach (h : v ∈ g.reach s) : v.symbol = s ∨
    ∃ r ∈ g.rules, v.symbol ∈ r.clause ∧ g.symbols.isNonterminal v.symbol = true := by
  rcases mem_explore h with hstart | ⟨s', hmention⟩
  · exact .inl (congrArg Visit.symbol (List.mem_singleton.mp hstart))
  · obtain ⟨r, hr, hv⟩ := List.mem_flatMap.mp hmention
    obtain ⟨t, ht, rfl⟩ := List.mem_map.mp hv
    obtain ⟨ht, hnonterminal⟩ := List.mem_filter.mp ht
    exact .inr ⟨r, (mem_rulesOf.mp hr).1, ht, hnonterminal⟩

/-- If everything is defined the grammar is not refused. -/
lemma validate_eq_ok (htarget : g.target = some s) (hs : ∃ r ∈ g.rules, r.target = s)
    (hdefined : ∀ r ∈ g.rules, ∀ t ∈ r.clause, g.symbols.isNonterminal t = true →
      ∃ r' ∈ g.rules, r'.target = t) : g.validate = .ok () := by
  have hrules : ∀ v ∈ g.reach s, ((g.rulesOf v.symbol).isEmpty) = false := by
    intro v hv
    have hdef : ∃ r ∈ g.rules, r.target = v.symbol := by
      rcases mem_reach hv with heq | ⟨r, hr, hmem, hnonterminal⟩
      · rwa [heq]
      · exact hdefined r hr _ hmem hnonterminal
    obtain ⟨r, hr, heq⟩ := hdef
    rw [List.isEmpty_eq_false_iff]
    exact List.ne_nil_of_mem (mem_rulesOf.mpr ⟨hr, heq⟩)
  have hfind : ((g.reach s).find? fun v => (g.rulesOf v.symbol).isEmpty) = none :=
    List.find?_eq_none.mpr fun v hv h => by simp [hrules v hv] at h
  simp only [validate, htarget, hfind]

lemma exists_table (htarget : g.target = some s) (hs : ∃ r ∈ g.rules, r.target = s)
    (hdefined : ∀ r ∈ g.rules, ∀ t ∈ r.clause, g.symbols.isNonterminal t = true →
      ∃ r' ∈ g.rules, r'.target = t) : ∃ t, g.table = .ok t := by
  refine ⟨(g.productions s).basis.automaton.table g, ?_⟩
  simp only [table, automaton, validate_eq_ok htarget hs hdefined, htarget]
  rfl

/-! ## Everything reachable is visited -/

/-- Discovering what is mentioned sees all of it and stacks what was not seen before, which is then
one fewer of the symbols to come. -/
lemma foldl_discover {known : Finset SymbolId} {mentioned : List Visit}
    (hknown : ∀ v ∈ mentioned, v.symbol ∈ known) (stack : List Visit) (seen : List SymbolId) :
    let found := mentioned.foldl discover (stack, seen)
    stack ⊆ found.1 ∧ seen ⊆ found.2 ∧ (∀ v ∈ mentioned, v.symbol ∈ found.2) ∧
      (∀ t ∈ found.2, t ∈ seen ∨ t ∈ found.1.map Visit.symbol) ∧
      found.1.length + (known \ found.2.toFinset).card ≤
        stack.length + (known \ seen.toFinset).card := by
  induction mentioned generalizing stack seen with
  | nil => exact ⟨fun _ h => h, fun _ h => h, by simp, fun _ => .inl, Nat.le_refl _⟩
  | cons v mentioned ih =>
    obtain ⟨hv, hmentioned⟩ := List.forall_mem_cons.mp hknown
    rw [List.foldl_cons, discover]
    split
    · next hold =>
      have hold : v.symbol ∈ seen := List.contains_iff_mem.mp hold
      obtain ⟨hstack, hseen, hall, hback, hcost⟩ := ih hmentioned stack seen
      exact ⟨hstack, hseen, List.forall_mem_cons.mpr ⟨hseen hold, hall⟩, hback, hcost⟩
    · next hnew =>
      have hnew : v.symbol ∉ seen := fun h => hnew (List.contains_iff_mem.mpr h)
      obtain ⟨hstack, hseen, hall, hback, hcost⟩ :=
        ih hmentioned (v :: stack) (v.symbol :: seen)
      refine ⟨fun u hu => hstack (List.mem_cons_of_mem v hu),
        fun t ht => hseen (List.mem_cons_of_mem _ ht),
        List.forall_mem_cons.mpr ⟨hseen List.mem_cons_self, hall⟩, fun t ht => ?_, ?_⟩
      · rcases hback t ht with hmem | hmem
        · rcases List.mem_cons.mp hmem with rfl | hmem
          · exact .inr (List.mem_map_of_mem (hstack List.mem_cons_self))
          · exact .inl hmem
        · exact .inr hmem
      · have hleft : v.symbol ∈ known \ seen.toFinset :=
          Finset.mem_sdiff.mpr ⟨hv, fun h => hnew (List.mem_toFinset.mp h)⟩
        have hcard := Finset.card_erase_add_one hleft
        rw [List.toFinset_cons, Finset.sdiff_insert, List.length_cons] at hcost
        exact Nat.le_trans hcost (by omega)

/-- With fuel for the stack and for what was not seen, all on the stack is visited, and with every
visit all that is mentioned, unless it was seen before. -/
lemma explore_spec {known : Finset SymbolId} (hknown : ∀ s, ∀ v ∈ g.mentions s, v.symbol ∈ known)
    (hfuel : stack.length + (known \ seen.toFinset).card ≤ fuel) :
    stack ⊆ g.explore fuel stack seen ∧ ∀ v ∈ g.explore fuel stack seen,
      ∀ u ∈ g.mentions v.symbol,
        u.symbol ∈ seen ∨ u.symbol ∈ (g.explore fuel stack seen).map Visit.symbol := by
  induction fuel generalizing stack seen with
  | zero =>
    have hnil : stack = [] := List.length_eq_zero_iff.mp (by omega)
    rw [hnil, explore]
    exact ⟨fun _ h => h, fun _ h => absurd h List.not_mem_nil⟩
  | succ fuel ih =>
    cases stack with
    | nil =>
      rw [explore]
      · exact ⟨fun _ h => h, fun _ h => absurd h List.not_mem_nil⟩
      · exact Nat.succ_ne_zero fuel
    | cons top stack =>
      rw [explore]
      obtain ⟨hstack, -, hall, hback, hcost⟩ :=
        foldl_discover (hknown top.symbol) stack seen
      generalize (g.mentions top.symbol).foldl discover (stack, seen) = found at *
      rw [List.length_cons] at hfuel
      obtain ⟨hvisited, hclosed⟩ := @ih found.1 found.2 (by omega)
      -- what was seen on the way is on the new stack
      have hseen : ∀ t ∈ found.2, t ∈ seen ∨
          t ∈ (top :: g.explore fuel found.1 found.2).map Visit.symbol := by
        refine fun t ht => (hback t ht).imp_right fun h => ?_
        obtain ⟨v, hv, rfl⟩ := List.mem_map.mp h
        exact List.mem_map_of_mem (List.mem_cons_of_mem top (hvisited hv))
      refine ⟨?_, List.forall_mem_cons.mpr ⟨fun u hu => hseen _ (hall u hu), fun v hv u hu => ?_⟩⟩
      · exact List.cons_subset_cons top fun v hv => hvisited (hstack hv)
      · rcases hclosed v hv u hu with hmem | hmem
        · exact hseen _ hmem
        · exact .inr (List.mem_cons_of_mem _ hmem)

/-- Whatever is visited is reached from something on the stack. -/
lemma reaches_of_mem_explore (h : v ∈ g.explore fuel stack seen) :
    ∃ u ∈ stack, g.Reaches u.symbol v.symbol := by
  rcases origin_of_mem_explore h with hmem | ⟨u, hu, s, hreaches, hv⟩
  · exact ⟨v, hmem, .refl⟩
  · exact ⟨u, hu, hreaches.tail (mem_mentions.mp ⟨v, hv, rfl⟩)⟩

/-- What is mentioned stands in a clause. -/
lemma symbol_mem_of_mentions (s : SymbolId) :
    ∀ v ∈ g.mentions s, v.symbol ∈ (g.rules.flatMap Rule.clause).toFinset := by
  intro v hv
  obtain ⟨r, hr, -, hmem, -⟩ := mem_mentions_iff.mp hv
  exact List.mem_toFinset.mpr (List.mem_flatMap.mpr ⟨r, hr, hmem⟩)

/-- The fuel of a search is enough. -/
lemma reach_fuel (g : Grammar) (s : SymbolId) : [(⟨s, none⟩ : Visit)].length +
    ((g.rules.flatMap Rule.clause).toFinset \ [s].toFinset).card ≤
      1 + (g.rules.flatMap Rule.clause).length :=
  Nat.add_le_add_left
    ((Finset.card_le_card Finset.sdiff_subset).trans (List.toFinset_card_le _)) 1

/-- The symbols visited are those that are reached. -/
lemma mem_reach_iff {t : SymbolId} : t ∈ (g.reach s).map Visit.symbol ↔ g.Reaches s t := by
  constructor
  · intro ht
    obtain ⟨v, hv, rfl⟩ := List.mem_map.mp ht
    obtain ⟨u, hu, hreaches⟩ := reaches_of_mem_explore hv
    rwa [List.mem_singleton.mp hu] at hreaches
  · intro hreaches
    obtain ⟨hvisited, hclosed⟩ := explore_spec symbol_mem_of_mentions (g.reach_fuel s)
    have hstart : s ∈ (g.reach s).map Visit.symbol :=
      List.mem_map_of_mem (hvisited (List.mem_singleton_self (⟨s, none⟩ : Visit)))
    induction hreaches with
    | refl => exact hstart
    | tail _ hmentions ih =>
      obtain ⟨v, hv, rfl⟩ := List.mem_map.mp ih
      obtain ⟨u, hu, rfl⟩ := mem_mentions.mpr hmentions
      rcases hclosed v hv u hu with hmem | hmem
      · rwa [List.mem_singleton.mp hmem]
      · exact hmem

lemma mem_rulesBelow {r : Rule} :
    r ∈ g.rulesBelow s ↔ r ∈ g.rules ∧ g.Reaches s r.target := by
  rw [rulesBelow, List.mem_filter, List.contains_iff_mem, mem_reach_iff]

/-- A check fails if and only if something reachable from the accepted symbol is undefined. -/
lemma validate_eq_ok_iff (htarget : g.target = some s) :
    g.validate = .ok () ↔ ∀ t, g.Reaches s t → ∃ r ∈ g.rules, r.target = t := by
  have hdefined : ((g.reach s).find? fun v => (g.rulesOf v.symbol).isEmpty) = none ↔
      ∀ t, g.Reaches s t → ∃ r ∈ g.rules, r.target = t := by
    simp only [List.find?_eq_none, ← mem_reach_iff, List.forall_mem_map, rulesOf,
      List.isEmpty_iff, List.filter_eq_nil_iff, beq_iff_eq, not_forall, not_not, exists_prop]
  rw [← hdefined]
  simp only [validate, htarget]
  cases (g.reach s).find? fun v => (g.rulesOf v.symbol).isEmpty with
  | none => exact ⟨fun _ => rfl, fun _ => rfl⟩
  | some v => exact ⟨by rintro ⟨⟩, by rintro ⟨⟩⟩

/-- A grammar is refused if and only if something reachable from its accepted symbol is
undefined. -/
lemma exists_table_iff (htarget : g.target = some s) :
    (∃ t, g.table = .ok t) ↔ ∀ t, g.Reaches s t → ∃ r ∈ g.rules, r.target = t := by
  rw [← validate_eq_ok_iff htarget]
  simp only [table, automaton, htarget]
  cases g.validate with
  | error e => exact ⟨by rintro ⟨t, ⟨⟩⟩, by rintro ⟨⟩⟩
  | ok u => exact ⟨fun _ => rfl, fun _ => ⟨_, rfl⟩⟩

end Grammar

end ShiftReduce
