import ShiftReduce.Proofs.Grammar.Names
import Mathlib.Logic.Relation
/-!
# What a shorthand stands for

A shorthand appends a fresh non-terminal and its rules to a grammar, and all that was there stays as
it was. What the non-terminal stands for is found by unfolding it: one of its occurrences in a
string is replaced by the symbols of one of its rules, and so on.

Repetitions and lists have the rules `s → base` and `s → s step`, and `s → ε` if they may be empty.
The recursive rule has `s` in front, so that what is unfolded from `s` is a row of steps behind `s`,
behind the base or behind nothing. A step of a list is a separator with an item. If the list may be
empty, the first step may stand behind nothing, and then the separator comes first.

Main statements: `Grammar.exists_define`, `Grammar.Iterates.unfoldsTo_iff` and
`Grammar.Valid.listOf_unfoldsTo`.
-/

namespace ShiftReduce

/-! ## The rules of a shorthand -/

namespace Alternative

/-- The rule that an alternative becomes. -/
def rule (a : Alternative) (id : RuleId) (target : SymbolId) : Rule :=
  a.settings.foldl Rule.configure
    (Rule.plain id target (if a.clause.isEmpty then [SymbolId.epsilon] else a.clause))

/-- The symbols that a parser finds on its stack for it. -/
def symbols (a : Alternative) : List SymbolId :=
  if a.clause.all (· == SymbolId.epsilon) then [] else a.clause

variable (a : Alternative) (id : RuleId) (target : SymbolId)

@[simp] lemma rule_id : (a.rule id target).id = id := (Grammar.Valid.foldl_configure _ _).1

@[simp] lemma rule_target : (a.rule id target).target = target :=
  (Grammar.Valid.foldl_configure _ _).2.1

@[simp] lemma rule_symbols : (a.rule id target).symbols = a.symbols := by
  have hclause : (a.rule id target).clause =
      if a.clause.isEmpty then [SymbolId.epsilon] else a.clause :=
    (Grammar.Valid.foldl_configure _ _).2.2
  rw [Rule.symbols, Rule.isEmpty, hclause, symbols]
  cases a.clause with
  | nil => rfl
  | cons s clause => rfl

/-- A clause without `ε` is found as it stands. -/
lemma symbols_of_notMem {a : Alternative} (h : SymbolId.epsilon ∉ a.clause) :
    a.symbols = a.clause := by
  rw [symbols]
  split
  · next hall =>
    cases hclause : a.clause with
    | nil => rfl
    | cons s clause =>
      rw [hclause] at h hall
      simp only [List.all_cons, Bool.and_eq_true, beq_iff_eq] at hall
      exact absurd (hall.1 ▸ List.mem_cons_self) h
  · rfl

end Alternative

namespace Grammar

variable {g g' : Grammar} {s t : SymbolId} {alternatives : List Alternative}

/-- The second grammar is the first one with a fresh non-terminal, which these alternatives
define. -/
structure DefinesBy (g g' : Grammar) (alternatives : List Alternative) : Prop where
  name : g'.name = g.name
  symbols : ∃ name, g'.symbols.entries = g.symbols.entries ++ [⟨.nonterminal, name⟩]
  rules : g'.rules = g.rules ++
    alternatives.mapIdx fun i a => a.rule (g.rules.length + i) g.symbols.size
  levels : g'.levels = g.levels
  target : g'.target = g.target.or (alternatives.head?.map fun _ => g.symbols.size)

lemma addRule_eq {a : Alternative} (hs : g.symbols.isNonterminal s = true)
    (hknown : ∀ t ∈ a.clause, g.symbols.contains t = true) :
    g.addRule s a.clause a.settings = .ok (g.rules.length, { g with
      rules := g.rules ++ [a.rule g.rules.length s], target := g.target.or (some s) }) := by
  have hfind : a.clause.find? (fun t => !g.symbols.contains t) = none :=
    List.find?_eq_none.mpr fun t ht => by simp [hknown t ht]
  rw [addRule, if_pos hs, hfind]
  rfl

/-- Alternatives of known symbols are all added. -/
lemma addAlternatives_eq (hs : g.symbols.isNonterminal s = true)
    (hknown : ∀ a ∈ alternatives, ∀ t ∈ a.clause, g.symbols.contains t = true) :
    g.addAlternatives s alternatives =
      ({ g with
          rules := g.rules ++ alternatives.mapIdx fun i a => a.rule (g.rules.length + i) s
          target := g.target.or (alternatives.head?.map fun _ => s) }, .ok ()) := by
  induction alternatives generalizing g with
  | nil => simp [addAlternatives]
  | cons a rest ih =>
    obtain ⟨ha, hrest⟩ := List.forall_mem_cons.mp hknown
    rw [addAlternatives, addRule_eq hs ha]
    refine (@ih { g with
      rules := g.rules ++ [a.rule g.rules.length s], target := g.target.or (some s) }
      hs hrest).trans ?_
    simp [List.mapIdx_cons, Nat.add_comm 1, Nat.add_assoc]

/-- A shorthand is defined if its clauses consist of known symbols and the fresh one. -/
lemma exists_define {name : String} {alternatives : SymbolId → List Alternative}
    (hknown : ∀ a ∈ alternatives g.symbols.size, ∀ t ∈ a.clause, t ≤ g.symbols.size) :
    ∃ g', g.define name alternatives = (g', .ok g.symbols.size) ∧
      g.DefinesBy g' (alternatives g.symbols.size) := by
  rw [define, freshNonterminal, SymbolTable.internFresh_eq]
  dsimp only
  rw [addAlternatives_eq]
  · exact ⟨_, rfl, ⟨rfl, ⟨_, rfl⟩, rfl, rfl, rfl⟩⟩
  · simp [SymbolTable.isNonterminal, SymbolTable.kind?, SymbolTable.get?, SymbolTable.size]
  · intro a ha t ht
    exact decide_eq_true (by simpa [SymbolTable.size] using Nat.lt_succ_of_le (hknown a ha t ht))

namespace DefinesBy

/-- No rule of a valid grammar defines the symbol that comes next. -/
lemma rulesOf_size_eq_nil (hg : g.Valid) : g.rulesOf g.symbols.size = [] := by
  refine List.filter_eq_nil_iff.mpr fun r hr htarget => ?_
  have hlt := SymbolTable.lt_size_of_isNonterminal (hg.target_nonterminal r hr)
  rw [beq_iff_eq.mp htarget] at hlt
  exact Nat.lt_irrefl _ hlt

/-- The fresh symbol has these rules and no others. -/
lemma rulesOf_size (hg : g.Valid) (h : g.DefinesBy g' alternatives) :
    g'.rulesOf g.symbols.size =
      alternatives.mapIdx fun i a => a.rule (g.rules.length + i) g.symbols.size := by
  have hold := rulesOf_size_eq_nil hg
  rw [rulesOf] at hold ⊢
  rw [h.rules, List.filter_append, hold, List.nil_append, List.filter_eq_self]
  intro r hr
  obtain ⟨i, hi, rfl⟩ := List.mem_mapIdx.mp hr
  simp

lemma symbols_rulesOf_size (hg : g.Valid) (h : g.DefinesBy g' alternatives) :
    (g'.rulesOf g.symbols.size).map Rule.symbols = alternatives.map Alternative.symbols := by
  rw [h.rulesOf_size hg]
  exact List.ext_getElem (by simp) fun i hi hi' => by simp

end DefinesBy

/-! ## Unfolding a symbol -/

/-- One occurrence of the symbol is replaced by the symbols of one of its rules. -/
inductive Unfolds (g : Grammar) (s : SymbolId) : List SymbolId → List SymbolId → Prop
  | expand (before after : List SymbolId) {r : Rule} : r ∈ g.rulesOf s →
      Unfolds g s (before ++ s :: after) (before ++ r.symbols ++ after)

/-- The string is derived from the symbol by rules of the symbol alone. -/
def UnfoldsTo (g : Grammar) (s : SymbolId) : List SymbolId → Prop :=
  Relation.ReflTransGen (g.Unfolds s) [s]

/-- A row of `n` times the same string. -/
def repeated (n : Nat) (step : List SymbolId) : List SymbolId :=
  (List.replicate n step).flatten

lemma repeated_succ (n : Nat) (step : List SymbolId) :
    repeated (n + 1) step = step ++ repeated n step := by
  rw [repeated, List.replicate_succ, List.flatten_cons, repeated]

lemma notMem_repeated {step : List SymbolId} (h : s ∉ step) (n : Nat) : s ∉ repeated n step := by
  intro hmem
  obtain ⟨l, hl, hs⟩ := List.mem_flatten.mp hmem
  exact h (List.eq_of_mem_replicate hl ▸ hs)

/-- The symbol has a rule for a base and one that puts a step behind the symbol, and one for the
empty string if it may be empty. -/
structure Iterates (g : Grammar) (s : SymbolId) (base step : List SymbolId) (allowEmpty : Bool) :
    Prop where
  rules : (g.rulesOf s).map Rule.symbols = [base, s :: step] ++ if allowEmpty then [[]] else []
  notMem_base : s ∉ base
  notMem_step : s ∉ step

namespace Iterates

variable {base step α β : List SymbolId} {allowEmpty : Bool} {n : Nat}

lemma exists_rule_iff (h : g.Iterates s base step allowEmpty) :
    (∃ r ∈ g.rulesOf s, r.symbols = α) ↔
      α = base ∨ α = s :: step ∨ allowEmpty = true ∧ α = [] := by
  rw [← List.mem_map, h.rules]
  cases allowEmpty <;> simp

/-- Behind the symbol, a base or nothing stand as many steps as the recursive rule was used. -/
inductive Form (s : SymbolId) (base step : List SymbolId) (allowEmpty : Bool) :
    List SymbolId → Prop
  | more (n : Nat) : Form s base step allowEmpty (s :: repeated n step)
  | based (n : Nat) : Form s base step allowEmpty (base ++ repeated n step)
  | bare (n : Nat) : allowEmpty = true → Form s base step allowEmpty (repeated n step)

/-- The symbol occurs once at most, in front, and one of the three rules replaces it. -/
lemma Form.unfold (h : g.Iterates s base step allowEmpty)
    (hα : Form s base step allowEmpty α) (hstep : g.Unfolds s α β) :
    Form s base step allowEmpty β := by
  obtain ⟨before, after, hr⟩ := hstep
  rename_i r
  generalize hwhole : before ++ s :: after = whole at hα
  have hmem : s ∈ whole := by simp [← hwhole]
  cases hα with
  | based n =>
    rcases List.mem_append.mp hmem with hbase | hsteps
    · exact absurd hbase h.notMem_base
    · exact absurd hsteps (notMem_repeated h.notMem_step n)
  | bare n _ => exact absurd hmem (notMem_repeated h.notMem_step n)
  | more n =>
    cases before with
    | cons t before =>
      rw [List.cons_append, List.cons.injEq] at hwhole
      have hmem : s ∈ repeated n step := by simp [← hwhole.2]
      exact absurd hmem (notMem_repeated h.notMem_step n)
    | nil =>
      obtain rfl : after = repeated n step := (List.cons.inj hwhole).2
      rw [List.nil_append]
      rcases h.exists_rule_iff.mp ⟨r, hr, rfl⟩ with hbase | hrecursive | ⟨hempty, hnone⟩
      · rw [hbase]
        exact .based n
      · rw [hrecursive, List.cons_append, ← repeated_succ]
        exact .more (n + 1)
      · rw [hnone]
        exact .bare n hempty

lemma form_of_unfoldsTo (h : g.Iterates s base step allowEmpty) (hα : g.UnfoldsTo s α) :
    Form s base step allowEmpty α := by
  induction hα with
  | refl => exact .more 0
  | tail _ hstep ih => exact ih.unfold h hstep

/-! ### What is unfolded -/

lemma unfolds (h : g.Iterates s base step allowEmpty)
    (hα : α = base ∨ α = s :: step ∨ allowEmpty = true ∧ α = []) (after : List SymbolId) :
    g.Unfolds s (s :: after) (α ++ after) := by
  obtain ⟨r, hr, rfl⟩ := h.exists_rule_iff.mpr hα
  exact .expand [] after hr

lemma unfoldsTo_more (h : g.Iterates s base step allowEmpty) (n : Nat) :
    g.UnfoldsTo s (s :: repeated n step) := by
  induction n with
  | zero => exact .refl
  | succ n ih =>
    rw [repeated_succ]
    exact ih.tail (h.unfolds (.inr (.inl rfl)) (repeated n step))

/-- What a symbol with these rules stands for. -/
lemma unfoldsTo_iff (h : g.Iterates s base step allowEmpty) (hs : s ∉ α) :
    g.UnfoldsTo s α ↔
      ∃ n, α = base ++ repeated n step ∨ allowEmpty = true ∧ α = repeated n step := by
  constructor
  · intro hα
    cases h.form_of_unfoldsTo hα with
    | more n => exact absurd List.mem_cons_self hs
    | based n => exact ⟨n, .inl rfl⟩
    | bare n hempty => exact ⟨n, .inr ⟨hempty, rfl⟩⟩
  · rintro ⟨n, rfl | ⟨hempty, rfl⟩⟩
    · exact (h.unfoldsTo_more n).tail (h.unfolds (.inl rfl) _)
    · exact (h.unfoldsTo_more n).tail (h.unfolds (.inr (.inr ⟨hempty, rfl⟩)) _)

end Iterates

/-! ## Lists -/

variable {separator item : SymbolId} {allowEmpty : Bool}

/-- The alternatives of a list. -/
def listAlternatives (allowEmpty : Bool) (separator item s : SymbolId) : List Alternative :=
  [.plain [item], ⟨[s, separator, item], [.action flattenList]⟩] ++
    if allowEmpty then [.plain []] else []

/-- A list of known symbols is defined. -/
lemma exists_listOf (allowEmpty : Bool) (hseparator : g.symbols.contains separator = true)
    (hitem : g.symbols.contains item = true) :
    ∃ g', g.listOf allowEmpty separator item = (g', .ok g.symbols.size) ∧
      g.DefinesBy g' (listAlternatives allowEmpty separator item g.symbols.size) := by
  have hseparator : separator < g.symbols.size := of_decide_eq_true hseparator
  have hitem : item < g.symbols.size := of_decide_eq_true hitem
  refine exists_define fun a (ha : a ∈ listAlternatives allowEmpty separator item _) t ht => ?_
  simp only [listAlternatives, List.cons_append, List.nil_append, List.mem_cons] at ha
  rcases ha with rfl | rfl | ha
  · rw [List.mem_singleton.mp ht]
    exact Nat.le_of_lt hitem
  · simp only [List.mem_cons, List.not_mem_nil, or_false] at ht
    rcases ht with rfl | rfl | rfl
    · exact Nat.le_refl _
    · exact Nat.le_of_lt hseparator
    · exact Nat.le_of_lt hitem
  · split at ha
    · rw [List.mem_singleton.mp ha] at ht
      cases ht
    · cases ha

/-- A list is an item, to which separators and items are added. -/
lemma DefinesBy.iterates (hg : g.Valid)
    (h : g.DefinesBy g' (listAlternatives allowEmpty separator item g.symbols.size))
    (hseparator : g.symbols.contains separator = true) (hitem : g.symbols.contains item = true)
    (hne : item ≠ SymbolId.epsilon) :
    g'.Iterates g.symbols.size [item] [separator, item] allowEmpty := by
  have hseparator : g.symbols.size ≠ separator := (Nat.ne_of_lt (of_decide_eq_true hseparator)).symm
  have hitem : g.symbols.size ≠ item := (Nat.ne_of_lt (of_decide_eq_true hitem)).symm
  have hone : (Alternative.plain [item]).symbols = [item] :=
    Alternative.symbols_of_notMem (by simpa [Alternative.plain] using hne.symm)
  have hmore : (Alternative.mk [g.symbols.size, separator, item]
      [.action flattenList]).symbols = [g.symbols.size, separator, item] := by
    simp [Alternative.symbols, hne]
  have hnone : (Alternative.plain []).symbols = [] := rfl
  refine ⟨?_, by simpa using hitem, by simpa using ⟨hseparator, hitem⟩⟩
  rw [h.symbols_rulesOf_size hg, listAlternatives, List.map_append, List.map_cons, List.map_cons,
    hone, hmore]
  cases allowEmpty <;> rfl

/-- The string is an item, or several items with separators between them. -/
def IsList (separator item : SymbolId) (α : List SymbolId) : Prop :=
  ∃ n, α = item :: repeated n [separator, item]

/-- What the list that may be empty stands for by its own rules: the empty string, lists, and lists
with a separator in front. -/
theorem Valid.listOf_unfoldsTo (hg : g.Valid) (hseparator : g.symbols.contains separator = true)
    (hitem : g.symbols.contains item = true) (hne : item ≠ SymbolId.epsilon) :
    ∃ g' s, g.listOf true separator item = (g', .ok s) ∧
      ∀ α, (∀ t ∈ α, t = separator ∨ t = item) →
        (g'.UnfoldsTo s α ↔ α = [] ∨ IsList separator item α ∨
          ∃ β, α = separator :: β ∧ IsList separator item β) := by
  obtain ⟨g', hlist, hdefines⟩ := exists_listOf true hseparator hitem
  have hiterates := hdefines.iterates hg hseparator hitem hne
  refine ⟨g', _, hlist, fun α hα => ?_⟩
  have hfresh : g.symbols.size ∉ α := by
    intro hmem
    rcases hα _ hmem with h | h
    · exact hiterates.notMem_step (h ▸ List.mem_cons_self)
    · exact hiterates.notMem_base (h ▸ List.mem_cons_self)
  rw [hiterates.unfoldsTo_iff hfresh]
  constructor
  · rintro ⟨n, rfl | ⟨-, rfl⟩⟩
    · exact .inr (.inl ⟨n, rfl⟩)
    · -- steps behind nothing: none at all, or the first one begins with the separator
      cases n with
      | zero => exact .inl rfl
      | succ n => exact .inr (.inr ⟨_, repeated_succ n _, n, rfl⟩)
  · rintro (rfl | ⟨n, rfl⟩ | ⟨β, rfl, n, rfl⟩)
    · exact ⟨0, .inr ⟨rfl, rfl⟩⟩
    · exact ⟨n, .inl rfl⟩
    · exact ⟨n + 1, .inr ⟨rfl, (repeated_succ n [separator, item]).symm⟩⟩

/-- A grammar with the terminals `,` and `x`. -/
def commas : Grammar := ((empty none).terminal ",").2.terminal "x" |>.2

lemma valid_commas : commas.Valid := ((Valid.empty none).terminal ",").terminal "x"

/-- So `, x` is no list, and yet it is unfolded from the list of `x` that may be empty. -/
theorem listOf_unfoldsTo_commas : commas.Valid ∧ commas.symbols.contains 2 = true ∧
    commas.symbols.contains 3 = true ∧ 3 ≠ SymbolId.epsilon ∧
    ∃ g' s, commas.listOf true 2 3 = (g', .ok s) ∧
      ∀ α, (∀ t ∈ α, t = 2 ∨ t = 3) → (g'.UnfoldsTo s α ↔
        α = [] ∨ IsList 2 3 α ∨ ∃ β, α = 2 :: β ∧ IsList 2 3 β) :=
  ⟨valid_commas, by decide, by decide, by decide,
    valid_commas.listOf_unfoldsTo (by decide) (by decide) (by decide)⟩

/-- A list that may be empty is not always empty or a list: the separator `,` comes first. -/
theorem leading_separator : ∃ g' s, commas.listOf true 2 3 = (g', .ok s) ∧
    g'.UnfoldsTo s [2, 3] ∧ ¬ ([2, 3] = ([] : List SymbolId) ∨ IsList 2 3 [2, 3]) := by
  refine ⟨_, 4, rfl, ?_, ?_⟩
  · have hmore := Unfolds.expand (g := (commas.listOf true 2 3).1) (s := 4) [] []
      (List.mem_of_getElem? (i := 1) rfl)
    have hnone := Unfolds.expand (g := (commas.listOf true 2 3).1) (s := 4) [] [2, 3]
      (List.mem_of_getElem? (i := 2) rfl)
    exact (Relation.ReflTransGen.single hmore).tail hnone
  · rintro (h | ⟨n, h⟩)
    · cases h
    · exact absurd (List.cons.inj h).1 (by decide)

end Grammar

end ShiftReduce
