import ShiftReduce.Proofs.Automaton.Regrouping
import ShiftReduce.Proofs.Automaton.State
/-!
# Productions by index

The construction of states may also speak of a non-terminal by its place in a line-up. Two passes
over the rules line the non-terminals up in a map that keeps its keys in the order in which they
come: first those that rules define, each with its rules, then those that clauses mention. A third
pass goes along the line-up and lays the productions of one non-terminal after those of another; it
notes in a second map where the block of each begins and ends. From then on a non-terminal is its
index, and the second map alone says what symbol and what block an index stands for.

In front stands `^`, under the number just past the symbol table. A number is a word, so with as
many symbols as there are words this is the number of `$`; no rule defines `$` either.

The productions that come out are those of `Grammar.productions`, and an index finds the same range
of them as its symbol.

Main statements: `Grammar.Valid.mirrors_lowered` and `Grammar.Valid.lower_faithful`.
-/

namespace ShiftReduce

/-! ## Maps that keep the order of their keys -/

/-- A map whose keys stand in the order in which they were first used. -/
abbrev OrderedMap (κ α : Type) := List (κ × α)

namespace OrderedMap

variable {κ α γ : Type} [DecidableEq κ] {m : OrderedMap κ α} {key q : κ} {fresh : α} {f : α → α}

/-- Changes what is at a key. A new key comes last, and what is changed there is `fresh`. -/
def alter (m : OrderedMap κ α) (key : κ) (fresh : α) (f : α → α) : OrderedMap κ α :=
  match m with
  | [] => [(key, f fresh)]
  | (k, a) :: rest => if k = key then (k, f a) :: rest else (k, a) :: alter rest key fresh f

/-- The place of a key. -/
def place? (m : OrderedMap κ α) (key : κ) : Option Nat := m.findIdx? fun x => x.1 == key

lemma map_fst_alter : (m.alter key fresh f).map Prod.fst =
    if key ∈ m.map Prod.fst then m.map Prod.fst else m.map Prod.fst ++ [key] := by
  induction m with
  | nil => simp [alter]
  | cons x m ih =>
    rw [alter]
    by_cases hx : x.1 = key
    · simp [hx]
    · have hx' : ¬ key = x.1 := fun h => hx h.symm
      simp only [hx, if_false, List.map_cons, ih, List.mem_cons, hx', false_or]
      split <;> simp

lemma lookup_alter : (m.alter key fresh f).lookup q =
    if q = key then some (f ((m.lookup key).getD fresh)) else m.lookup q := by
  induction m with
  | nil =>
    by_cases hq : q = key
    · simp [alter, hq]
    · simp [alter, List.lookup_cons, hq, beq_eq_false_iff_ne.mpr hq]
  | cons x m ih =>
    obtain ⟨k, a⟩ := x
    rw [alter]
    by_cases hk : k = key
    · subst hk
      by_cases hq : q = k
      · simp [hq]
      · simp [List.lookup_cons, hq, beq_eq_false_iff_ne.mpr hq]
    · have hk' : (key == k) = false := beq_eq_false_iff_ne.mpr fun h => hk h.symm
      by_cases hq : q = k
      · simp [hq, hk]
      · simp [List.lookup_cons, hk, hk', ih, beq_eq_false_iff_ne.mpr hq]

lemma alter_of_notMem (h : key ∉ m.map Prod.fst) :
    m.alter key fresh f = m ++ [(key, f fresh)] := by
  induction m with
  | nil => rfl
  | cons x m ih =>
    rw [List.map_cons, List.mem_cons, not_or] at h
    rw [alter, if_neg fun heq => h.1 heq.symm, ih h.2, List.cons_append]

/-- What the values under different keys are makes the map. -/
lemma eq_map_of_lookup (hnodup : (m.map Prod.fst).Nodup) {value : κ → α}
    (h : ∀ k ∈ m.map Prod.fst, (m.lookup k).getD fresh = value k) :
    m = (m.map Prod.fst).map fun k => (k, value k) := by
  rw [List.map_map]
  refine (List.map_id m).symm.trans (List.map_congr_left fun x hx => ?_)
  have hvalue := h x.1 (List.mem_map_of_mem hx)
  rw [State.lookup_of_mem hnodup hx, Option.getD_some] at hvalue
  exact Prod.ext rfl hvalue

end OrderedMap

/-! ## The lowered grammar -/

/-- A symbol of a lowered right-hand side: a token, or a non-terminal by its index. -/
inductive LoweredSymbol where
  | token (symbol : SymbolId)
  | nonterminal (index : Nat)
  deriving DecidableEq

/-- A production with its left-hand side by index. -/
structure LoweredProduction where
  nt : Nat
  symbols : List LoweredSymbol
  /-- The rule it stands for; the starting production stands for none. -/
  rule : Option RuleId

/-- The numbers from a first one up to, but not including, an end. -/
structure Span where
  start : Nat
  stop : Nat
  deriving DecidableEq

/-- The numbers of a span. -/
def Span.numbers (s : Span) : List Nat := List.range' s.start (s.stop - s.start)

/-- A grammar as the construction of states reads it. -/
structure Lowered where
  prods : List LoweredProduction
  /-- The non-terminals by index, each with the span of its productions. -/
  nts : OrderedMap SymbolId Span
  /-- The number of symbols, which is the number of columns of a table. -/
  width : Nat
  /-- The number of the production of `^`. -/
  start : Nat
  target : SymbolId

namespace Lowered

/-- The symbol of an index; one that is not taken stands for `ε`. -/
def ntSymbol (l : Lowered) (n : Nat) : SymbolId := (l.nts[n]?).elim SymbolId.epsilon Prod.fst

/-- The number of a symbol of a right-hand side. -/
def symbolId (l : Lowered) : LoweredSymbol → SymbolId
  | .token s => s
  | .nonterminal n => l.ntSymbol n

/-- The numbers of the productions of an index; one that is not taken has none. -/
def range (l : Lowered) (n : Nat) : List Nat := (l.nts[n]?).elim [] fun x => x.2.numbers

end Lowered

namespace Grammar

/-- The number of `^`: the one just past the symbol table, as a word. -/
def startSymbol (g : Grammar) : SymbolId := g.symbols.size % wordRange

/-- The line-up of the non-terminals, each with the numbers of its rules. -/
def byNonterminal (g : Grammar) : OrderedMap SymbolId (List RuleId) :=
  let start := OrderedMap.alter [] g.startSymbol [] fun _ => []
  let defined := g.rules.foldl (fun m r => m.alter r.target [] (· ++ [r.id])) start
  g.rules.foldl (fun m r => r.symbols.foldl (fun m s =>
    if g.symbols.isNonterminal s then m.alter s [] id else m) m) defined

/-- A symbol of a clause by index. Whatever is not in the line-up is taken for a token. -/
def lowerSymbol (g : Grammar) (s : SymbolId) : LoweredSymbol :=
  match g.byNonterminal.place? s with
  | some n => if g.symbols.isNonterminal s then .nonterminal n else .token s
  | none => .token s

/-- Lays the productions of one more non-terminal after those that are there, and notes the span
that they take. A number without a rule is passed over. -/
def lowerGroup (g : Grammar) (target : SymbolId)
    (l : List LoweredProduction × OrderedMap SymbolId Span) (x : (SymbolId × List RuleId) × Nat) :
    List LoweredProduction × OrderedMap SymbolId Span :=
  let start := l.1.length
  let prods := if x.1.1 = g.startSymbol then
    l.1 ++ [⟨x.2, [g.lowerSymbol target], none⟩] else l.1
  let prods := x.1.2.foldl (fun prods id =>
    match g.rule? id with
    | some r => prods ++ [⟨x.2, r.symbols.map g.lowerSymbol, some id⟩]
    | none => prods) prods
  (prods, l.2.alter x.1.1 ⟨0, 0⟩ fun _ => ⟨start, prods.length⟩)

/-- The lowered grammar that accepts `target`. -/
def lowered (g : Grammar) (target : SymbolId) : Lowered :=
  let l := g.byNonterminal.zipIdx.foldl (g.lowerGroup target) ([], [])
  ⟨l.1, l.2, g.symbols.size, 0, target⟩

/-- Lowers a grammar. There is nothing to lower without a rule. -/
def lower (g : Grammar) : Except GrammarError Lowered :=
  match g.target with
  | none => .error .noRules
  | some target => .ok (g.lowered target)

end Grammar

/-! ## Productions by index and by symbol -/

namespace Lowered

/-- Is it the index of a non-terminal other than `^`? -/
def IsIndex (l : Lowered) (n : Nat) : Prop := 0 < n ∧ n < l.nts.length

/-- A symbol of a right-hand side as part of a production. -/
def part (l : Lowered) : LoweredSymbol → Part
  | .token s => .terminal s
  | .nonterminal n => .nonterminal (l.ntSymbol n)

/-- A production by symbol. There `^` has the number past the symbol table, however large. -/
def production (l : Lowered) (prod : LoweredProduction) : Production :=
  ⟨if prod.nt = 0 then l.width else l.ntSymbol prod.nt, prod.symbols.map l.part, prod.rule⟩

/-- The lowered grammar has these productions, and an index may be taken for its symbol. -/
structure Mirrors (l : Lowered) (ps : Productions) : Prop where
  start : l.start = 0
  width : l.width = ps.width
  list : ps.list.toList = l.prods.map l.production
  /-- The production of `^` comes first, and it is the only one. -/
  nt_eq_zero_iff : ∀ p prod, l.prods[p]? = some prod → (prod.nt = 0 ↔ p = 0)
  nt_lt : ∀ prod ∈ l.prods, prod.nt < l.nts.length
  isIndex : ∀ prod ∈ l.prods, ∀ n, .nonterminal n ∈ prod.symbols → l.IsIndex n
  nodup : (l.nts.map Prod.fst).Nodup
  ntSymbol_lt : ∀ n, l.IsIndex n → l.ntSymbol n < ps.width
  range_zero : l.range 0 = [0]
  range_eq : ∀ n, l.IsIndex n → l.range n = ps.range (l.ntSymbol n)
  /-- The spans stand one after another. -/
  flatMap_range : (List.range l.nts.length).flatMap l.range = List.range l.prods.length

variable {l : Lowered} {ps : Productions} {n m p : Nat} {prod : LoweredProduction}

lemma map_symbol_part (l : Lowered) (symbols : List LoweredSymbol) :
    (symbols.map l.part).map Part.symbol = symbols.map l.symbolId := by
  rw [List.map_map]
  exact List.map_congr_left fun symbol _ => by cases symbol <;> rfl

lemma ntSymbol_eq (h : n < l.nts.length) : l.ntSymbol n = l.nts[n].1 := by
  rw [ntSymbol, List.getElem?_eq_getElem h, Option.elim_some]

lemma Mirrors.get?_eq (h : l.Mirrors ps) (p : Nat) :
    ps.get? p = (l.prods[p]?).map l.production := by
  rw [Productions.get?, ← Array.getElem?_toList, h.list, List.getElem?_map]

lemma Mirrors.ntSymbol_inj (h : l.Mirrors ps) (hm : m < l.nts.length) (hn : n < l.nts.length)
    (heq : l.ntSymbol m = l.ntSymbol n) : m = n := by
  rw [ntSymbol_eq hm, ntSymbol_eq hn] at heq
  have hm' : m < (l.nts.map Prod.fst).length := by simpa using hm
  have hn' : n < (l.nts.map Prod.fst).length := by simpa using hn
  have hat : (l.nts.map Prod.fst)[m] = (l.nts.map Prod.fst)[n] := by
    rwa [List.getElem_map, List.getElem_map]
  exact h.nodup.getElem_inj_iff.mp hat

end Lowered

namespace Grammar

variable {g : Grammar} {target s : SymbolId}

/-! ## The line-up -/

/-- The non-terminals after `^` in the line-up: those that rules define, and those that clauses only
mention. -/
def named (g : Grammar) : List SymbolId :=
  ((g.rules.flatMap Rule.symbols).filter g.symbols.isNonterminal).foldl
    (fun seen s => if seen.contains s then seen else seen ++ [s]) g.targets

/-- The keys of a map in which one key after another is used. -/
lemma map_fst_foldl_alter {α γ : Type} (l : List γ) (key : γ → SymbolId) (fresh : α)
    (f : γ → α → α) (m : OrderedMap SymbolId α) :
    (l.foldl (fun m x => m.alter (key x) fresh (f x)) m).map Prod.fst =
      (l.map key).foldl (fun seen s => if seen.contains s then seen else seen ++ [s])
        (m.map Prod.fst) := by
  induction l generalizing m with
  | nil => rfl
  | cons x l ih =>
    rw [List.foldl_cons, ih, OrderedMap.map_fst_alter, List.map_cons, List.foldl_cons]
    simp only [List.contains_iff_mem]

lemma byNonterminal_eq_foldl (g : Grammar) : g.byNonterminal =
    ((g.rules.flatMap Rule.symbols).filter g.symbols.isNonterminal).foldl
      (fun (m : OrderedMap SymbolId (List RuleId)) s => m.alter s [] id)
      (g.rules.foldl (fun m r => m.alter r.target [] (· ++ [r.id])) [(g.startSymbol, [])]) := by
  rw [List.foldl_filter, List.foldl_flatMap]
  rfl

/-- Under a symbol are the rules that define it. -/
lemma lookup_foldl_rules (rules : List Rule) (m : OrderedMap SymbolId (List RuleId))
    (s : SymbolId) :
    ((rules.foldl (fun m r => m.alter r.target [] (· ++ [r.id])) m).lookup s).getD [] =
      (m.lookup s).getD [] ++ (rules.filter fun r => r.target == s).map Rule.id := by
  induction rules generalizing m with
  | nil => simp
  | cons r rules ih =>
    rw [List.foldl_cons, ih, OrderedMap.lookup_alter, List.filter_cons]
    by_cases hs : r.target = s
    · simp [hs]
    · simp [hs, Ne.symm hs]

lemma lookup_foldl_mentioned (l : List SymbolId) (m : OrderedMap SymbolId (List RuleId))
    (s : SymbolId) :
    ((l.foldl (fun m s => m.alter s [] id) m).lookup s).getD [] = (m.lookup s).getD [] := by
  induction l generalizing m with
  | nil => rfl
  | cons t l ih =>
    rw [List.foldl_cons, ih, OrderedMap.lookup_alter]
    split
    · next hs => rw [hs, Option.getD_some, id]
    · rfl

/-- The rules of the first production laid, and then those of the rules. -/
def loweredBlock (g : Grammar) (target : SymbolId) (x : (SymbolId × List RuleId) × Nat) :
    List LoweredProduction :=
  (if x.1.1 = g.startSymbol then [⟨x.2, [g.lowerSymbol target], none⟩] else []) ++
    x.1.2.filterMap fun id =>
      (g.rule? id).map fun r => ⟨x.2, r.symbols.map g.lowerSymbol, some id⟩

/-- The spans of blocks laid one after another from a number on. -/
def spans (g : Grammar) (target : SymbolId) (start : Nat) :
    List ((SymbolId × List RuleId) × Nat) → OrderedMap SymbolId Span
  | [] => []
  | x :: xs => (x.1.1, ⟨start, start + (g.loweredBlock target x).length⟩) ::
      spans g target (start + (g.loweredBlock target x).length) xs

/-- The productions of one non-terminal are laid after those that are there. -/
lemma lowerGroup_eq_alter (l : List LoweredProduction × OrderedMap SymbolId Span)
    (x : (SymbolId × List RuleId) × Nat) :
    g.lowerGroup target l x = (l.1 ++ g.loweredBlock target x, l.2.alter x.1.1 ⟨0, 0⟩ fun _ =>
      ⟨l.1.length, (l.1 ++ g.loweredBlock target x).length⟩) := by
  have hrules : ∀ (ids : List RuleId) (prods : List LoweredProduction),
      ids.foldl (fun prods id => match g.rule? id with
        | some r => prods ++ [⟨x.2, r.symbols.map g.lowerSymbol, some id⟩]
        | none => prods) prods = prods ++ ids.filterMap fun id =>
          (g.rule? id).map fun r => ⟨x.2, r.symbols.map g.lowerSymbol, some id⟩ := by
    intro ids
    induction ids with
    | nil => simp
    | cons id ids ih =>
      intro prods
      rw [List.foldl_cons, ih, List.filterMap_cons]
      cases g.rule? id <;> simp
  have hprods : (g.lowerGroup target l x).1 = l.1 ++ g.loweredBlock target x := by
    rw [lowerGroup, hrules, loweredBlock]
    split <;> simp
  rw [← hprods]
  rfl

lemma lowerGroup_eq {l : List LoweredProduction × OrderedMap SymbolId Span}
    {x : (SymbolId × List RuleId) × Nat} (hx : x.1.1 ∉ l.2.map Prod.fst) :
    g.lowerGroup target l x = (l.1 ++ g.loweredBlock target x,
      l.2 ++ [(x.1.1, ⟨l.1.length, l.1.length + (g.loweredBlock target x).length⟩)]) := by
  rw [lowerGroup_eq_alter, OrderedMap.alter_of_notMem hx, List.length_append]

lemma foldl_lowerGroup (xs : List ((SymbolId × List RuleId) × Nat))
    (l : List LoweredProduction × OrderedMap SymbolId Span)
    (h : (l.2.map Prod.fst ++ xs.map fun x => x.1.1).Nodup) :
    xs.foldl (g.lowerGroup target) l =
      (l.1 ++ xs.flatMap (g.loweredBlock target), l.2 ++ g.spans target l.1.length xs) := by
  induction xs generalizing l with
  | nil => simp [spans]
  | cons x xs ih =>
    have hx : x.1.1 ∉ l.2.map Prod.fst := fun hx =>
      (List.nodup_append.mp h).2.2 _ hx _ List.mem_cons_self rfl
    rw [List.foldl_cons, lowerGroup_eq hx, ih _ (by simpa using h)]
    simp [spans]

lemma getElem?_spans (xs : List ((SymbolId × List RuleId) × Nat)) (start n : Nat) :
    (g.spans target start xs)[n]? = (xs[n]?).map fun x =>
      (x.1.1, let before := start + ((xs.take n).flatMap (g.loweredBlock target)).length
        ⟨before, before + (g.loweredBlock target x).length⟩) := by
  induction xs generalizing start n with
  | nil => rfl
  | cons x xs ih =>
    cases n with
    | zero => simp [spans]
    | succ n => simp [spans, ih, Nat.add_assoc]

lemma mem_named : s ∈ g.named ↔ (∃ r ∈ g.rules, r.target = s) ∨
    (∃ r ∈ g.rules, s ∈ r.symbols) ∧ g.symbols.isNonterminal s := by
  rw [named, mem_foldl_distinct, mem_targets, List.mem_filter, List.mem_flatMap]

lemma rulesOf_eq_nil (hs : s ∉ g.targets) : g.rulesOf s = [] :=
  List.map_eq_nil_iff.mp (block_eq_nil hs)

lemma nonterminals_eq (g : Grammar) : g.nonterminals = g.symbols.size :: g.named := by
  refine foldl_distinct_cons fun hmem => ?_
  have hlt := SymbolTable.lt_size_of_isNonterminal (List.mem_filter.mp hmem).2
  exact Nat.lt_irrefl _ hlt

namespace Valid

variable (hg : g.Valid)

include hg

lemma isNonterminal_of_mem_named (hs : s ∈ g.named) : g.symbols.isNonterminal s = true := by
  rcases mem_named.mp hs with ⟨r, hr, rfl⟩ | ⟨-, hs⟩
  · exact hg.target_nonterminal r hr
  · exact hs

lemma nodup_named : g.named.Nodup :=
  (List.nodup_cons.mp (g.nonterminals_eq ▸ hg.nodup_nonterminals)).2

/-- The rules of a symbol are found by their numbers. -/
lemma filterMap_rulesOf {α : Type} (f : RuleId → Rule → α) (s : SymbolId) :
    (((g.rulesOf s).map Rule.id).filterMap fun id => (g.rule? id).map (f id)) =
      (g.rulesOf s).map fun r => f r.id r := by
  rw [List.filterMap_map]
  refine (List.filterMap_congr fun r hr => ?_).trans (congrFun List.filterMap_eq_map _)
  rw [Function.comp, hg.rule?_id (mem_rulesOf.mp hr).1]
  rfl

/-- The lowered block of a symbol has one production for every rule. -/
lemma loweredBlock_eq (target : SymbolId) (hs : s ≠ g.startSymbol) (n : Nat) :
    g.loweredBlock target ((s, (g.rulesOf s).map Rule.id), n) =
      (g.rulesOf s).map fun r => ⟨n, r.symbols.map g.lowerSymbol, some r.id⟩ := by
  rw [loweredBlock, if_neg hs, List.nil_append]
  exact hg.filterMap_rulesOf
    (fun id r => LoweredProduction.mk n (r.symbols.map g.lowerSymbol) (some id)) s

variable (hsize : g.symbols.size ≤ wordRange)

include hsize

/-- The number of `^` is that of no non-terminal: it is past the table, or it is `$`. -/
lemma isNonterminal_startSymbol : g.symbols.isNonterminal g.startSymbol = false := by
  rcases Nat.lt_or_eq_of_le hsize with hlt | heq
  · rw [startSymbol, Nat.mod_eq_of_lt hlt, ← Bool.not_eq_true]
    exact fun h => Nat.lt_irrefl _ (SymbolTable.lt_size_of_isNonterminal h)
  · rw [startSymbol, heq, Nat.mod_self]
    exact SymbolTable.isNonterminal_eq_false_of_isTerminal hg.isTerminal_eoi

lemma startSymbol_notMem_named : g.startSymbol ∉ g.named := fun h => by
  have hnot := hg.isNonterminal_startSymbol hsize
  rw [hg.isNonterminal_of_mem_named h] at hnot
  cases hnot

lemma startSymbol_notMem_targets : g.startSymbol ∉ g.targets := fun h =>
  hg.startSymbol_notMem_named hsize (mem_named.mpr (.inl (mem_targets.mp h)))

lemma nodup_lineup : (g.startSymbol :: g.named).Nodup :=
  List.nodup_cons.mpr ⟨hg.startSymbol_notMem_named hsize, hg.nodup_named⟩

lemma map_fst_byNonterminal : g.byNonterminal.map Prod.fst = g.startSymbol :: g.named := by
  have hmentioned : g.startSymbol ∉
      (g.rules.flatMap Rule.symbols).filter g.symbols.isNonterminal := fun h => by
    have hnot := hg.isNonterminal_startSymbol hsize
    rw [(List.mem_filter.mp h).2] at hnot
    cases hnot
  have htargets : g.startSymbol ∉ g.rules.map Rule.target := fun h =>
    hg.startSymbol_notMem_targets hsize (mem_targets.mpr (List.mem_map.mp h))
  rw [byNonterminal_eq_foldl,
    map_fst_foldl_alter _ (fun s => s) [] (fun _ => id), map_fst_foldl_alter, List.map_id',
    List.map_singleton, foldl_distinct_cons htargets, foldl_distinct_cons hmentioned]
  rfl

/-- In the line-up every non-terminal has its rules. -/
lemma byNonterminal_eq : g.byNonterminal =
    (g.startSymbol :: g.named).map fun s => (s, (g.rulesOf s).map Rule.id) := by
  have hvalue : ∀ s, (g.byNonterminal.lookup s).getD [] = (g.rulesOf s).map Rule.id := by
    intro s
    have hstart : (List.lookup s [(g.startSymbol, ([] : List RuleId))]).getD [] = [] := by
      rw [List.lookup_cons]
      split <;> rfl
    rw [byNonterminal_eq_foldl, lookup_foldl_mentioned, lookup_foldl_rules, hstart]
    rfl
  have hkeys := hg.map_fst_byNonterminal hsize
  rw [← hkeys]
  exact OrderedMap.eq_map_of_lookup (hkeys ▸ hg.nodup_lineup hsize) fun s _ => hvalue s

omit hsize in
/-- No rule defines `ε`. -/
lemma rulesOf_epsilon : g.rulesOf SymbolId.epsilon = [] := rulesOf_eq_nil fun hmem => by
  obtain ⟨r, hr, htarget⟩ := mem_targets.mp hmem
  have hnot := SymbolTable.isNonterminal_eq_false_of_isTerminal hg.isTerminal_epsilon
  rw [← htarget, hg.target_nonterminal r hr] at hnot
  cases hnot

lemma rulesOf_startSymbol : g.rulesOf g.startSymbol = [] :=
  rulesOf_eq_nil (hg.startSymbol_notMem_targets hsize)

/-! ## The lowered grammar laid out -/

lemma zipIdx_byNonterminal : g.byNonterminal.zipIdx = ((g.startSymbol, []), 0) ::
    (g.named.zipIdx 1).map fun x => ((x.1, (g.rulesOf x.1).map Rule.id), x.2) := by
  rw [hg.byNonterminal_eq hsize, List.map_cons, hg.rulesOf_startSymbol hsize, List.zipIdx_cons,
    List.zipIdx_map]
  rfl

lemma lowered_eq (target : SymbolId) : g.lowered target =
    ⟨g.byNonterminal.zipIdx.flatMap (g.loweredBlock target),
      g.spans target 0 g.byNonterminal.zipIdx, g.symbols.size, 0, target⟩ := by
  have hkeys : (g.byNonterminal.zipIdx.map fun x => x.1.1) = g.startSymbol :: g.named := by
    rw [← hg.map_fst_byNonterminal hsize]
    exact (List.map_map (f := Prod.fst) (g := Prod.fst)).symm.trans
      (congrArg _ (List.zipIdx_map_fst 0 _))
  rw [lowered, foldl_lowerGroup _ _ (by simpa [hkeys] using hg.nodup_lineup hsize)]
  rfl

/-- What stands at an index. -/
lemma getElem?_nts (target : SymbolId) (n : Nat) : (g.lowered target).nts[n]? =
    ((g.startSymbol :: g.named)[n]?).map fun s =>
      (s, let before := ((g.byNonterminal.zipIdx.take n).flatMap (g.loweredBlock target)).length
        ⟨before, before + (g.loweredBlock target ((s, (g.rulesOf s).map Rule.id), n)).length⟩) := by
  have hat : (g.byNonterminal.zipIdx)[n]? = ((g.startSymbol :: g.named)[n]?).map fun s =>
      ((s, (g.rulesOf s).map Rule.id), n) := by
    rw [List.getElem?_zipIdx, hg.byNonterminal_eq hsize, List.getElem?_map, Option.map_map,
      Nat.zero_add]
    rfl
  rw [hg.lowered_eq hsize, getElem?_spans, hat, Option.map_map]
  simp only [Nat.zero_add]
  rfl

section Indices

variable {n : Nat}

lemma ntSymbol_eq (target : SymbolId) (n : Nat) : (g.lowered target).ntSymbol n =
    ((g.startSymbol :: g.named)[n]?).getD SymbolId.epsilon := by
  rw [Lowered.ntSymbol, hg.getElem?_nts hsize]
  cases (g.startSymbol :: g.named)[n]? <;> rfl

lemma map_fst_nts (target : SymbolId) :
    (g.lowered target).nts.map Prod.fst = g.startSymbol :: g.named := by
  refine List.ext_getElem? fun n => ?_
  rw [List.getElem?_map, hg.getElem?_nts hsize, Option.map_map]
  cases (g.startSymbol :: g.named)[n]? <;> rfl

lemma length_nts (target : SymbolId) : (g.lowered target).nts.length = g.named.length + 1 := by
  rw [← List.length_map Prod.fst, hg.map_fst_nts hsize, List.length_cons]

/-- An index other than that of `^` is one more than a position in the line-up of the others. -/
lemma isIndex_iff {n : Nat} : (g.lowered target).IsIndex n ∧ (g.lowered target).ntSymbol n = s ↔
    ∃ m, n = m + 1 ∧ g.named[m]? = some s := by
  constructor
  · rintro ⟨⟨hpos, hlt⟩, hn⟩
    obtain ⟨m, rfl⟩ := Nat.exists_eq_add_of_le' hpos
    rw [hg.length_nts hsize] at hlt
    have hget := List.getElem?_eq_getElem (Nat.lt_of_succ_lt_succ hlt)
    rw [hg.ntSymbol_eq hsize, List.getElem?_cons_succ, hget, Option.getD_some] at hn
    exact ⟨m, rfl, hn ▸ hget⟩
  · rintro ⟨m, rfl, hm⟩
    refine ⟨⟨Nat.succ_pos m, ?_⟩, ?_⟩
    · rw [hg.length_nts hsize]
      exact Nat.succ_lt_succ (List.getElem?_eq_some_iff.mp hm).1
    · rw [hg.ntSymbol_eq hsize, List.getElem?_cons_succ, hm, Option.getD_some]

/-- Both maps have a symbol at the same place. -/
lemma place?_byNonterminal (hn : (g.startSymbol :: g.named)[n]? = some s) :
    g.byNonterminal.place? s = some n := by
  obtain ⟨hlt, rfl⟩ := List.getElem?_eq_some_iff.mp hn
  rw [OrderedMap.place?, hg.byNonterminal_eq hsize, List.findIdx?_map,
    List.findIdx?_eq_some_iff_getElem]
  refine ⟨hlt, beq_self_eq_true _, fun j hj hfound => Nat.ne_of_lt hj ?_⟩
  exact (List.Nodup.getElem_inj_iff (hg.nodup_lineup hsize)).mp (beq_iff_eq.mp hfound)

lemma lowerSymbol_of_mem (hs : s ∈ g.named) : ∃ n, (g.startSymbol :: g.named)[n]? = some s ∧
    g.lowerSymbol s = .nonterminal n := by
  obtain ⟨n, hn⟩ := List.mem_iff_getElem?.mp (List.mem_cons_of_mem g.startSymbol hs)
  refine ⟨n, hn, ?_⟩
  rw [lowerSymbol, hg.place?_byNonterminal hsize hn]
  simp only [hg.isNonterminal_of_mem_named hs, if_true]

omit hg hsize in
lemma lowerSymbol_of_token (hs : g.symbols.isNonterminal s = false) :
    g.lowerSymbol s = .token s := by
  rw [lowerSymbol]
  split
  · rw [hs, if_neg Bool.false_ne_true]
  · rfl

/-- A symbol of a rule is lowered to what it is. -/
lemma part_lowerSymbol (target : SymbolId) (hs : g.symbols.isNonterminal s = true → s ∈ g.named) :
    (g.lowered target).part (g.lowerSymbol s) = g.part s := by
  cases hnonterminal : g.symbols.isNonterminal s with
  | false => rw [lowerSymbol_of_token hnonterminal, part_eq_terminal hnonterminal, Lowered.part]
  | true =>
    obtain ⟨n, hn, hlower⟩ := hg.lowerSymbol_of_mem hsize (hs hnonterminal)
    rw [hlower, part_eq_nonterminal hnonterminal, Lowered.part, hg.ntSymbol_eq hsize, hn,
      Option.getD_some]

lemma isIndex_of_lowerSymbol (target : SymbolId) (h : g.lowerSymbol s = .nonterminal n) :
    (g.lowered target).IsIndex n := by
  rw [lowerSymbol] at h
  split at h
  · next m hplace =>
    split at h
    · next hnonterminal =>
      obtain rfl := LoweredSymbol.nonterminal.inj h
      rw [OrderedMap.place?, hg.byNonterminal_eq hsize, List.findIdx?_map,
        List.findIdx?_eq_some_iff_getElem] at hplace
      obtain ⟨hlt, hfound, -⟩ := hplace
      have hsymbol : (g.startSymbol :: g.named)[m] = s := beq_iff_eq.mp hfound
      refine ⟨Nat.pos_of_ne_zero ?_, by rw [hg.length_nts hsize]; exact hlt⟩
      rintro rfl
      have hnot := hg.isNonterminal_startSymbol hsize
      rw [List.getElem_cons_zero] at hsymbol
      rw [hsymbol, hnonterminal] at hnot
      cases hnot
    · cases h
  · cases h

end Indices

/-! ## The productions by index -/

lemma prods_eq (target : SymbolId) : (g.lowered target).prods =
    ⟨0, [g.lowerSymbol target], none⟩ :: (g.named.zipIdx 1).flatMap fun x =>
      (g.rulesOf x.1).map fun r => ⟨x.2, r.symbols.map g.lowerSymbol, some r.id⟩ := by
  rw [hg.lowered_eq hsize, hg.zipIdx_byNonterminal hsize]
  simp only [List.flatMap_cons, List.flatMap_map]
  rw [loweredBlock, if_pos rfl, List.filterMap_nil, List.append_nil, List.singleton_append]
  refine congrArg _ (List.flatMap_congr fun x hx => hg.loweredBlock_eq target ?_ x.2)
  rintro heq
  exact hg.startSymbol_notMem_named hsize (heq ▸ List.fst_mem_of_mem_zipIdx hx)

omit hsize in
lemma mem_named_of_target (ht : g.target = some target) : target ∈ g.named := by
  obtain ⟨r, hr, htarget⟩ := hg.exists_rule_of_target ht
  exact mem_named.mpr (.inl ⟨r, hr, htarget⟩)

/-- The productions by index are those by symbol. -/
lemma map_production_prods (ht : g.target = some target) :
    (g.productions target).list.toList =
      (g.lowered target).prods.map (g.lowered target).production := by
  have hrhs : ∀ r ∈ g.rules, (r.symbols.map g.lowerSymbol).map (g.lowered target).part =
      r.symbols.map g.part := by
    intro r hr
    rw [List.map_map]
    refine List.map_congr_left fun s hs => hg.part_lowerSymbol hsize target fun hnonterminal => ?_
    exact mem_named.mpr (.inr ⟨⟨r, hr, hs⟩, hnonterminal⟩)
  have hblock : ∀ x ∈ g.named.zipIdx 1,
      ((g.rulesOf x.1).map fun r => (⟨x.2, r.symbols.map g.lowerSymbol, some r.id⟩ :
        LoweredProduction)).map (g.lowered target).production = g.blockOf target x.1 := by
    rintro ⟨s, n⟩ hx
    obtain ⟨hn, hs⟩ := List.mk_mem_zipIdx_iff_le_and_getElem?_sub.mp hx
    obtain ⟨n, rfl⟩ := Nat.exists_eq_add_of_le' hn
    rw [Nat.add_sub_cancel] at hs
    have hlt := SymbolTable.lt_size_of_isNonterminal
      (hg.isNonterminal_of_mem_named (List.mem_of_getElem? hs))
    rw [blockOf, if_neg (Nat.ne_of_lt hlt), block, List.map_map]
    refine List.map_congr_left fun r hr => ?_
    obtain ⟨hmem, rfl⟩ := mem_rulesOf.mp hr
    rw [Function.comp, Lowered.production, if_neg (Nat.succ_ne_zero n), hrhs r hmem,
      hg.ntSymbol_eq hsize, List.getElem?_cons_succ, hs, Option.getD_some, production]
  have hstart : (g.lowered target).production ⟨0, [g.lowerSymbol target], none⟩ =
      g.startProduction target := by
    rw [Lowered.production, startProduction, List.map_singleton,
      hg.part_lowerSymbol hsize target fun _ => hg.mem_named_of_target ht]
    rfl
  have hnamed : g.named.flatMap (g.blockOf target) =
      (g.named.zipIdx 1).flatMap fun x => g.blockOf target x.1 := by
    rw [← List.flatMap_map Prod.fst, List.zipIdx_map_fst]
  rw [hg.productions_eq_flatMap, g.nonterminals_eq, List.flatMap_cons, blockOf, if_pos rfl,
    List.singleton_append, hg.prods_eq hsize, List.map_cons, hstart, List.map_flatMap, hnamed]
  exact congrArg _ (List.flatMap_congr fun x hx => (hblock x hx).symm)

/-- The blocks of the line-up are as long by index as by symbol. -/
lemma map_length_blocks (target : SymbolId) :
    (g.byNonterminal.zipIdx.map fun x => (g.loweredBlock target x).length) =
      g.nonterminals.map fun s => (g.blockOf target s).length := by
  have hnamed : (g.named.zipIdx 1).map (fun x => (g.loweredBlock target
        ((x.1, (g.rulesOf x.1).map Rule.id), x.2)).length) =
      ((g.named.zipIdx 1).map Prod.fst).map fun s => (g.blockOf target s).length := by
    rw [List.map_map]
    refine List.map_congr_left fun x hx => ?_
    have hmem : x.1 ∈ g.named := List.fst_mem_of_mem_zipIdx hx
    have hlt := SymbolTable.lt_size_of_isNonterminal (hg.isNonterminal_of_mem_named hmem)
    have hne : x.1 ≠ g.startSymbol := fun heq => hg.startSymbol_notMem_named hsize (heq ▸ hmem)
    rw [Function.comp, hg.loweredBlock_eq target hne, List.length_map, blockOf,
      if_neg (Nat.ne_of_lt hlt), block, List.length_map]
  rw [List.zipIdx_map_fst] at hnamed
  rw [hg.zipIdx_byNonterminal hsize, g.nonterminals_eq, List.map_cons, List.map_cons, List.map_map,
    blockOf, if_pos rfl, loweredBlock, if_pos rfl]
  exact congrArg _ hnamed

/-- An index has the range of its symbol. -/
lemma range_lowered {n : Nat} (hn : g.nonterminals[n]? = some s) :
    (g.lowered target).range n = (g.productions target).range s := by
  have hlengths := hg.map_length_blocks hsize target
  obtain ⟨hlt, rfl⟩ := List.getElem?_eq_some_iff.mp hn
  have hlt' : n < (g.startSymbol :: g.named).length := by
    rwa [g.nonterminals_eq] at hlt
  -- the blocks before it are as long, and so is its own
  have hbefore : ((g.byNonterminal.zipIdx.take n).flatMap (g.loweredBlock target)).length =
      ((g.nonterminals.take n).flatMap (g.blockOf target)).length := by
    rw [List.length_flatMap, List.length_flatMap, List.map_take, List.map_take, hlengths]
  have hown : (g.loweredBlock target (((g.startSymbol :: g.named)[n],
      (g.rulesOf (g.startSymbol :: g.named)[n]).map Rule.id), n)).length =
        (g.blockOf target g.nonterminals[n]).length := by
    have hat := congrArg (fun l => l[n]?) hlengths
    simp only [List.getElem?_map, List.getElem?_zipIdx, hg.byNonterminal_eq hsize,
      List.getElem?_eq_getElem hlt, List.getElem?_eq_getElem hlt', Option.map_some,
      Option.some.injEq, Nat.zero_add] at hat
    exact hat
  have hsplit : g.nonterminals =
      g.nonterminals.take n ++ g.nonterminals[n] :: g.nonterminals.drop (n + 1) := by
    rw [← List.drop_eq_getElem_cons, List.take_append_drop]
  rw [Lowered.range, hg.getElem?_nts hsize, List.getElem?_eq_getElem hlt', Option.map_some,
    Option.elim_some, Span.numbers, hbefore, hown, Nat.add_sub_cancel_left]
  exact (Productions.range_eq_of_split (hg.productions_eq_flatMap target) hg.nodup_nonterminals
    (fun _ _ => lhs_of_mem_blockOf) hsplit).symm

/-- The first production is that of `^`, and every other is one of a rule. -/
lemma prods_cases {p : Nat} {prod : LoweredProduction}
    (hp : (g.lowered target).prods[p]? = some prod) :
    p = 0 ∧ prod = ⟨0, [g.lowerSymbol target], none⟩ ∨ p ≠ 0 ∧ ∃ n < g.named.length,
      ∃ r ∈ g.rules, prod = ⟨n + 1, r.symbols.map g.lowerSymbol, some r.id⟩ := by
  rw [hg.prods_eq hsize] at hp
  cases p with
  | zero => exact .inl ⟨rfl, (Option.some.inj hp).symm⟩
  | succ p =>
    rw [List.getElem?_cons_succ] at hp
    obtain ⟨⟨s, n⟩, hx, hprod⟩ := List.mem_flatMap.mp (List.mem_of_getElem? hp)
    obtain ⟨r, hr, rfl⟩ := List.mem_map.mp hprod
    obtain ⟨hn, hs⟩ := List.mk_mem_zipIdx_iff_le_and_getElem?_sub.mp hx
    obtain ⟨n, rfl⟩ := Nat.exists_eq_add_of_le' hn
    exact .inr ⟨Nat.succ_ne_zero p, n, (List.getElem?_eq_some_iff.mp hs).1, r,
      (mem_rulesOf.mp hr).1, rfl⟩

/-- What the lowered grammar says by index is what the productions say by symbol. -/
theorem mirrors_lowered (ht : g.target = some target) :
    (g.lowered target).Mirrors (g.productions target) where
  start := by rw [hg.lowered_eq hsize]
  width := by
    rw [hg.lowered_eq hsize]
    rfl
  list := hg.map_production_prods hsize ht
  nt_eq_zero_iff p prod hp := by
    rcases hg.prods_cases hsize hp with ⟨rfl, rfl⟩ | ⟨hne, n, -, r, -, rfl⟩
    · simp
    · simp [hne]
  nt_lt prod hprod := by
    rw [hg.length_nts hsize]
    obtain ⟨p, hp⟩ := List.mem_iff_getElem?.mp hprod
    rcases hg.prods_cases hsize hp with ⟨-, rfl⟩ | ⟨-, n, hn, r, -, rfl⟩
    · exact Nat.succ_pos _
    · exact Nat.succ_lt_succ hn
  isIndex prod hprod n hn := by
    obtain ⟨p, hp⟩ := List.mem_iff_getElem?.mp hprod
    rcases hg.prods_cases hsize hp with ⟨-, rfl⟩ | ⟨-, _, -, r, -, rfl⟩
    · exact hg.isIndex_of_lowerSymbol hsize target (List.mem_singleton.mp hn).symm
    · obtain ⟨s, -, hs⟩ := List.mem_map.mp hn
      exact hg.isIndex_of_lowerSymbol hsize target hs
  nodup := by
    rw [hg.map_fst_nts hsize]
    exact hg.nodup_lineup hsize
  ntSymbol_lt n hn := by
    obtain ⟨m, -, hm⟩ := (hg.isIndex_iff hsize).mp ⟨hn, rfl⟩
    exact SymbolTable.lt_size_of_isNonterminal
      (hg.isNonterminal_of_mem_named (List.mem_of_getElem? hm))
  range_zero := by
    rw [hg.range_lowered hsize (by rw [g.nonterminals_eq, List.getElem?_cons_zero]),
      Productions.range_eq_of_split (hg.productions_eq_flatMap target) hg.nodup_nonterminals
        (fun _ _ => lhs_of_mem_blockOf) (g.nonterminals_eq.trans (List.nil_append _).symm),
      blockOf, if_pos rfl]
    rfl
  range_eq n hn := by
    obtain ⟨m, rfl, hm⟩ := (hg.isIndex_iff hsize).mp ⟨hn, rfl⟩
    exact hg.range_lowered hsize (by rw [g.nonterminals_eq, List.getElem?_cons_succ, hm])
  flatMap_range := by
    have hranges : (List.range (g.lowered target).nts.length).map (g.lowered target).range =
        g.nonterminals.map (g.productions target).range := by
      have hlength : (g.lowered target).nts.length = g.nonterminals.length := by
        rw [hg.length_nts hsize, g.nonterminals_eq, List.length_cons]
      refine List.ext_getElem (by simpa using hlength) fun n hn hn' => ?_
      rw [List.length_map] at hn'
      rw [List.getElem_map, List.getElem_map, List.getElem_range,
        hg.range_lowered hsize (List.getElem?_eq_getElem hn')]
    rw [List.flatMap_def, hranges, ← List.flatMap_def,
      Productions.flatMap_range (hg.productions_eq_flatMap target) hg.nodup_nonterminals
        (fun _ _ => lhs_of_mem_blockOf),
      ← Array.length_toList, hg.map_production_prods hsize ht, List.length_map]

end Valid

end Grammar

/-! ## The regrouping by index -/

namespace Lowered.Mirrors

variable {l : Lowered} {ps : Productions} {target : SymbolId} {n p : Nat}
  {prod : LoweredProduction} (h : l.Mirrors ps)

include h

/-- The productions of a number stand for one rule. -/
lemma rule_eq (p : Nat) : (l.prods[p]?).bind LoweredProduction.rule =
    (ps.get? p).bind Production.rule := by
  rw [h.get?_eq]
  cases l.prods[p]? <;> rfl

/-- The left-hand sides by index and by symbol are the same ones. -/
lemma lhs_eq_iff (hn : l.IsIndex n) (hprod : prod ∈ l.prods) :
    (l.production prod).lhs = l.ntSymbol n ↔ prod.nt = n := by
  rw [production]
  split
  · next hzero =>
    have hlt := h.ntSymbol_lt n hn
    rw [← h.width] at hlt
    exact iff_of_false (Nat.ne_of_gt hlt) (hzero ▸ Nat.ne_of_lt hn.1)
  · exact ⟨h.ntSymbol_inj (h.nt_lt prod hprod) hn.2, fun heq => congrArg l.ntSymbol heq⟩

/-- The range of an index has the numbers of its productions. -/
lemma mem_range (hps : ps.Proper target) :
    p ∈ l.range n ↔ ∃ prod, l.prods[p]? = some prod ∧ prod.nt = n := by
  rcases Nat.eq_zero_or_pos n with rfl | hpos
  · obtain ⟨prod₀, hprod₀, -⟩ := Option.map_eq_some_iff.mp ((h.get?_eq 0).symm.trans hps.start)
    rw [h.range_zero, List.mem_singleton]
    constructor
    · rintro rfl
      exact ⟨prod₀, hprod₀, (h.nt_eq_zero_iff 0 prod₀ hprod₀).mpr rfl⟩
    · rintro ⟨prod, hp, hnt⟩
      exact (h.nt_eq_zero_iff p prod hp).mp hnt
  · by_cases hlt : n < l.nts.length
    · rw [h.range_eq n ⟨hpos, hlt⟩, hps.mem_range, h.get?_eq]
      constructor
      · rintro ⟨_, hp, hlhs⟩
        obtain ⟨prod, hprod, rfl⟩ := Option.map_eq_some_iff.mp hp
        exact ⟨prod, hprod, (h.lhs_eq_iff ⟨hpos, hlt⟩ (List.mem_of_getElem? hprod)).mp hlhs⟩
      · rintro ⟨prod, hp, hnt⟩
        refine ⟨_, Option.map_eq_some_iff.mpr ⟨prod, hp, rfl⟩, ?_⟩
        exact (h.lhs_eq_iff ⟨hpos, hlt⟩ (List.mem_of_getElem? hp)).mpr hnt
    · rw [range, List.getElem?_eq_none (Nat.le_of_not_lt hlt), Option.elim_none]
      refine iff_of_false List.not_mem_nil ?_
      rintro ⟨prod, hp, rfl⟩
      exact hlt (h.nt_lt prod (List.mem_of_getElem? hp))

end Lowered.Mirrors

namespace Grammar

variable {g : Grammar} {target : SymbolId}

/-- The lowered productions are the rules of the grammar regrouped, behind `^ → target`. -/
structure Faithful (g : Grammar) (target : SymbolId) (l : Lowered) : Prop where
  start : l.start = 0 ∧ l.target = target ∧
    ∃ n, l.prods[0]? = some ⟨0, [.nonterminal n], none⟩ ∧ l.ntSymbol n = target
  /-- Only the first production stands for no rule. -/
  rule_eq_none : ∀ (p : Nat) (prod : LoweredProduction), l.prods[p]? = some prod →
    (prod.rule = none ↔ p = 0)
  /-- Every rule has one production. -/
  existsUnique : ∀ id r, g.rule? id = some r →
    ∃! p : Nat, ∃ prod : LoweredProduction, l.prods[p]? = some prod ∧ prod.rule = some id
  /-- The indices in the production of a rule lead back to its target and to its symbols, and what
  is an index is a non-terminal. -/
  production : ∀ (p : Nat) (prod : LoweredProduction) id, l.prods[p]? = some prod →
    prod.rule = some id → ∃ r, g.rule? id = some r ∧ l.ntSymbol prod.nt = r.target ∧
      prod.symbols.map l.symbolId = r.symbols ∧
      ∀ symbol ∈ prod.symbols, (∃ n, symbol = .nonterminal n) ↔
        g.symbols.isNonterminal (l.symbolId symbol) = true
  /-- The range of an index has the numbers of its productions. -/
  mem_range : ∀ n p, p ∈ l.range n ↔ ∃ prod, l.prods[p]? = some prod ∧ prod.nt = n
  /-- In the range of an index the productions come in the order of the rules. There are none if no
  rule defines its symbol. -/
  rules_range : ∀ n, n ≠ 0 →
    (l.range n).map (fun p => (l.prods[p]?).bind LoweredProduction.rule) =
        (g.rulesOf (l.ntSymbol n)).map (fun r => some r.id) ∧
      ((g.rulesOf (l.ntSymbol n)).map Rule.id).Pairwise (· < ·)
  /-- The ranges of the indices, one after another, are the numbers of all productions. -/
  flatMap_range : (List.range l.nts.length).flatMap l.range = List.range l.prods.length
  /-- No two indices have one symbol. -/
  nodup : (l.nts.map Prod.fst).Nodup
  /-- Every index in a production is taken, and that of `^` is in no right-hand side. -/
  index_lt : ∀ prod ∈ l.prods, prod.nt < l.nts.length ∧
    ∀ n, .nonterminal n ∈ prod.symbols → 0 < n ∧ n < l.nts.length
  /-- The indices other than that of `^` are those of the symbols that rules define and of the
  non-terminals that clauses mention. -/
  exists_index_iff : ∀ s, (∃ n, 0 < n ∧ n < l.nts.length ∧ l.ntSymbol n = s) ↔
    (∃ r ∈ g.rules, r.target = s) ∨
      (∃ r ∈ g.rules, s ∈ r.symbols) ∧ g.symbols.isNonterminal s = true

namespace Valid

variable (hg : g.Valid) (hsize : g.symbols.size ≤ wordRange)

include hg hsize

lemma faithful_lowered (ht : g.target = some target)
    (hregrouped : g.Regrouped target (g.productions target)) :
    g.Faithful target (g.lowered target) := by
  have hps := hg.proper_productions ht
  have h := hg.mirrors_lowered hsize ht
  refine ⟨⟨h.start, rfl, ?start⟩, fun p prod hp => ?rule_eq_none, fun id r hr => ?existsUnique,
    fun p prod id hp hid => ?production, fun n p => h.mem_range hps, fun n hn => ?rules_range,
    h.flatMap_range, h.nodup, fun prod hprod => ⟨h.nt_lt prod hprod, h.isIndex prod hprod⟩,
    fun s => ?exists_index_iff⟩
  case start =>
    obtain ⟨n, hn, hlower⟩ := hg.lowerSymbol_of_mem hsize (hg.mem_named_of_target ht)
    refine ⟨n, ?_, ?_⟩
    · rw [hg.prods_eq hsize, List.getElem?_cons_zero, hlower]
    · rw [hg.ntSymbol_eq hsize, hn, Option.getD_some]
  case rule_eq_none =>
    have hget := h.get?_eq p
    rw [hp, Option.map_some] at hget
    exact hregrouped.rule_eq_none p _ hget
  case existsUnique =>
    have hunique := hregrouped.existsUnique id r hr
    simpa [h.get?_eq, Lowered.production] using hunique
  case production =>
    obtain ⟨r, hr, hlhs, hrhs, hparts⟩ := hregrouped.production p
      ((g.lowered target).production prod) id (by rw [h.get?_eq, hp]; rfl) hid
    have hne : prod.nt ≠ 0 := by
      rw [Ne, h.nt_eq_zero_iff p prod hp]
      rintro rfl
      have hnone : prod.rule = none := (hregrouped.rule_eq_none 0
        ((g.lowered target).production prod) (by rw [h.get?_eq, hp]; rfl)).mpr rfl
      rw [hnone] at hid
      cases hid
    refine ⟨r, hr, ?_, (Lowered.map_symbol_part _ _).symm.trans hrhs, fun symbol hsymbol => ?_⟩
    · rwa [Lowered.production, if_neg hne] at hlhs
    · have hpart := hparts _ (List.mem_map_of_mem hsymbol)
      cases symbol with
      | token s =>
        refine iff_of_false (by simp) fun (hs : g.symbols.isNonterminal s = true) => ?_
        rw [Lowered.part, Part.symbol, if_pos hs] at hpart
        cases hpart
      | nonterminal n =>
        refine iff_of_true ⟨n, rfl⟩ ?_
        show g.symbols.isNonterminal ((g.lowered target).ntSymbol n) = true
        by_contra hs
        rw [Lowered.part, Part.symbol, if_neg hs] at hpart
        cases hpart
  case rules_range =>
    simp only [h.rule_eq]
    by_cases hlt : n < (g.lowered target).nts.length
    · have hindex : (g.lowered target).IsIndex n := ⟨Nat.pos_of_ne_zero hn, hlt⟩
      rw [h.range_eq n hindex]
      exact hregrouped.rules_range _ (Nat.ne_of_lt (h.ntSymbol_lt n hindex))
    · -- an index that is not taken stands for `ε`
      have hnone := List.getElem?_eq_none (Nat.le_of_not_lt hlt)
      rw [Lowered.range, Lowered.ntSymbol, hnone, Option.elim_none, Option.elim_none,
        hg.rulesOf_epsilon]
      exact ⟨rfl, List.Pairwise.nil⟩
  case exists_index_iff =>
    rw [← mem_named, List.mem_iff_getElem?]
    constructor
    · rintro ⟨n, hpos, hlt, hn⟩
      obtain ⟨m, -, hm⟩ := (hg.isIndex_iff hsize).mp ⟨⟨hpos, hlt⟩, hn⟩
      exact ⟨m, hm⟩
    · rintro ⟨m, hm⟩
      obtain ⟨⟨hpos, hlt⟩, hn⟩ := (hg.isIndex_iff hsize).mpr ⟨m, rfl, hm⟩
      exact ⟨m + 1, hpos, hlt, hn⟩

end Valid

/-- Lowering regroups the rules. For a grammar that has a rule, and whose symbols all have a word
for their number, what comes out has one block of productions for every non-terminal, with one
production for every rule; and the productions are those from which states are made by symbol. -/
theorem Valid.lower_faithful (hg : g.Valid) (hrules : g.rules ≠ [])
    (hsize : g.symbols.size ≤ wordRange) :
    ∃ target l, g.target = some target ∧ g.lower = .ok l ∧ g.Faithful target l ∧
      l.Mirrors (g.productions target) := by
  obtain ⟨target, ht, hregrouped⟩ := hg.productions_regrouped hrules
  refine ⟨target, g.lowered target, ht, ?_, hg.faithful_lowered hsize ht hregrouped,
    hg.mirrors_lowered hsize ht⟩
  rw [lower, ht]

/-- `S → T a`, `T → V`, `S → b` and `U → S`, where no rule defines `V`. -/
def interleaved : Grammar where
  name := none
  symbols := ⟨SymbolTable.initial.entries ++
    [⟨.nonterminal, "S"⟩, ⟨.nonterminal, "T"⟩, ⟨.nonterminal, "V"⟩, ⟨.nonterminal, "U"⟩,
      ⟨.terminal, "a"⟩, ⟨.terminal, "b"⟩]⟩
  rules := [.plain 0 2 [3, 6], .plain 1 3 [4], .plain 2 2 [7], .plain 3 5 [2]]
  levels := []
  target := some 2

/-- The two rules of `S` come together, and `V`, which has index 4, has an empty range. -/
theorem lower_faithful_interleaved : interleaved.Valid ∧ interleaved.rules ≠ [] ∧
    interleaved.symbols.size ≤ wordRange ∧ ∃ l, interleaved.lower = .ok l ∧
      interleaved.Faithful 2 l ∧ l.Mirrors (interleaved.productions 2) ∧
      (l.prods.map fun prod => (prod.nt, prod.symbols, prod.rule)) =
        [(0, [.nonterminal 1], none), (1, [.nonterminal 2, .token 6], some 0),
          (1, [.token 7], some 2), (2, [.nonterminal 4], some 1), (3, [.nonterminal 1], some 3)] ∧
      l.nts = [(8, ⟨0, 1⟩), (2, ⟨1, 3⟩), (3, ⟨3, 4⟩), (5, ⟨4, 5⟩), (4, ⟨5, 5⟩)] := by
  have hvalid : interleaved.Valid := ⟨⟨_, rfl⟩, rfl, by decide, by decide, by decide, rfl⟩
  have hrules : interleaved.rules ≠ [] := by decide
  have hsize : interleaved.symbols.size ≤ wordRange := by decide
  obtain ⟨target, l, ht, hl, hfaithful, hmirrors⟩ := hvalid.lower_faithful hrules hsize
  obtain rfl := Option.some.inj ht
  refine ⟨hvalid, hrules, hsize, l, hl, hfaithful, hmirrors, ?_⟩
  obtain rfl := Except.ok.inj hl
  exact ⟨by decide +kernel, by decide +kernel⟩

end Grammar

end ShiftReduce
