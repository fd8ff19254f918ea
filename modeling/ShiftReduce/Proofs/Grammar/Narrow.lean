import ShiftReduce.Proofs.Grammar.Content
import ShiftReduce.Proofs.Grammar.Interning
import ShiftReduce.Proofs.Grammar.Refusal
/-!
# Grammars with numbers of one word

A number of a symbol or of a rule is stored in one word, and whatever does not fit into it is cut
off. Here are the calls on grammars with every such cut: a new symbol is put over the one that has
its number already, the settings of a new rule go to the rule at the position of its number, and
rules are renumbered by cut positions. Fresh names are searched with a counter that may run over.
A refused call is given with the grammar that it leaves behind.

As long as there is room for the numbers nothing is cut, and every call does what it does with
numbers of any size. So whatever is called and whatever of it is refused, the grammar stays valid.

Main statement: `Grammar.run_valid`.
-/

namespace ShiftReduce

namespace Narrow

open Grammar (Operation withoutSymbol)

/-! ## Calls -/

/-- What is left of a number in one word. -/
def word (n : Nat) : Nat := n % wordRange

/-- Puts an entry over the one of this number, or behind all if no entry has it. -/
def put (t : SymbolTable) (s : SymbolId) (e : Symbol) : SymbolTable :=
  ⟨if s < t.size then t.entries.set s e else t.entries ++ [e]⟩

/-- The number of a symbol. A new symbol is put under the number of symbols, cut to a word. -/
def intern (t : SymbolTable) (kind : SymbolKind) (name : String) : SymbolId × SymbolTable :=
  match t.find? kind name with
  | some s => (s, t)
  | none => (word t.size, put t (word t.size) ⟨kind, name⟩)

/-- Interns a non-terminal under a name of its own, if the fuel suffices for the search. -/
def internFresh (t : SymbolTable) (fuel : Nat) (base : String) : Option (SymbolId × SymbolTable) :=
  (t.toMap.searchName base fuel 1 base).map (intern t .nonterminal)

/-- Appends a rule, and changes the rule at the position of its number by the settings. -/
def addRule (g : Grammar) (target : SymbolId) (clause : List SymbolId)
    (settings : List RuleSetting) : Grammar × Except GrammarError RuleId :=
  if g.symbols.isNonterminal target then
    match clause.find? fun s => !g.symbols.contains s with
    | some unknown => (g, .error (.unknownSymbol unknown))
    | none =>
      let clause := if clause.isEmpty then [SymbolId.epsilon] else clause
      let id := word g.rules.length
      let rules := g.rules ++ [Rule.plain id target clause]
      ({ g with
        rules := settings.foldl (fun rules setting => rules.modify id (·.configure setting)) rules
        target := g.target.or (some target) }, .ok id)
  else
    (g, .error (.targetNotNonterminal (g.symbols.name target)))

/-- Adds the alternatives of a symbol in order and stops at the first that is refused. -/
def addAlternatives (g : Grammar) (target : SymbolId) :
    List Alternative → Grammar × Except GrammarError Unit
  | [] => (g, .ok ())
  | a :: rest =>
    match addRule g target a.clause a.settings with
    | (g, .error e) => (g, .error e)
    | (g, .ok _) => addAlternatives g target rest

/-- Interns a fresh non-terminal and gives it its alternatives. -/
def define (fuel : Nat) (g : Grammar) (name : String)
    (alternatives : SymbolId → List Alternative) :
    Option (Grammar × Except GrammarError SymbolId) :=
  (internFresh g.symbols fuel name).map fun (s, symbols) =>
    let (g, result) := addAlternatives { g with symbols } s (alternatives s)
    (g, result.map fun _ => s)

/-- The rules with each number set to its position, cut to a word. -/
def renumber (rules : List Rule) : List Rule :=
  rules.mapIdx fun i r => { r with id := word i }

/-- Makes a rule the accepted one. The rules are not touched if it is in front already. -/
def acceptRule (g : Grammar) (id : RuleId) : Grammar × Except GrammarError Unit :=
  match g.rule? id with
  | none => (g, .error (.unknownRule id))
  | some rule =>
    let count := (g.rulesOf rule.target).length
    if count = 1 then
      let g := { g with target := some rule.target }
      if id = 0 then (g, .ok ())
      else ({ g with rules := renumber (rule :: g.rules.eraseIdx id) }, .ok ())
    else
      (g, .error (.sharedTarget (g.ruleText rule) count (g.symbols.name rule.target)))

/-- The grammar of a fresh rule for the symbol and of the rules below it. -/
def extract (fuel : Nat) (g : Grammar) (s : SymbolId) : Option Grammar :=
  let name := g.symbols.name s
  (internFresh g.symbols fuel ("<" ++ name ++ ">")).map fun (start, symbols) =>
    let startRule := { Rule.plain 0 start [s] with name := some "start" }
    { name := g.name.map fun n => "Subgrammar of '" ++ n ++ "' targeting '" ++ name ++ "'"
      symbols
      rules := renumber (startRule :: g.rulesBelow s)
      levels := g.levels
      target := some start }

/-- The fragment for a symbol, and the grammar afterwards. -/
def fragment (fuel : Nat) (g : Grammar) (s : SymbolId) :
    Option (Grammar × Except GrammarError Fragment) :=
  let g := g.inheritLevels
  match g.rulesOf s with
  | [] => some (g, .error (.undefined (g.symbols.name s) none))
  | [rule] => some ((acceptRule g rule.id).1, (acceptRule g rule.id).2.map fun _ => .whole)
  | _ => (extract fuel g s).map fun h => (g, .ok (.part h))

/-- The name from which a shorthand makes that of its non-terminal. -/
def label (g : Grammar) : Operation → String
  | .oneOf symbols => "oneOf(" ++ g.nameList symbols ++ ")"
  | .optional symbols => "optional(" ++ g.nameList symbols ++ ")"
  | .oneOrMore symbols => "oneOrMore(" ++ g.nameList symbols ++ ")"
  | .zeroOrMore symbols => "zeroOrMore(" ++ g.nameList symbols ++ ")"
  | .listOf _ _ item => "listOf(" ++ g.symbols.name item ++ ")"
  | _ => ""

/-- The grammar after a call, and whether the call was refused. -/
def perform (fuel : Nat) (g : Grammar) (op : Operation) :
    Option (Grammar × Except GrammarError Unit) :=
  match op with
  | .rename name => some ({ g with name := some name }, .ok ())
  | .terminal name =>
    some ({ g with symbols := (intern g.symbols .terminal name).2 }, .ok ())
  | .nonterminal name =>
    some ({ g with symbols := (intern g.symbols .nonterminal name).2 }, .ok ())
  | .addRule target clause settings =>
    let (g, result) := addRule g target clause settings
    some (g, result.map fun _ => ())
  | .oneOf _ | .optional _ | .oneOrMore _ | .zeroOrMore _ | .listOf _ _ _ =>
    (define fuel g (label g op) op.adds).map withoutSymbol
  | .declareLevel level symbols => some (g.declareLevel level symbols, .ok ())
  | .acceptRule id => some (acceptRule g id)
  | .inheritLevels => some (g.inheritLevels, .ok ())
  | .fragment s keep =>
    (fragment fuel g s).map fun
      | (g, .error e) => (g, .error e)
      | (g, .ok f) => (if keep then g.resolve f else g, .ok ())

/-- The grammar after a list of calls, of which any may be refused. -/
def run (fuel : Nat) (g : Grammar) (ops : List Operation) : Option Grammar :=
  ops.foldlM (fun g op => (perform fuel g op).map Prod.fst) g

end Narrow

namespace Grammar

/-- There are words for the numbers of the symbols and of the rules. -/
structure HasRoom (g : Grammar) : Prop where
  symbols : g.symbols.HasRoom
  rules_le : g.rules.length ≤ wordRange

end Grammar

namespace Narrow

open Grammar (Operation withoutSymbol HasRoom)

variable {g : Grammar} {t : SymbolTable} {kind : SymbolKind} {name : String} {s target : SymbolId}
  {clause : List SymbolId} {settings : List RuleSetting} {id : RuleId} {fuel : Nat}

/-! ## What is cut if there is room -/

lemma word_eq {n : Nat} (h : n < wordRange) : word n = n := Nat.mod_eq_of_lt h

lemma intern_eq (hnext : (t.intern kind name).2.size ≤ wordRange) :
    intern t kind name = t.intern kind name := by
  rw [intern, SymbolTable.intern]
  cases hfind : t.find? kind name with
  | some s => rfl
  | none =>
    have hlt := SymbolTable.size_lt_of_intern hnext (SymbolTable.find?_eq_none_iff.mp hfind)
    simp only [word_eq hlt, put, if_neg (Nat.lt_irrefl t.size)]

/-- The search for a fresh name ends also when there is no word left for the symbol. -/
lemma internFresh_eq (h : t.entries.Nodup) (hroom : t.HasRoom) (hfuel : t.size < fuel)
    (base : String) :
    internFresh t fuel base = some (intern t .nonterminal (t.freshName base)) := by
  rw [internFresh, SymbolTable.searchName_toMap h hroom base hfuel, Option.map_some]

/-- The settings of the last rule change that rule. -/
lemma foldl_modify (rules : List Rule) (r : Rule) (settings : List RuleSetting) :
    settings.foldl (fun l setting => l.modify rules.length (·.configure setting)) (rules ++ [r]) =
      rules ++ [settings.foldl Rule.configure r] := by
  induction settings generalizing r with
  | nil => rfl
  | cons setting settings ih =>
    have hlast : (rules ++ [r]).modify rules.length (·.configure setting) =
        rules ++ [r.configure setting] := by
      simp [List.modify_eq_take_cons_drop]
    rw [List.foldl_cons, hlast, ih, List.foldl_cons]

lemma addRule_of_error {e : GrammarError} (h : g.addRule target clause settings = .error e) :
    addRule g target clause settings = (g, .error e) := by
  rw [Grammar.addRule] at h
  rw [addRule]
  by_cases htarget : g.symbols.isNonterminal target
  · rw [if_pos htarget] at h ⊢
    cases hunknown : clause.find? fun s => !g.symbols.contains s with
    | some s =>
      rw [hunknown] at h
      cases h
      rfl
    | none =>
      rw [hunknown] at h
      cases h
  · rw [if_neg htarget] at h ⊢
    cases h
    rfl

lemma addRule_of_ok {g' : Grammar} (h : g.addRule target clause settings = .ok (id, g'))
    (hlt : g.rules.length < wordRange) :
    addRule g target clause settings = (g', .ok id) := by
  rw [Grammar.addRule] at h
  rw [addRule]
  by_cases htarget : g.symbols.isNonterminal target
  · rw [if_pos htarget] at h ⊢
    cases hunknown : clause.find? fun s => !g.symbols.contains s with
    | some s =>
      rw [hunknown] at h
      cases h
    | none =>
      rw [hunknown] at h
      cases h
      simp only [word_eq hlt, foldl_modify]
  · rw [if_neg htarget] at h
    cases h

lemma length_of_addRule {g' : Grammar} (h : g.addRule target clause settings = .ok (id, g')) :
    g'.rules.length = g.rules.length + 1 := by
  rw [Grammar.addRule] at h
  split at h
  · split at h
    · cases h
    · cases h
      rw [List.length_append, List.length_singleton]
  · cases h

lemma length_le_addAlternatives (g : Grammar) (target : SymbolId) (l : List Alternative) :
    g.rules.length ≤ (g.addAlternatives target l).1.rules.length := by
  induction l generalizing g with
  | nil => exact Nat.le_refl _
  | cons a l ih =>
    rw [Grammar.addAlternatives]
    split
    · exact Nat.le_refl _
    · next g' hadd =>
      have hlength := length_of_addRule hadd
      have hrest := ih g'
      omega

lemma addAlternatives_eq (l : List Alternative)
    (hnext : (g.addAlternatives target l).1.rules.length ≤ wordRange) :
    addAlternatives g target l = g.addAlternatives target l := by
  induction l generalizing g with
  | nil => rfl
  | cons a l ih =>
    rw [Grammar.addAlternatives] at hnext ⊢
    rw [addAlternatives]
    cases hadd : g.addRule target a.clause a.settings with
    | error e => rw [addRule_of_error hadd]
    | ok added =>
      obtain ⟨id, g'⟩ := added
      rw [hadd] at hnext
      have hlength := length_of_addRule hadd
      have hrest := length_le_addAlternatives g' target l
      dsimp only at hnext
      rw [addRule_of_ok hadd (by omega)]
      exact ih hnext

lemma define_eq (h : g.symbols.entries.Nodup) (hroom : g.HasRoom) (hfuel : g.symbols.size < fuel)
    {alternatives : SymbolId → List Alternative} (hnext : (g.define name alternatives).1.HasRoom) :
    define fuel g name alternatives = some (g.define name alternatives) := by
  have hsize : (g.symbols.internFresh name).2.size ≤ wordRange := by
    have hle := hnext.symbols.size_le
    rw [Grammar.symbols_define] at hle
    exact hle
  rw [define, internFresh_eq h hroom.symbols hfuel, intern_eq hsize, Option.map_some]
  refine congrArg some ?_
  have hlength := hnext.rules_le
  rw [Grammar.define] at hlength ⊢
  dsimp only [Grammar.freshNonterminal, SymbolTable.internFresh] at hlength ⊢
  rw [addAlternatives_eq _ hlength]

lemma shorthand_eq (h : g.symbols.entries.Nodup) (hroom : g.HasRoom)
    (hfuel : g.symbols.size < fuel) {alternatives : SymbolId → List Alternative}
    (hnext : (withoutSymbol (g.define name alternatives)).1.HasRoom) :
    (define fuel g name alternatives).map withoutSymbol =
      some (withoutSymbol (g.define name alternatives)) := by
  rw [define_eq h hroom hfuel hnext, Option.map_some]

lemma renumber_eq {rules : List Rule} (h : rules.length ≤ wordRange) :
    renumber rules = Grammar.renumber rules := by
  refine List.ext_getElem (by simp [renumber, Grammar.renumber]) fun i hi _ => ?_
  have hlt : i < rules.length := by simpa [renumber] using hi
  simp [renumber, Grammar.renumber, word_eq (Nat.lt_of_lt_of_le hlt h)]

lemma length_cons_eraseIdx {top : Rule} (htop : g.rule? id = some top) :
    (top :: g.rules.eraseIdx id).length = g.rules.length := by
  have hlt : id < g.rules.length := (List.getElem?_eq_some_iff.mp htop).1
  rw [List.length_cons, List.length_eraseIdx_of_lt hlt, Nat.sub_add_cancel (Nat.zero_lt_of_lt hlt)]

/-- The numbers of a valid grammar are the positions. -/
lemma renumber_rules (hg : g.Valid) : Grammar.renumber g.rules = g.rules := by
  refine List.ext_getElem (by simp [Grammar.renumber]) fun i hi hi' => ?_
  have hself : ∀ r : Rule, r.id = i → { r with id := i } = r := by
    rintro r rfl
    rfl
  simp only [Grammar.renumber, List.getElem_mapIdx]
  exact hself _ (hg.rule_id (List.getElem?_eq_getElem hi'))

/-- A rule that is in front already stays there. -/
lemma acceptRule_eq (hg : g.Valid) (hlength : g.rules.length ≤ wordRange) (id : RuleId) :
    acceptRule g id = g.attempt (g.acceptRule id) := by
  rw [acceptRule, Grammar.acceptRule]
  cases htop : g.rule? id with
  | none => rfl
  | some top =>
    dsimp only
    split
    · rw [Grammar.attempt]
      split
      · next hzero =>
        have hfront : top :: g.rules.eraseIdx id = g.rules := by
          obtain ⟨hlt, rfl⟩ := List.getElem?_eq_some_iff.mp htop
          subst hzero
          rw [List.eraseIdx_zero, List.getElem_zero, List.cons_head_tail]
        rw [hfront, renumber_rules hg]
      · rw [renumber_eq ((length_cons_eraseIdx htop).trans_le hlength)]
    · rfl

lemma extract_eq (h : g.symbols.entries.Nodup) (hroom : g.symbols.HasRoom)
    (hfuel : g.symbols.size < fuel) (s : SymbolId) :
    ∃ h, extract fuel g s = some h ∧ ((g.extract s).HasRoom → h = g.extract s) := by
  rw [extract, internFresh_eq h hroom hfuel, Option.map_some]
  refine ⟨_, rfl, fun hnext => ?_⟩
  have hlength : ∀ r : Rule, (r :: g.rulesBelow s).length ≤ wordRange := fun r => by
    simpa [Grammar.extract, Grammar.renumber] using hnext.rules_le
  dsimp only
  rw [intern_eq hnext.symbols.size_le, renumber_eq (hlength _)]
  rfl

/-! ## Calls and runs with room -/

lemma perform_addRule_eq (hnext : (g.perform (.addRule target clause settings)).1.HasRoom) :
    perform fuel g (.addRule target clause settings) =
      some (g.perform (.addRule target clause settings)) := by
  rw [Grammar.perform] at hnext ⊢
  rw [perform]
  cases hadd : g.addRule target clause settings with
  | error e =>
    rw [addRule_of_error hadd]
    rfl
  | ok added =>
    obtain ⟨id, g'⟩ := added
    rw [hadd] at hnext
    have hlength := length_of_addRule hadd
    have hle : g'.rules.length ≤ wordRange := hnext.rules_le
    rw [addRule_of_ok hadd (by omega)]
    rfl

lemma perform_fragment_eq (hg : g.Valid) (h : g.symbols.entries.Nodup) (hroom : g.HasRoom)
    (hfuel : g.symbols.size < fuel) {keep : Bool}
    (hnext : (g.perform (.fragment s keep)).1.HasRoom) :
    perform fuel g (.fragment s keep) = some (g.perform (.fragment s keep)) := by
  have hlength : g.inheritLevels.rules.length ≤ wordRange := by
    simpa [Grammar.inheritLevels] using hroom.rules_le
  rw [Grammar.perform, Grammar.fragment] at hnext ⊢
  rw [perform, fragment]
  rcases hrules : g.inheritLevels.rulesOf s with _ | ⟨rule, _ | ⟨rule', rest⟩⟩
  · rfl
  · dsimp only
    rw [acceptRule_eq hg.inheritLevels hlength]
    cases g.inheritLevels.acceptRule rule.id with
    | error e => rfl
    | ok g' => cases keep <;> rfl
  · -- the fragment is taken also when it is not kept
    obtain ⟨part, hpart, heq⟩ := extract_eq (g := g.inheritLevels) h hroom.symbols hfuel s
    simp only [hrules] at hnext
    dsimp only
    rw [hpart]
    cases keep with
    | false => rfl
    | true =>
      rw [heq hnext]
      rfl

/-- As long as there is room, a call does what it does with numbers of any size. -/
lemma perform_eq (hg : g.Valid) (h : g.symbols.entries.Nodup) (hroom : g.HasRoom)
    (hfuel : g.symbols.size < fuel) {op : Operation} (hnext : (g.perform op).1.HasRoom) :
    perform fuel g op = some (g.perform op) := by
  cases op with
  | rename | declareLevel | inheritLevels => rfl
  | terminal name | nonterminal name =>
    rw [perform, intern_eq hnext.symbols.size_le]
    rfl
  | addRule target clause settings => exact perform_addRule_eq hnext
  | oneOf | optional | oneOrMore | zeroOrMore | listOf =>
    rw [Grammar.perform] at hnext ⊢
    exact shorthand_eq h hroom hfuel hnext
  | acceptRule id =>
    rw [perform, acceptRule_eq hg hroom.rules_le]
    rfl
  | fragment s keep => exact perform_fragment_eq hg h hroom hfuel hnext

/-- The run goes with the one on numbers of any size, as long as there is room behind every call. -/
lemma run_eq (hg : g.Valid) (h : g.symbols.entries.Nodup) (hfuel : wordRange < fuel)
    (ops : List Operation) (hroom : ∀ done, done <+: ops → (g.run done).HasRoom) :
    run fuel g ops = some (g.run ops) := by
  induction ops generalizing g with
  | nil => rfl
  | cons op ops ih =>
    have hstart : g.HasRoom := hroom [] List.nil_prefix
    have hnext : (g.perform op).1.HasRoom := hroom [op] (List.prefix_append [op] ops)
    have hsize : g.symbols.size < fuel := Nat.lt_of_le_of_lt hstart.symbols.size_le hfuel
    rw [run, List.foldlM_cons, perform_eq hg h hstart hsize hnext]
    exact ih (hg.perform op) (Grammar.nodup_perform h op) fun done hdone =>
      hroom (op :: done) ((List.prefix_cons_inj op).mpr hdone)

end Narrow

namespace Grammar

variable {g : Grammar} {id : RuleId}

/-- What it means to accept a rule: this is possible if no other rule defines its target, it brings
the rule to the front, and refused it changes nothing. -/
structure Accepts (g : Grammar) (id : RuleId) : Prop where
  ok_iff : (Narrow.acceptRule g id).2 = .ok () ↔ ∃ top, g.rules[id]? = some top ∧
    ∀ (i : Nat) (r : Rule), g.rules[i]? = some r → r.target = top.target → i = id
  moved : (Narrow.acceptRule g id).2 = .ok () → MovedToFront g (Narrow.acceptRule g id).1 id
  refused : ∀ e, (Narrow.acceptRule g id).2 = .error e → (Narrow.acceptRule g id).1 = g

lemma attempt_eq_ok_iff {result : Except GrammarError Grammar} :
    (g.attempt result).2 = .ok () ↔ ∃ g', result = .ok g' := by
  cases result <;> simp [attempt]

lemma Valid.accepts (hg : g.Valid) (hlength : g.rules.length ≤ wordRange) (id : RuleId) :
    g.Accepts id := by
  have heq := Narrow.acceptRule_eq hg hlength id
  refine ⟨?_, fun h => ?_, fun e h => ?_⟩
  · rw [heq]
    exact attempt_eq_ok_iff.trans exists_acceptRule_iff
  · rw [heq] at h ⊢
    obtain ⟨g', haccept⟩ := attempt_eq_ok_iff.mp h
    rw [haccept]
    exact movedToFront_of_acceptRule haccept
  · rw [heq] at h ⊢
    exact fst_attempt_of_error h

/-- Whatever calls make a grammar, and whatever of them is refused, it is valid, as long as there is
room for its numbers: the rule at a position has it as its number, defines a non-terminal, and has a
clause of known symbols that is not empty; there is an accepted symbol once there is a rule, and the
first rule defines it. No symbol is there twice, and the declared levels are in order. Accepting a
rule succeeds if the rule exists and alone defines its target; it brings the rule to the front,
leaves the order and the fields of the rules as they were, and changes nothing when it fails. -/
theorem run_valid (name : Option String) (ops : List Operation)
    (hroom : ∀ done, done <+: ops → ((empty name).run done).HasRoom) :
    ∃ g, (∀ fuel, wordRange < fuel → Narrow.run fuel (empty name) ops = some g) ∧
      g = (empty name).run ops ∧ g.Valid ∧ g.symbols.entries.Nodup ∧ LevelsAscend g.levels ∧
      (g.target = none ↔ g.rules = []) ∧
      (∀ r, g.rules[0]? = some r → g.target = some r.target) ∧
      ∀ id, g.Accepts id := by
  have hempty : (empty name).symbols.entries.Nodup := SymbolTable.nodup_initial
  have hlevels : LevelsAscend (empty name).levels := List.Pairwise.nil
  have hg := (Valid.empty name).run ops
  have hlength := (hroom ops List.prefix_rfl).rules_le
  refine ⟨_, fun fuel hfuel => Narrow.run_eq (Valid.empty name) hempty hfuel ops hroom, rfl, hg,
    nodup_run hempty ops, hlevels.run ops, hg.target_eq_none_iff,
    fun r hr => ?_, hg.accepts hlength⟩
  rw [hg.accepts_first, List.head?_eq_getElem?, hr, Option.map_some]

/-- Few symbols and rules have room for their numbers. -/
lemma hasRoom_of_size (hsymbols : g.symbols.size + 1 < 2 ^ 31) (hrules : g.rules.length < 2 ^ 31) :
    g.HasRoom where
  symbols := SymbolTable.hasRoom_of_size hsymbols
  rules_le := by
    rw [wordRange]
    omega

/-- A rule for a terminal is refused, a choice between a known and an unknown symbol is refused
after its first rule, there is no rule 7 to accept, and rule 1 moves to the front. -/
theorem run_valid_refused :
    let ops : List Operation := [.nonterminal "S", .terminal "a", .addRule 3 [] [], .oneOf [3, 9],
      .addRule 2 [4] [], .acceptRule 7, .acceptRule 1]
    (∀ done, done <+: ops → ((empty none).run done).HasRoom) ∧
      ∃ g, (∀ fuel, wordRange < fuel → Narrow.run fuel (empty none) ops = some g) ∧ g.Valid ∧
        g.rules.map (fun r => (r.id, r.target, r.clause)) = [(0, 2, [4]), (1, 4, [3])] ∧
        g.target = some 2 := by
  intro ops
  have hsmall : ∀ done ∈ ops.inits, ((empty none).run done).symbols.size ≤ 5 ∧
      ((empty none).run done).rules.length ≤ 2 := by
    decide +kernel
  have hroom : ∀ done, done <+: ops → ((empty none).run done).HasRoom := fun done hdone => by
    obtain ⟨hsymbols, hrules⟩ := hsmall done ((List.mem_inits done ops).mpr hdone)
    exact hasRoom_of_size (by omega) (by omega)
  obtain ⟨g, hrun, rfl, hg, -⟩ := run_valid none ops hroom
  exact ⟨hroom, _, hrun, hg, rfl, rfl⟩

end Grammar

end ShiftReduce
