import ShiftReduce.Proofs.Grammar.FragmentLevel
/-!
# The levels that rules inherit

The level in force for a rule is its explicit level; else the level of the last terminal of its
clause that has a declared one; else what the last of the rules finds in its own clause whose target
the clause mentions and whose clause has such a terminal; else 0. So a level is passed on from a
rule only if it was declared for a terminal of this very rule. What the rules had for levels before,
given explicitly or inherited, plays no part in what they inherit.

Main statement: `Grammar.Valid.inheritLevels_exact`.
-/

namespace ShiftReduce

namespace Grammar

variable {g : Grammar} {r other : Rule} {level : Nat} {f : Rule → Rule}

/-! ## Declared levels in a clause -/

/-- Some terminal of the clause has a declared level, and this is the level of the last of them. -/
def LastDeclared (g : Grammar) (clause : List SymbolId) (level : Nat) : Prop :=
  ∃ before s after, clause = before ++ s :: after ∧
    (g.symbols.isTerminal s = true ∧ g.level? s = some level) ∧
    ∀ t ∈ after, g.symbols.isTerminal t = true → g.level? t = none

/-- No terminal of the clause has a declared level. -/
def Undeclared (g : Grammar) (clause : List SymbolId) : Prop :=
  ∀ t ∈ clause, g.symbols.isTerminal t = true → g.level? t = none

lemma findSome?_reverse_eq_some_iff {α β : Type} {f : α → Option β} {l : List α} {b : β} :
    l.reverse.findSome? f = some b ↔
      ∃ before a after, l = before ++ a :: after ∧ f a = some b ∧ ∀ x ∈ after, f x = none := by
  rw [List.findSome?_eq_some_iff]
  constructor
  · rintro ⟨after, a, before, hl, ha, hafter⟩
    refine ⟨before.reverse, a, after.reverse, ?_, ha, fun x hx => hafter x (List.mem_reverse.mp hx)⟩
    rw [← List.reverse_reverse l, hl]
    simp
  · rintro ⟨before, a, after, rfl, ha, hafter⟩
    exact ⟨after.reverse, a, before.reverse, by simp, ha, fun x hx =>
      hafter x (List.mem_reverse.mp hx)⟩

lemma ownLevel_eq_some_iff : g.ownLevel r = some level ↔ g.LastDeclared r.clause level := by
  rw [ownLevel, findSome?_reverse_eq_some_iff]
  simp only [LastDeclared, Option.ite_none_right_eq_some, ite_eq_right_iff]

lemma ownLevel_eq_none_iff : g.ownLevel r = none ↔ g.Undeclared r.clause := by
  rw [ownLevel, List.findSome?_eq_none_iff]
  simp only [List.mem_reverse, Undeclared, ite_eq_right_iff]

/-! ## Levels passed by other rules -/

lemma passedBy_eq_some_iff : g.passedBy other r = some level ↔
    other.target ∈ r.clause ∧ g.LastDeclared other.clause level := by
  rw [passedBy, Option.ite_none_right_eq_some, List.contains_iff_mem, ownLevel_eq_some_iff]

lemma passedBy_eq_none_iff : g.passedBy other r = none ↔
    (other.target ∈ r.clause → g.Undeclared other.clause) := by
  rw [passedBy, ite_eq_right_iff, List.contains_iff_mem, ownLevel_eq_none_iff]

/-- The rules behind a rule are those of higher numbers. -/
lemma Valid.mem_behind_iff (hg : g.Valid) {before behind : List Rule} {r' : Rule}
    (hrules : g.rules = before ++ r :: behind) :
    r' ∈ behind ↔ r' ∈ g.rules ∧ r.id < r'.id := by
  have hid : r.id = before.length := hg.rule_id (by rw [hrules]; simp)
  constructor
  · intro hr'
    obtain ⟨j, hj⟩ := List.mem_iff_getElem?.mp hr'
    have hget : g.rules[before.length + (j + 1)]? = some r' := by
      rw [hrules, List.getElem?_append_right (Nat.le_add_right _ _), Nat.add_sub_cancel_left]
      exact hj
    refine ⟨List.mem_of_getElem? hget, ?_⟩
    rw [hid, hg.rule_id hget]
    exact Nat.lt_add_of_pos_right (Nat.succ_pos j)
  · rintro ⟨hr', hlt⟩
    obtain ⟨i, hi⟩ := List.mem_iff_getElem?.mp hr'
    rw [hid, hg.rule_id hi] at hlt
    obtain ⟨j, rfl⟩ := Nat.exists_eq_add_of_lt hlt
    rw [hrules, Nat.add_assoc, List.getElem?_append_right (Nat.le_add_right _ _),
      Nat.add_sub_cancel_left] at hi
    exact List.mem_of_getElem? (i := j) hi

/-- The level comes from the rule of the highest number that passes one. -/
lemma Valid.passedLevel_eq_some_iff (hg : g.Valid) : g.passedLevel r = some level ↔
    ∃ other ∈ g.rules, (other.target ∈ r.clause ∧ g.LastDeclared other.clause level) ∧
      ∀ other' ∈ g.rules, other.id < other'.id → other'.target ∈ r.clause →
        g.Undeclared other'.clause := by
  have hfind : g.passedLevel r = some level ↔ ∃ before other behind,
      g.rules = before ++ other :: behind ∧ g.passedBy other r = some level ∧
        ∀ other' ∈ behind, g.passedBy other' r = none :=
    findSome?_reverse_eq_some_iff (f := fun other => g.passedBy other r)
  rw [hfind]
  simp only [passedBy_eq_some_iff, passedBy_eq_none_iff]
  constructor
  · rintro ⟨before, other, behind, hrules, hpassed, hbehind⟩
    refine ⟨other, by rw [hrules]; simp, hpassed, fun other' hother' hlt => ?_⟩
    exact hbehind other' ((hg.mem_behind_iff hrules).mpr ⟨hother', hlt⟩)
  · rintro ⟨other, hother, hpassed, hbehind⟩
    obtain ⟨before, behind, hrules⟩ := List.append_of_mem hother
    refine ⟨before, other, behind, hrules, hpassed, fun other' hother' => ?_⟩
    obtain ⟨hmem, hlt⟩ := (hg.mem_behind_iff hrules).mp hother'
    exact hbehind other' hmem hlt

lemma passedLevel_eq_none_iff : g.passedLevel r = none ↔
    ∀ other ∈ g.rules, other.target ∈ r.clause → g.Undeclared other.clause := by
  have hfind : g.passedLevel r = none ↔ ∀ other ∈ g.rules.reverse, g.passedBy other r = none :=
    List.findSome?_eq_none_iff
  simp only [hfind, List.mem_reverse, passedBy_eq_none_iff]

/-! ## The levels passed, written rule by rule -/

/-- The levels passed to the rules so far, after one more rule has written its own level, if it has
one, over those of the rules that mention its target. -/
def overwrite (g : Grammar) (passed : List (Option Nat)) (other : Rule) : List (Option Nat) :=
  match g.ownLevel other with
  | none => passed
  | some level => List.zipWith
    (fun r old => if r.clause.contains other.target then some level else old) g.rules passed

lemma overwrite_map (g : Grammar) (known : Rule → Option Nat) (other : Rule) :
    g.overwrite (g.rules.map known) other =
      g.rules.map fun r => (g.passedBy other r).or (known r) := by
  rw [overwrite]
  cases hown : g.ownLevel other with
  | none =>
    refine List.map_congr_left fun r _ => ?_
    rw [passedBy, hown, ite_self, Option.none_or]
  | some level =>
    dsimp only
    rw [List.zipWith_map_right, List.zipWith_self]
    refine List.map_congr_left fun r _ => ?_
    rw [passedBy, hown]
    split <;> rfl

/-- Of all that is written the last stays. -/
lemma foldl_overwrite (g : Grammar) (l : List Rule) (known : Rule → Option Nat) :
    l.foldl g.overwrite (g.rules.map known) =
      g.rules.map fun r => (l.reverse.findSome? fun other => g.passedBy other r).or (known r) := by
  induction l generalizing known with
  | nil => simp
  | cons other l ih =>
    rw [List.foldl_cons, overwrite_map, ih]
    refine List.map_congr_left fun r _ => ?_
    rw [List.reverse_cons, List.findSome?_append, List.findSome?_singleton, Option.or_assoc]

lemma foldl_overwrite_none (g : Grammar) :
    g.rules.foldl g.overwrite (List.replicate g.rules.length none) =
      g.rules.map g.passedLevel := by
  rw [← List.map_const', foldl_overwrite]
  refine List.map_congr_left fun r _ => ?_
  exact Option.or_none

/-! ## What plays no part -/

lemma passedLevel_mapRules (hf : Rule.KeepsShape f) (g : Grammar) (r : Rule) :
    (g.mapRules f).passedLevel (f r) = g.passedLevel r := by
  rw [passedLevel, mapRules, ← List.map_reverse, List.findSome?_map]
  refine findSome?_congr fun other _ => ?_
  rw [Function.comp_apply, hf.target, hf.clause, ownLevel, hf.clause]
  rfl

/-- Rules inherit by their clauses and targets. -/
lemma inheritedLevel_mapRules (hf : Rule.KeepsShape f) (g : Grammar) (r : Rule) :
    ((g.mapRules f).inherited (f r)).inheritedLevel = (g.inherited r).inheritedLevel := by
  rw [inherited, inherited, passedLevel_mapRules hf, ownLevel, hf.clause]
  rfl

lemma inheritLevels_forgets (g : Grammar) (old : Rule → Option Nat) :
    (g.mapRules fun r => { r with inheritedLevel := old r }).inheritLevels = g.inheritLevels := by
  have hf : Rule.KeepsShape fun r => { r with inheritedLevel := old r } :=
    ⟨fun _ => rfl, fun _ => rfl, fun _ => rfl⟩
  have hrules : (g.mapRules fun r => { r with inheritedLevel := old r }).inheritLevels.rules =
      g.inheritLevels.rules := by
    rw [inheritLevels, inheritLevels, mapRules, List.map_map]
    refine List.map_congr_left fun r _ => ?_
    exact congrArg (fun level => { r with inheritedLevel := level })
      (inheritedLevel_mapRules hf g r)
  exact congrArg (fun rules => { g with rules }) hrules

/-! ## The level in force -/

/-- The level that a rule has by what is declared, in the order of rank: explicitly, by its own
terminals, by those of the last rule that passes a level to it, or not at all. -/
inductive HasLevel (g : Grammar) (r : Rule) : Nat → Prop
  | explicit {level : Nat} : r.explicitLevel = some level → HasLevel g r level
  | own {level : Nat} : r.explicitLevel = none → g.LastDeclared r.clause level →
      HasLevel g r level
  | passed {level : Nat} {other : Rule} : r.explicitLevel = none → g.Undeclared r.clause →
      other ∈ g.rules → other.target ∈ r.clause → g.LastDeclared other.clause level →
      (∀ other' ∈ g.rules, other.id < other'.id → other'.target ∈ r.clause →
        g.Undeclared other'.clause) → HasLevel g r level
  | nothing : r.explicitLevel = none → g.Undeclared r.clause →
      (∀ other ∈ g.rules, other.target ∈ r.clause → g.Undeclared other.clause) → HasLevel g r 0

lemma level_inherited (g : Grammar) (r : Rule) : (g.inherited r).level =
    (r.explicitLevel.or ((g.ownLevel r).or (g.passedLevel r))).getD 0 := rfl

lemma Valid.level_inherited_iff (hg : g.Valid) :
    (g.inherited r).level = level ↔ g.HasLevel r level := by
  rw [level_inherited]
  constructor
  · rintro rfl
    cases hexplicit : r.explicitLevel with
    | some level => exact .explicit hexplicit
    | none =>
      cases hown : g.ownLevel r with
      | some level => exact .own hexplicit (ownLevel_eq_some_iff.mp hown)
      | none =>
        have hundeclared := ownLevel_eq_none_iff.mp hown
        cases hpassed : g.passedLevel r with
        | none => exact .nothing hexplicit hundeclared (passedLevel_eq_none_iff.mp hpassed)
        | some level =>
          obtain ⟨other, hmem, ⟨htarget, hlast⟩, hbehind⟩ := hg.passedLevel_eq_some_iff.mp hpassed
          exact .passed hexplicit hundeclared hmem htarget hlast hbehind
  · intro h
    cases h with
    | explicit hexplicit => rw [hexplicit]; rfl
    | own hexplicit hlast => rw [hexplicit, ownLevel_eq_some_iff.mpr hlast]; rfl
    | passed hexplicit hundeclared hmem htarget hlast hbehind =>
      rw [hexplicit, ownLevel_eq_none_iff.mpr hundeclared,
        hg.passedLevel_eq_some_iff.mpr ⟨_, hmem, ⟨htarget, hlast⟩, hbehind⟩]
      rfl
    | nothing hexplicit hundeclared hnone =>
      rw [hexplicit, ownLevel_eq_none_iff.mpr hundeclared, passedLevel_eq_none_iff.mpr hnone]
      rfl

/-- A level other than 0 that is not explicit was declared for a terminal of the rule, or for one of
a rule whose target it mentions: it has come one hop at most. -/
lemma HasLevel.one_hop (h : g.HasLevel r level) (hexplicit : r.explicitLevel = none)
    (hlevel : level ≠ 0) : ∃ t, (g.symbols.isTerminal t = true ∧ g.level? t = some level) ∧
      (t ∈ r.clause ∨ ∃ other ∈ g.rules, other.target ∈ r.clause ∧ t ∈ other.clause) := by
  cases h with
  | explicit hsome => cases hexplicit.symm.trans hsome
  | own _ hlast =>
    obtain ⟨before, t, after, hclause, ht, -⟩ := hlast
    exact ⟨t, ht, .inl (by rw [hclause]; simp)⟩
  | @passed _ other _ _ hmem htarget hlast _ =>
    obtain ⟨before, t, after, hclause, ht, -⟩ := hlast
    exact ⟨t, ht, .inr ⟨other, hmem, htarget, by rw [hclause]; simp⟩⟩
  | nothing => exact absurd rfl hlevel

/-- Recomputing the inherited levels changes nothing else, and the levels then in force are those
that rules have by what is declared. Writing the passed levels rule by rule comes to the same.
Neither explicit levels nor those inherited before have any influence on what is inherited, so that
recomputing once more changes nothing. -/
theorem Valid.inheritLevels_exact (hg : g.Valid) :
    g.inheritLevels = { g with rules := g.inheritLevels.rules } ∧
    g.inheritLevels.rules.length = g.rules.length ∧
    (∀ (i : RuleId) (r : Rule), g.rules[i]? = some r →
      ∃ r' : Rule, g.inheritLevels.rules[i]? = some r' ∧
      r' = { r with inheritedLevel := r'.inheritedLevel } ∧
      (∀ level, r'.level = level ↔ g.HasLevel r level) ∧
      (r.explicitLevel = none → r'.level ≠ 0 →
        ∃ t, (g.symbols.isTerminal t = true ∧ g.level? t = some r'.level) ∧
          (t ∈ r.clause ∨ ∃ other ∈ g.rules, other.target ∈ r.clause ∧ t ∈ other.clause))) ∧
    g.inheritLevels.rules.map Rule.inheritedLevel =
      List.zipWith Option.or (g.rules.map g.ownLevel)
        (g.rules.foldl g.overwrite (List.replicate g.rules.length none)) ∧
    (∀ f, Rule.KeepsShape f → (g.mapRules f).inheritLevels.rules.map Rule.inheritedLevel =
      g.inheritLevels.rules.map Rule.inheritedLevel) ∧
    (∀ old : Rule → Option Nat,
      (g.mapRules fun r => { r with inheritedLevel := old r }).inheritLevels = g.inheritLevels) ∧
    g.inheritLevels.inheritLevels = g.inheritLevels := by
  refine ⟨rfl, List.length_map _, fun i r hr => ?level, ?written, fun f hf => ?shape,
    g.inheritLevels_forgets, ?again⟩
  case level =>
    refine ⟨g.inherited r, ?_, rfl, fun level => hg.level_inherited_iff,
      fun hexplicit hlevel => ?_⟩
    · rw [Grammar.inheritLevels, List.getElem?_map, hr]
      rfl
    · exact (hg.level_inherited_iff.mp rfl).one_hop hexplicit hlevel
  case written =>
    rw [foldl_overwrite_none, List.zipWith_map, List.zipWith_self, Grammar.inheritLevels,
      List.map_map]
    rfl
  case shape =>
    rw [Grammar.inheritLevels, Grammar.inheritLevels, Grammar.mapRules, List.map_map,
      List.map_map, List.map_map]
    exact List.map_congr_left fun r _ => inheritedLevel_mapRules hf g r
  case again => exact g.inheritLevels_forgets fun r => (g.inherited r).inheritedLevel

/-- `S → B`, `B → A y` and `A → x`, with a level for `x`, and `A → x` of a level of its own. -/
def hopping : Grammar where
  name := none
  symbols := ⟨SymbolTable.initial.entries ++
    [⟨.nonterminal, "S"⟩, ⟨.nonterminal, "A"⟩, ⟨.nonterminal, "B"⟩, ⟨.terminal, "x"⟩,
      ⟨.terminal, "y"⟩]⟩
  rules := [.plain 0 2 [4], .plain 1 4 [3, 6], { Rule.plain 2 3 [5] with explicitLevel := some 9 }]
  levels := [(5, 4)]
  target := some 2

/-- The level of `x` comes to the rule of `B`, although the rule it comes from has another, and no
further. -/
theorem inheritLevels_exact_hopping : hopping.Valid ∧
    hopping.inheritLevels.rules.map Rule.level = [0, 4, 9] ∧
    (∀ level, 0 = level ↔ hopping.HasLevel (.plain 0 2 [4]) level) ∧
    (∀ level, 4 = level ↔ hopping.HasLevel (.plain 1 4 [3, 6]) level) ∧
    hopping.inheritLevels.inheritLevels = hopping.inheritLevels := by
  have hvalid : hopping.Valid := ⟨⟨_, rfl⟩, rfl, by decide, by decide, by decide, rfl⟩
  obtain ⟨-, -, hlevels, -, -, -, hagain⟩ := hvalid.inheritLevels_exact
  obtain ⟨r₀, hr₀, -, hlevel₀, -⟩ := hlevels 0 _ rfl
  obtain ⟨r₁, hr₁, -, hlevel₁, -⟩ := hlevels 1 _ rfl
  obtain rfl := Option.some.inj hr₀
  obtain rfl := Option.some.inj hr₁
  exact ⟨hvalid, rfl, hlevel₀, hlevel₁, hagain⟩

end Grammar

end ShiftReduce
