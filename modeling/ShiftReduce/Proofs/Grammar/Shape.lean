import ShiftReduce.Automaton.Basic
import ShiftReduce.Grammar.Level
import Mathlib.Data.List.Basic
/-!
# The shape of a grammar

The numbers, the targets and the clauses of the rules make up the shape of a grammar. The symbols
that can be reached, the productions and the automaton depend on it alone, and not on the levels,
the arbitrations, the names or the callbacks of the rules.
-/

namespace ShiftReduce

/-- The change leaves the number, the target and the clause of every rule alone. -/
structure Rule.KeepsShape (f : Rule → Rule) : Prop where
  id : ∀ r, (f r).id = r.id
  target : ∀ r, (f r).target = r.target
  clause : ∀ r, (f r).clause = r.clause

namespace Rule.KeepsShape

variable {f : Rule → Rule}

lemma symbols (hf : Rule.KeepsShape f) (r : Rule) : (f r).symbols = r.symbols := by
  rw [Rule.symbols, Rule.symbols, Rule.isEmpty, Rule.isEmpty, hf.clause]

lemma arity (hf : Rule.KeepsShape f) (r : Rule) : (f r).arity = r.arity := by
  rw [Rule.arity, Rule.arity, hf.symbols]

end Rule.KeepsShape

namespace Grammar

/-- The grammar with its rules changed. -/
def mapRules (g : Grammar) (f : Rule → Rule) : Grammar := { g with rules := g.rules.map f }

variable {g : Grammar} {f : Rule → Rule}

lemma rule?_mapRules (g : Grammar) (f : Rule → Rule) (id : RuleId) :
    (g.mapRules f).rule? id = (g.rule? id).map f := List.getElem?_map

/-- A search is led by what the symbols mention. -/
lemma explore_congr {g' : Grammar} (h : g'.mentions = g.mentions) (fuel : Nat)
    (stack : List Visit) (seen : List SymbolId) :
    g'.explore fuel stack seen = g.explore fuel stack seen := by
  induction fuel generalizing stack seen with
  | zero => rw [explore, explore]
  | succ fuel ih =>
    cases stack with
    | nil => rw [explore, explore] <;> simp
    | cons v stack =>
      rw [explore, explore, h]
      simp only [ih]

section Shape

variable (hf : Rule.KeepsShape f)

include hf

lemma rulesOf_mapRules (g : Grammar) (s : SymbolId) :
    (g.mapRules f).rulesOf s = (g.rulesOf s).map f := by
  have htarget : (fun r : Rule => r.target == s) ∘ f = fun r => r.target == s :=
    funext fun r => by rw [Function.comp_apply, hf.target]
  rw [rulesOf, mapRules, List.filter_map, htarget]
  rfl

lemma targets_mapRules (g : Grammar) : (g.mapRules f).targets = g.targets := by
  have htarget : Rule.target ∘ f = Rule.target := funext hf.target
  rw [targets, mapRules, List.map_map, htarget]
  rfl

lemma clauses_mapRules (g : Grammar) :
    (g.mapRules f).rules.flatMap Rule.clause = g.rules.flatMap Rule.clause := by
  rw [mapRules, List.flatMap_map]
  exact congrArg (g.rules.flatMap ·) (funext hf.clause)

lemma production_mapRules (g : Grammar) (r : Rule) :
    (g.mapRules f).production (f r) = g.production r := by
  rw [production, production, hf.target, hf.symbols, hf.id]
  rfl

lemma productions_mapRules (g : Grammar) (target : SymbolId) :
    (g.mapRules f).productions target = g.productions target := by
  have hblock : ∀ s, ((g.mapRules f).rulesOf s).map (g.mapRules f).production =
      (g.rulesOf s).map g.production := by
    intro s
    rw [rulesOf_mapRules hf, List.map_map]
    exact List.map_congr_left fun r _ => production_mapRules hf g r
  simp only [productions, targets_mapRules hf, hblock]
  rfl

lemma ruleText_mapRules (g : Grammar) (r : Rule) :
    (g.mapRules f).ruleText (f r) = g.ruleText r := by
  rw [ruleText, ruleText, Rule.text, Rule.text, hf.target, hf.clause]
  rfl

lemma mentions_mapRules (g : Grammar) (s : SymbolId) :
    (g.mapRules f).mentions s = g.mentions s := by
  rw [mentions, rulesOf_mapRules hf, List.flatMap_map, mentions]
  refine congrArg (g.rulesOf s).flatMap (funext fun r => ?_)
  rw [hf.clause, hf.id]
  rfl

lemma reach_mapRules (g : Grammar) (s : SymbolId) : (g.mapRules f).reach s = g.reach s := by
  rw [reach, reach, explore_congr (funext (mentions_mapRules hf g)), clauses_mapRules hf]

lemma undefinedAt_mapRules (g : Grammar) (v : Visit) :
    (g.mapRules f).undefinedAt v = g.undefinedAt v := by
  have htext : (v.via.bind (g.mapRules f).rule?).map (g.mapRules f).ruleText =
      (v.via.bind g.rule?).map g.ruleText := by
    cases v.via with
    | none => rfl
    | some id =>
      rw [Option.bind_some, Option.bind_some, rule?_mapRules, Option.map_map]
      exact congrArg (fun text => (g.rule? id).map text) (funext (ruleText_mapRules hf g))
  rw [undefinedAt, htext]
  rfl

lemma validate_mapRules (g : Grammar) : (g.mapRules f).validate = g.validate := by
  have hdefined : ∀ s, ((g.mapRules f).rulesOf s).isEmpty = (g.rulesOf s).isEmpty := by
    intro s
    rw [rulesOf_mapRules hf, List.isEmpty_map]
  simp only [validate, reach_mapRules hf, hdefined, undefinedAt_mapRules hf]
  rfl

lemma automaton_mapRules (g : Grammar) : (g.mapRules f).automaton = g.automaton := by
  simp only [automaton, validate_mapRules hf, productions_mapRules hf]
  rfl

end Shape

/-! ## Inherited levels -/

/-- The rule with the level it inherits. -/
def inherited (g : Grammar) (r : Rule) : Rule :=
  { r with inheritedLevel := (g.ownLevel r).or (g.passedLevel r) }

lemma keepsShape_inherited (g : Grammar) : Rule.KeepsShape g.inherited :=
  ⟨fun _ => rfl, fun _ => rfl, fun _ => rfl⟩

end Grammar

end ShiftReduce
