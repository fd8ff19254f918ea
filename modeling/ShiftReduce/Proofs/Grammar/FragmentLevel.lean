import ShiftReduce.Proofs.Grammar.Fragment
/-!
# Levels inherited in a fragment

The levels of a fragment are inherited before it is taken and once more when its parser is built. In
a grammar of its own the rules keep their order, and what passes a level to a rule is taken with the
rule, so the second time changes nothing.

Where the fragment is the grammar itself, the rule of the chosen symbol has moved to the front. Of
all rules that pass a level it is the first now, and the last one wins: a rule that took its level
over from it takes that of the last of the others, if there are any.

Main statement: `Grammar.Valid.inheritLevels_resolve`.
-/

namespace ShiftReduce

namespace Grammar

variable {g h : Grammar} {s : SymbolId} {f : Fragment} {r r' top : Rule} {id : RuleId}

/-! ## The two kinds of fragments -/

lemma acceptRule_eq_ok (hok : g.acceptRule id = .ok h) : ∃ top, g.rule? id = some top ∧
    h = { g with rules := renumber (top :: g.rules.eraseIdx id), target := some top.target } := by
  rw [acceptRule] at hok
  split at hok
  · cases hok
  · next top htop =>
    dsimp only at hok
    split at hok
    · exact ⟨top, htop, (Except.ok.inj hok).symm⟩
    · cases hok

lemma rules_eq_append (htop : g.rule? id = some top) :
    g.rules = g.rules.take id ++ top :: g.rules.drop (id + 1) := by
  obtain ⟨hid, hget⟩ := List.getElem?_eq_some_iff.mp htop
  rw [← hget, List.getElem_cons_drop, List.take_append_drop]

/-- Where a single rule defines a symbol, the other rules are those with other targets. -/
lemma rules_split (hone : g.rulesOf s = [top]) (htop : g.rule? id = some top) :
    g.rules = g.rules.take id ++ top :: g.rules.drop (id + 1) ∧
      (g.rules.filter fun r => r.target != s) = g.rules.take id ++ g.rules.drop (id + 1) := by
  have hsplit := rules_eq_append htop
  have htop' : top ∈ g.rulesOf s := hone ▸ List.mem_singleton_self top
  obtain ⟨-, htarget⟩ := List.mem_filter.mp htop'
  have hother : ¬ (top.target != s) = true := by
    rw [bne, htarget]
    exact Bool.false_ne_true
  rw [rulesOf, hsplit, List.filter_append, List.filter_cons, if_pos htarget] at hone
  -- no rule before this one and none behind it defines the symbol
  have hlength := congrArg List.length hone
  simp only [List.length_append, List.length_cons, List.length_nil] at hlength
  have hbefore : (g.rules.take id).filter (fun r => r.target == s) = [] :=
    List.length_eq_zero_iff.mp (by omega)
  have hbehind : (g.rules.drop (id + 1)).filter (fun r => r.target == s) = [] :=
    List.length_eq_zero_iff.mp (by omega)
  have hothers : ∀ l : List Rule, l.filter (fun r => r.target == s) = [] →
      l.filter (fun r => r.target != s) = l := by
    intro l hl
    refine List.filter_eq_self.mpr fun r hr => ?_
    rw [bne, Bool.not_eq_true', Bool.eq_false_iff]
    exact List.filter_eq_nil_iff.mp hl r hr
  refine ⟨hsplit, ?_⟩
  conv_lhs => rw [hsplit, List.filter_append, List.filter_cons, if_neg hother, hothers _ hbefore,
    hothers _ hbehind]

/-- A fragment that is the grammar itself has the one rule of the symbol in front. -/
lemma Valid.fragment_whole (hg : g.Valid) (hf : (g.fragment s).2 = .ok .whole) :
    ∃ top, g.inheritLevels.rulesOf s = [top] ∧ (g.fragment s).1 =
      { g.inheritLevels with
        rules := renumber (top :: g.inheritLevels.rules.filter fun r => r.target != s)
        target := some top.target } := by
  rw [Grammar.fragment] at hf ⊢
  split at hf
  · cases hf
  · next top hone =>
    simp only [hone] at hf ⊢
    have htop' : top ∈ g.inheritLevels.rulesOf s := hone ▸ List.mem_singleton_self top
    have hmem : top ∈ g.inheritLevels.rules := (mem_rulesOf.mp htop').1
    have htop := hg.inheritLevels.rule?_id hmem
    split at hf
    · next g' haccept =>
      obtain ⟨top', htop', rfl⟩ := acceptRule_eq_ok haccept
      obtain rfl : top' = top := Option.some.inj (htop'.symm.trans htop)
      refine ⟨top', rfl, ?_⟩
      dsimp only
      rw [(rules_split hone htop).2, List.eraseIdx_eq_take_drop_succ]
    · cases hf
  · cases hf

lemma fragment_part {part : Grammar} (hf : (g.fragment s).2 = .ok (.part part)) :
    part = g.inheritLevels.extract s := by
  rw [fragment] at hf
  split at hf
  · cases hf
  · split at hf <;> cases hf
  · cases hf
    rfl

/-! ## Levels passed by the others -/

/-- The own level of the last rule that has one and whose target the clause mentions, among the
rules that do not define the symbol. -/
def passedByOthers (g : Grammar) (s : SymbolId) (r : Rule) : Option Nat :=
  (g.rules.filter fun other => other.target != s).reverse.findSome? fun other =>
    if r.clause.contains other.target then g.ownLevel other else none

/-- What the rule passes on if the clause mentions its target. -/
def passedBy (g : Grammar) (other r : Rule) : Option Nat :=
  if r.clause.contains other.target then g.ownLevel other else none

lemma passedBy_eq_some {other : Rule} {l : Nat} (hl : g.passedBy other r = some l) :
    other.target ∈ r.clause ∧ g.ownLevel other = some l := by
  rw [passedBy] at hl
  split at hl
  · next hmem => exact ⟨List.contains_iff_mem.mp hmem, hl⟩
  · cases hl

/-- With its one rule in front, what the others pass is found before what that rule passes. -/
lemma passedLevel_front (hh : h = { g with
      rules := renumber (top :: g.rules.filter fun r => r.target != s)
      target := some top.target }) (r : Rule) :
    h.passedLevel r = (g.passedByOthers s r).or (g.passedBy top r) := by
  subst hh
  rw [passedLevel]
  refine (findSome?_reverse_renumber (fun _ _ => rfl) _).trans ?_
  rw [List.reverse_cons, List.findSome?_append, List.findSome?_singleton]
  rfl

lemma level_front (hh : h = { g with
      rules := renumber (top :: g.rules.filter fun r => r.target != s)
      target := some top.target }) (r : Rule) :
    (h.inherited r).level = (r.explicitLevel.or ((g.ownLevel r).or
      ((g.passedByOthers s r).or (g.passedBy top r)))).getD 0 := by
  rw [← passedLevel_front hh r]
  subst hh
  rfl

/-- Where it stands, that rule is found after some of the others and before the rest. -/
lemma exists_passedLevel (hone : g.rulesOf s = [top]) (htop : g.rule? id = some top) (r : Rule) :
    ∃ behind before : Option Nat, g.passedLevel r = behind.or ((g.passedBy top r).or before) ∧
      g.passedByOthers s r = behind.or before := by
  obtain ⟨hsplit, hothers⟩ := rules_split hone htop
  rw [passedLevel, passedByOthers, hothers]
  conv in g.rules.reverse => rw [hsplit]
  rw [List.reverse_append, List.reverse_append, List.reverse_cons, List.findSome?_append,
    List.findSome?_append, List.findSome?_append, List.findSome?_singleton]
  exact ⟨_, _, Option.or_assoc, rfl⟩

/-- How the level of a rule may change when the one rule of a symbol comes to the front. It does
only for a rule without levels of its own that took over the level of that rule, and becomes what
the last of the others passes; and what they pass is what such a rule has afterwards. -/
structure Relevelled (g : Grammar) (s : SymbolId) (top r r' : Rule) : Prop where
  no_explicit : r'.level ≠ r.level → r.explicitLevel = none
  no_own : r'.level ≠ r.level → g.ownLevel r = none
  took_over : r'.level ≠ r.level → s ∈ r.clause ∧ g.ownLevel top = some r.level
  takes_over : r'.level ≠ r.level → g.passedByOthers s r = some r'.level
  others_first : r.explicitLevel = none → g.ownLevel r = none →
    ∀ l, g.passedByOthers s r = some l → r'.level = l

/-- A level that changes is one that the rule in front passes where others pass another. -/
lemma relevelled_of_level {r' : Rule} (hone : g.rulesOf s = [top]) (htop : g.rule? id = some top)
    (hr : g.inherited r = r) (hr' : r'.level = (r.explicitLevel.or ((g.ownLevel r).or
      ((g.passedByOthers s r).or (g.passedBy top r)))).getD 0) : g.Relevelled s top r r' := by
  obtain ⟨behind, before, hpassed, hothers⟩ := exists_passedLevel hone htop r
  have hlevel : r.level = (r.explicitLevel.or ((g.ownLevel r).or
      (behind.or ((g.passedBy top r).or before)))).getD 0 := by
    rw [← hpassed]
    exact congrArg (fun r' : Rule => (r.explicitLevel.or r'.inheritedLevel).getD 0) hr.symm
  have hfirst : r.explicitLevel = none → g.ownLevel r = none →
      ∀ l, g.passedByOthers s r = some l → r'.level = l := by
    intro hexplicit hown l hl
    rw [hr', hexplicit, hown, hl]
    rfl
  by_cases heq : r'.level = r.level
  · exact ⟨fun h => absurd heq h, fun h => absurd heq h, fun h => absurd heq h,
      fun h => absurd heq h, hfirst⟩
  -- two answers are possible where nothing is found before the rule in front and something after it
  have hchanged : r.explicitLevel = none ∧ g.ownLevel r = none ∧ behind = none ∧
      (∃ t, g.passedBy top r = some t) ∧ ∃ b, before = some b := by
    rw [hr', hlevel, hothers] at heq
    cases hexplicit : r.explicitLevel <;> cases hown : g.ownLevel r <;>
      cases behind <;> cases hpass : g.passedBy top r <;> cases before <;>
      simp_all
  obtain ⟨hexplicit, hown, rfl, ⟨t, ht⟩, b, rfl⟩ := hchanged
  obtain ⟨hmem, htopLevel⟩ := passedBy_eq_some ht
  have hrlevel : r.level = t := by rw [hlevel, hexplicit, hown, ht]; rfl
  have hothers : g.passedByOthers s r = some b := hothers
  have htop' : top ∈ g.rulesOf s := hone ▸ List.mem_singleton_self top
  have htarget : top.target = s := (mem_rulesOf.mp htop').2
  exact ⟨fun _ => hexplicit, fun _ => hown, fun _ => ⟨htarget ▸ hmem, hrlevel ▸ htopLevel⟩,
    fun _ => hothers.trans (congrArg some (hfirst hexplicit hown b hothers).symm), hfirst⟩

/-! ## Levels inherited once more -/

/-- Inheriting the levels of a fragment once more, as its parser does, changes nothing in a grammar
of its own: its rules, after the first, are those below the symbol with the levels they had. Where
the fragment is the grammar itself, the rule of the symbol being the first now, a level changes only
for a rule that took it over from that rule while others pass another. -/
theorem Valid.inheritLevels_resolve (hg : g.Valid) (hf : (g.fragment s).2 = .ok f)
    (hh : (g.fragment s).1.resolve f = h) :
    (∀ part, f = .part part →
      (∃ start, h.rules = renumber (start :: g.inheritLevels.rulesBelow s)) ∧
        ∀ i ≠ 0, h.inheritLevels.rules[i]? = h.rules[i]?) ∧
    (f = .whole → ∃ top, g.inheritLevels.rulesOf s = [top] ∧
      h.rules = renumber (top :: g.inheritLevels.rules.filter fun r => r.target != s) ∧
      ∀ (i : RuleId) (r r' : Rule), h.rules[i]? = some r → h.inheritLevels.rules[i]? = some r' →
        g.inheritLevels.Relevelled s top r r') := by
  constructor
  · rintro part rfl
    obtain rfl := fragment_part hf
    obtain rfl : g.inheritLevels.extract s = h := hh
    refine ⟨⟨_, rules_extract _ _⟩, fun i hi => ?_⟩
    obtain ⟨j, rfl⟩ := Nat.exists_eq_succ_of_ne_zero hi
    rw [Grammar.inheritLevels, List.getElem?_map, rules_extract, renumber, List.getElem?_mapIdx,
      List.getElem?_cons_succ]
    cases hj : (g.inheritLevels.rulesBelow s)[j]? with
    | none => rfl
    | some r => exact congrArg some (hg.inherited_extract (List.mem_of_getElem? hj) (j + 1))
  · rintro rfl
    obtain ⟨top, hone, hwhole⟩ := hg.fragment_whole hf
    obtain rfl : (g.fragment s).1 = h := hh
    have htop : top ∈ g.inheritLevels.rulesOf s := hone ▸ List.mem_singleton_self top
    obtain ⟨hmem, htarget⟩ := List.mem_filter.mp htop
    have hrules := congrArg Grammar.rules hwhole
    refine ⟨top, hone, hrules, fun i r r' hr hr' => ?_⟩
    rw [Grammar.inheritLevels, List.getElem?_map, hr] at hr'
    obtain rfl := Option.some.inj hr'
    rw [hrules, renumber, List.getElem?_mapIdx] at hr
    obtain ⟨r₀, hr₀, rfl⟩ := Option.map_eq_some_iff.mp hr
    have hmem₀ : r₀ ∈ g.inheritLevels.rules := by
      rcases List.mem_cons.mp (List.mem_of_getElem? hr₀) with rfl | hr₀
      · exact hmem
      · exact List.mem_of_mem_filter hr₀
    exact relevelled_of_level hone (hg.inheritLevels.rule?_id hmem)
      (inherited_eq (congrArg Rule.inheritedLevel (inherited_of_mem_inheritLevels hmem₀)))
      (level_front hwhole _)

/-- Two rules pass a level to the first, and the higher number decides: `S → A X`, `A → a` and
`X → x`, with a level for `a` and another for `x`. -/
def outranked : Grammar where
  name := none
  symbols := ⟨SymbolTable.initial.entries ++
    [⟨.nonterminal, "S"⟩, ⟨.nonterminal, "A"⟩, ⟨.nonterminal, "X"⟩, ⟨.terminal, "a"⟩,
      ⟨.terminal, "x"⟩]⟩
  rules := [.plain 0 2 [3, 4], .plain 1 3 [5], .plain 2 4 [6]]
  levels := [(5, 1), (6, 2)]
  target := some 2

lemma valid_outranked : outranked.Valid :=
  ⟨⟨_, rfl⟩, rfl, by decide, by decide, by decide, rfl⟩

theorem inheritLevels_resolve_outranked : (outranked.fragment 4).2 = .ok .whole ∧
    ∃ top, outranked.inheritLevels.rulesOf 4 = [top] ∧
      ∃ r r', (outranked.fragment 4).1.rules[1]? = some r ∧
        (outranked.fragment 4).1.inheritLevels.rules[1]? = some r' ∧
        outranked.inheritLevels.Relevelled 4 top r r' := by
  obtain ⟨top, hone, -, hlevels⟩ :=
    (valid_outranked.inheritLevels_resolve (s := 4) (f := .whole) rfl rfl).2 rfl
  exact ⟨rfl, top, hone, _, _, rfl, rfl, hlevels 1 _ _ rfl rfl⟩

/-- With `X` accepted its rule comes first. The rule of `S`, which had the level of `x`, gets the
level of `a` when levels are inherited once more. -/
theorem levels_differ_outranked : outranked.Valid ∧ (outranked.fragment 4).2 = .ok .whole ∧
    outranked.inheritLevels.rules.map (fun r => (r.target, r.level)) = [(2, 2), (3, 1), (4, 2)] ∧
    (outranked.fragment 4).1.rules.map (fun r => (r.target, r.level)) =
      [(4, 2), (2, 2), (3, 1)] ∧
    (outranked.fragment 4).1.inheritLevels.rules.map (fun r => (r.target, r.level)) =
      [(4, 2), (2, 1), (3, 1)] :=
  ⟨valid_outranked, rfl, rfl, rfl, rfl⟩

end Grammar

end ShiftReduce
