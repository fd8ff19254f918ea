import ShiftReduce.Proofs.Grammar.Reach
import ShiftReduce.Proofs.Grammar.Valid
/-!
# The check of definitions

A grammar is accepted by the check if and only if rules define everything that its accepted symbol
reaches. If it is refused, then for a symbol that is reached and undefined, and the rule named with
it is one whose own target is reached and whose clause has the symbol.

The check may as well stop at the first symbol without rules, before it has found all the others.
It then ends too, with the same answer.

Main statement: `Grammar.validate_exact`.
-/

namespace ShiftReduce

namespace Grammar

variable {g : Grammar} {s : SymbolId} {v : Visit} {fuel : Nat} {stack : List Visit}
  {seen : List SymbolId} {e : GrammarError}

/-! ## Stopping at the first symbol without rules -/

/-- What is to be said of some visits: the first symbol without rules, if there is one. -/
def firstUndefined (g : Grammar) (visits : List Visit) : Except GrammarError Unit :=
  match visits.find? fun v => (g.rulesOf v.symbol).isEmpty with
  | some v => .error (g.undefinedAt v)
  | none => .ok ()

/-- The search that stops as soon as it visits a symbol without rules. There is no answer if the
fuel is used up before. -/
def check (g : Grammar) : Nat → List Visit → List SymbolId → Option (Except GrammarError Unit)
  | 0, _, _ => none
  | _ + 1, [], _ => some (.ok ())
  | fuel + 1, v :: stack, seen =>
    if (g.rulesOf v.symbol).isEmpty then some (.error (g.undefinedAt v))
    else
      let found := (g.mentions v.symbol).foldl discover (stack, seen)
      g.check fuel found.1 found.2

lemma validate_of_target (htarget : g.target = some s) :
    g.validate = g.firstUndefined (g.reach s) := by
  simp only [validate, htarget]
  rfl

/-- With one unit of fuel more than there can be visits, the search that stops has an answer, and
it is what is to be said of all visits. -/
lemma check_eq_firstUndefined {known : Finset SymbolId}
    (hknown : ∀ s, ∀ v ∈ g.mentions s, v.symbol ∈ known) {fuel' : Nat}
    (hfuel : stack.length + (known \ seen.toFinset).card < fuel)
    (hfuel' : stack.length + (known \ seen.toFinset).card ≤ fuel') :
    g.check fuel stack seen = some (g.firstUndefined (g.explore fuel' stack seen)) := by
  induction fuel generalizing stack seen fuel' with
  | zero => omega
  | succ fuel ih =>
    cases stack with
    | nil =>
      have hnone : g.explore fuel' [] seen = [] := by
        cases fuel' with
        | zero => rw [explore]
        | succ fuel' =>
          rw [explore]
          exact Nat.succ_ne_zero fuel'
      rw [hnone]
      rfl
    | cons top stack =>
      rw [List.length_cons] at hfuel hfuel'
      obtain ⟨fuel', rfl⟩ : ∃ n, fuel' = n + 1 := ⟨fuel' - 1, by omega⟩
      obtain ⟨-, -, -, -, hcost⟩ := foldl_discover (hknown top.symbol) stack seen
      rw [check, explore, firstUndefined, List.find?_cons]
      by_cases hempty : (g.rulesOf top.symbol).isEmpty = true
      · simp [hempty]
      · simp only [hempty]
        exact ih (by omega) (by omega)

/-! ## The symbol that is named -/

lemma seen_subset_discover (mentioned : List Visit) :
    seen ⊆ (mentioned.foldl discover (stack, seen)).2 := by
  have hmentioned : ∀ v ∈ mentioned, v.symbol ∈ (mentioned.map Visit.symbol).toFinset :=
    fun _ hv => List.mem_toFinset.mpr (List.mem_map_of_mem hv)
  exact (foldl_discover hmentioned stack seen).2.1

/-- What is visited was on the stack or had not been seen. -/
lemma fresh_of_mem_explore (h : v ∈ g.explore fuel stack seen) : v ∈ stack ∨ v.symbol ∉ seen := by
  induction fuel generalizing stack seen with
  | zero =>
    rw [explore] at h
    cases h
  | succ fuel ih =>
    cases stack with
    | nil =>
      rw [explore] at h
      · cases h
      · exact Nat.succ_ne_zero fuel
    | cons top stack =>
      rw [explore] at h
      rcases List.mem_cons.mp h with rfl | h
      · exact .inl List.mem_cons_self
      · rcases ih h with hmem | hfresh
        · exact (mem_discover hmem).imp (List.mem_cons_of_mem top) And.right
        · exact .inr fun hseen => hfresh (seen_subset_discover _ hseen)

/-- A search visits the symbol it starts with, and every other symbol by way of a rule of something
that it reaches. -/
lemma via_of_mem_reach (h : v ∈ g.reach s) : v = ⟨s, none⟩ ∨
    v.symbol ≠ s ∧ ∃ r ∈ g.rules, v.via = some r.id ∧ g.Reaches s r.target ∧
      v.symbol ∈ r.clause ∧ g.symbols.isNonterminal v.symbol = true := by
  rcases fresh_of_mem_explore h with hstart | hfresh
  · exact .inl (List.mem_singleton.mp hstart)
  · have hne : v.symbol ≠ s := fun heq => hfresh (List.mem_singleton.mpr heq)
    rcases origin_of_mem_explore h with hstart | ⟨u, hu, t, hreaches, hv⟩
    · exact .inl (List.mem_singleton.mp hstart)
    · rw [List.mem_singleton.mp hu] at hreaches
      obtain ⟨r, hr, rfl, hmem, hnonterminal, hvia⟩ := mem_mentions_iff.mp hv
      exact .inr ⟨hne, r, hr, hvia, hreaches, hmem, hnonterminal⟩

lemma rule?_id_of_ids (hids : g.rules.map Rule.id = List.range g.rules.length) {r : Rule}
    (hr : r ∈ g.rules) : g.rule? r.id = some r := by
  obtain ⟨i, hi, rfl⟩ := List.mem_iff_getElem.mp hr
  have hid : (g.rules[i]).id = i := by simpa [hi] using congrArg (fun l => l[i]?) hids
  rw [hid]
  exact List.getElem?_eq_getElem hi

/-- The error of the check is about a symbol that was visited and has no rules. -/
lemma exists_visit_of_validate (htarget : g.target = some s) (h : g.validate = .error e) :
    ∃ v ∈ g.reach s, e = g.undefinedAt v ∧ ∀ r ∈ g.rules, r.target ≠ v.symbol := by
  rw [validate_of_target htarget, firstUndefined] at h
  split at h
  case h_2 => cases h
  case h_1 v hfind =>
    rw [Except.error.injEq] at h
    refine ⟨v, List.mem_of_find?_eq_some hfind, h.symm, fun r hr heq => ?_⟩
    have hempty : g.rulesOf v.symbol = [] :=
      List.isEmpty_iff.mp
      (List.find?_some (p := fun v : Visit => (g.rulesOf v.symbol).isEmpty) hfind)
    have hmem : r ∈ g.rulesOf v.symbol := mem_rulesOf.mpr ⟨hr, heq⟩
    rw [hempty] at hmem
    cases hmem

/-- The rule named with a visited symbol. -/
lemma referenced_of_mem_reach (hids : g.rules.map Rule.id = List.range g.rules.length)
    (h : v ∈ g.reach s) : ((v.via.bind g.rule?).map g.ruleText = none ↔ v.symbol = s) ∧
      ∀ text, (v.via.bind g.rule?).map g.ruleText = some text →
        ∃ r ∈ g.rules, g.ruleText r = text ∧ g.Reaches s r.target ∧ v.symbol ∈ r.clause := by
  rcases via_of_mem_reach h with rfl | ⟨hne, r, hr, hvia, hreaches, hmem, -⟩
  · exact ⟨⟨fun _ => rfl, fun _ => rfl⟩, nofun⟩
  · have htext : (v.via.bind g.rule?).map g.ruleText = some (g.ruleText r) := by
      rw [hvia, Option.bind_some, rule?_id_of_ids hids hr, Option.map_some]
    rw [htext]
    refine ⟨⟨nofun, fun heq => absurd heq hne⟩, fun text heq => ?_⟩
    exact ⟨r, hr, Option.some.inj heq, hreaches, hmem⟩

/-! ## Exactness -/

/-- The check of a grammar whose rules are numbered by position, and which accepts a non-terminal
just if it has rules, as all valid grammars do. It refuses a grammar without rules; it accepts a
grammar if and only if everything reached is defined; what it names with a refusal is undefined,
reached, and mentioned by the rule it names; and it comes to its answer also if it stops at the
first undefined symbol. -/
theorem validate_exact (hids : g.rules.map Rule.id = List.range g.rules.length)
    (hrules : g.target = none ↔ g.rules = [])
    (hnonterminal : ∀ s, g.target = some s → g.symbols.isNonterminal s = true) :
    (g.rules = [] → g.validate = .error .noRules) ∧
    ∀ s, g.target = some s →
      (g.validate = .ok () ↔ ∀ t, g.Reaches s t → ∃ r ∈ g.rules, r.target = t) ∧
      (∀ e, g.validate = .error e → ∃ u referenced,
        e = .undefined (g.symbols.name u) referenced ∧ g.Reaches s u ∧
        g.symbols.isNonterminal u = true ∧ (∀ r ∈ g.rules, r.target ≠ u) ∧
        (referenced = none ↔ u = s) ∧
        ∀ text, referenced = some text →
          ∃ r ∈ g.rules, g.ruleText r = text ∧ g.Reaches s r.target ∧ u ∈ r.clause) ∧
      ∀ fuel, 1 + (g.rules.flatMap Rule.clause).length < fuel →
        g.check fuel [⟨s, none⟩] [s] = some g.validate := by
  refine ⟨fun hnone => ?none, fun s htarget => ⟨validate_eq_ok_iff htarget, fun e he => ?error,
    fun fuel hfuel => ?check⟩⟩
  case none => simp only [validate, hrules.mpr hnone]
  case error =>
    obtain ⟨v, hv, rfl, hundefined⟩ := exists_visit_of_validate htarget he
    refine ⟨v.symbol, _, rfl, mem_reach_iff.mp (List.mem_map_of_mem hv), ?_, hundefined,
      referenced_of_mem_reach hids hv⟩
    rcases via_of_mem_reach hv with rfl | ⟨-, r, -, -, -, -, hv⟩
    · exact hnonterminal s htarget
    · exact hv
  case check =>
    rw [validate_of_target htarget]
    exact check_eq_firstUndefined symbol_mem_of_mentions
      (Nat.lt_of_le_of_lt (g.reach_fuel s) hfuel) (g.reach_fuel s)

/-- `S → x A`, where no rule defines `A`, and `O → M` out of reach of `S`, where none defines `M`.
What is accepted is left open. -/
def incomplete (target : SymbolId) : Grammar where
  name := none
  symbols := ⟨SymbolTable.initial.entries ++
    [⟨.nonterminal, "S"⟩, ⟨.terminal, "x"⟩, ⟨.nonterminal, "A"⟩, ⟨.nonterminal, "O"⟩,
      ⟨.nonterminal, "M"⟩]⟩
  rules := [.plain 0 2 [3, 4], .plain 1 5 [6]]
  levels := []
  target := some target

/-- From `S` the check meets `A` in the clause of rule 0, and it asks for no rules of `M`. If `M`
itself were to be accepted, there would be no rule to name with it. -/
theorem validate_exact_incomplete :
    (∀ target ∈ [2, 6],
      (incomplete target).rules.map Rule.id = List.range (incomplete target).rules.length ∧
      ((incomplete target).target = none ↔ (incomplete target).rules = []) ∧
      ∀ s, (incomplete target).target = some s →
        (incomplete target).symbols.isNonterminal s = true) ∧
    (incomplete 2).validate = .error (.undefined "A" (some "S → x A")) ∧
    (∃ t, (incomplete 2).Reaches 2 t ∧ ∀ r ∈ (incomplete 2).rules, r.target ≠ t) ∧
    (∃ r ∈ (incomplete 2).rules, (incomplete 2).ruleText r = "S → x A" ∧
      (incomplete 2).Reaches 2 r.target) ∧
    (incomplete 6).validate = .error (.undefined "M" none) ∧
    ∀ r ∈ (incomplete 6).rules, r.target ≠ 6 := by
  have hhyps : ∀ target ∈ [2, 6],
      (incomplete target).rules.map Rule.id = List.range (incomplete target).rules.length ∧
      ((incomplete target).target = none ↔ (incomplete target).rules = []) ∧
      ∀ s, (incomplete target).target = some s →
        (incomplete target).symbols.isNonterminal s = true := by
    intro target htarget
    refine ⟨rfl, ⟨nofun, nofun⟩, ?_⟩
    rintro s ⟨⟩
    rcases List.mem_pair.mp htarget with rfl | rfl <;> rfl
  have hA : (incomplete 2).validate = .error (.undefined "A" (some "S → x A")) := rfl
  have hM : (incomplete 6).validate = .error (.undefined "M" none) := rfl
  obtain ⟨hids, hrules, hnonterminal⟩ := hhyps 2 (by simp)
  obtain ⟨-, herror, -⟩ := (validate_exact hids hrules hnonterminal).2 2 rfl
  obtain ⟨u, referenced, heq, hreaches, -, hundefined, -, hnamed⟩ := herror _ hA
  obtain ⟨hids', hrules', hnonterminal'⟩ := hhyps 6 (by simp)
  obtain ⟨-, herror', -⟩ := (validate_exact hids' hrules' hnonterminal').2 6 rfl
  obtain ⟨u', referenced', heq', -, -, hundefined', hnone, -⟩ := herror' _ hM
  rw [GrammarError.undefined.injEq] at heq heq'
  obtain ⟨r, hr, htext, hbelow, -⟩ := hnamed _ heq.2.symm
  rw [hnone.mp heq'.2.symm] at hundefined'
  exact ⟨hhyps, hA, ⟨u, hreaches, hundefined⟩, ⟨r, hr, htext, hbelow⟩, hM, hundefined'⟩

end Grammar

end ShiftReduce
