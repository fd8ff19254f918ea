import ShiftReduce.Proofs.Grammar.Operation
import ShiftReduce.Proofs.Grammar.Shorthand
/-!
# What a refused call leaves behind

A rule is refused before anything is changed, and so is a rule that cannot be the accepted one. A
shorthand adds its rules one after another and stops at the first that mentions an unknown symbol.
What was added by then stays: the rules before the refused one and, in a grammar that had no rule,
the fresh non-terminal as the accepted symbol.

Where the first rule of a shorthand mentions all its symbols nothing stays. So a refused option or
repetition leaves the rules alone, while a refused choice keeps the rules of the symbols before the
unknown one, and a refused list keeps the rule of its item if only the separator is unknown.

Main statement: `Grammar.refused_leftovers`.
-/

namespace ShiftReduce

/-- Are all symbols of the alternative among the first `size`? -/
def Alternative.isKnown (size : Nat) (a : Alternative) : Bool := a.clause.all (· < size)

namespace Grammar

variable {g : Grammar} {s : SymbolId} {alternatives : List Alternative} {op : Operation}
  {e : GrammarError} {size : Nat} {first : RuleId}

/-! ## Alternatives up to the first that is refused -/

/-- The rules that the alternatives become, numbered on from the first, up to one with an unknown
symbol. -/
def admitted (size : Nat) (s : SymbolId) : RuleId → List Alternative → List Rule
  | _, [] => []
  | first, a :: rest =>
    if a.isKnown size then a.rule first s :: admitted size s (first + 1) rest else []

lemma exists_addRule_error {a : Alternative} (hs : g.symbols.isNonterminal s = true)
    (ha : a.isKnown g.symbols.size = false) :
    ∃ e, g.addRule s a.clause a.settings = .error e := by
  obtain ⟨t, ht, hunknown⟩ := List.all_eq_false.mp ha
  have hfind : (a.clause.find? fun t => !g.symbols.contains t).isSome = true :=
    List.find?_isSome.mpr ⟨t, ht, by simpa [SymbolTable.contains] using hunknown⟩
  obtain ⟨u, hu⟩ := Option.isSome_iff_exists.mp hfind
  exact ⟨.unknownSymbol u, by rw [addRule, if_pos hs, hu]⟩

/-- The alternatives before the first that is refused are added, and nothing else is changed. -/
lemma addAlternatives_admitted (hs : g.symbols.isNonterminal s = true)
    (alternatives : List Alternative) :
    (g.addAlternatives s alternatives).1 = { g with
      rules := g.rules ++ admitted g.symbols.size s g.rules.length alternatives
      target := g.target.or
        ((admitted g.symbols.size s g.rules.length alternatives).head?.map Rule.target) } := by
  induction alternatives generalizing g with
  | nil => simp [addAlternatives, admitted]
  | cons a rest ih =>
    rw [addAlternatives, admitted]
    cases ha : a.isKnown g.symbols.size with
    | false =>
      obtain ⟨e, he⟩ := exists_addRule_error hs ha
      simp [he]
    | true =>
      rw [addRule_eq hs (List.all_eq_true.mp ha)]
      refine (@ih { g with
        rules := g.rules ++ [a.rule g.rules.length s], target := g.target.or (some s) } hs).trans ?_
      simp

/-- Alternatives are refused for an unknown symbol only. -/
lemma exists_unknown_of_addAlternatives (hs : g.symbols.isNonterminal s = true)
    (h : (g.addAlternatives s alternatives).2 = .error e) :
    ∃ a ∈ alternatives, a.isKnown g.symbols.size = false := by
  by_contra hno
  have hknown : ∀ a ∈ alternatives, ∀ t ∈ a.clause, g.symbols.contains t = true := by
    intro a ha t ht
    cases hall : a.isKnown g.symbols.size with
    | false => exact absurd ⟨a, ha, hall⟩ hno
    | true => exact List.all_eq_true.mp hall t ht
  rw [addAlternatives_eq hs hknown] at h
  cases h

/-- If the first alternative is refused nothing is added. -/
lemma admitted_eq_nil_iff {a : Alternative} {rest : List Alternative} :
    admitted size s first (a :: rest) = [] ↔ a.isKnown size = false := by
  rw [admitted]
  split
  · next ha => simp [ha]
  · next ha => simpa using ha

/-- An alternative of one symbol is refused if the symbol is unknown. -/
lemma admitted_plain_eq_nil_iff {t : SymbolId} {rest : List Alternative} :
    admitted size s first (.plain [t] :: rest) = [] ↔ ¬ t < size := by
  simp [admitted_eq_nil_iff, Alternative.isKnown, Alternative.plain]

/-! ## Refused calls -/

namespace Operation

/-- The alternatives that a call adds for its fresh non-terminal. -/
def adds : Operation → SymbolId → List Alternative
  | .oneOf symbols, _ => symbols.map fun s => .plain [s]
  | .optional symbols, _ => [.plain symbols, .plain []]
  | .oneOrMore symbols, s => [.plain symbols, .plain (s :: symbols)]
  | .zeroOrMore symbols, s => [.plain symbols, .plain (s :: symbols), .plain []]
  | .listOf allowEmpty separator item, s => listAlternatives allowEmpty separator item s
  | _, _ => []

/-- Does the call add a rule before it may come to one with an unknown symbol? The symbol that the
call makes has the number `size` and is known by then. -/
def Begins (size : Nat) : Operation → Prop
  | .oneOf (s :: _) => s ≤ size
  | .listOf _ _ item => item ≤ size
  | _ => False

end Operation

/-- The rules that a call has added when it comes to one with an unknown symbol. -/
def leftovers (g : Grammar) (op : Operation) : List Rule :=
  admitted (g.symbols.size + 1) g.symbols.size g.rules.length (op.adds g.symbols.size)

/-- The rules were added, and what else is kept of a grammar is as it was, the symbol table
apart. -/
structure Leaves (g g' : Grammar) (added : List Rule) : Prop where
  rules : g'.rules = g.rules ++ added
  target : g'.target = g.target.or (added.head?.map Rule.target)
  levels : g'.levels = g.levels

lemma leaves_nil (g : Grammar) : g.Leaves g [] where
  rules := (List.append_nil _).symm
  target := by simp
  levels := rfl

/-- A call that leaves the grammar alone when it is refused. -/
lemma fst_attempt_of_error {result : Except GrammarError Grammar}
    (h : (g.attempt result).2 = .error e) : (g.attempt result).1 = g := by
  cases result with
  | error e => rfl
  | ok g' => cases h

/-- A shorthand adds its alternatives for a non-terminal that has the number after all others. -/
lemma exists_define_eq (g : Grammar) (name : String) (alternatives : SymbolId → List Alternative) :
    ∃ g₁ : Grammar, g₁.symbols.size = g.symbols.size + 1 ∧ g₁.rules = g.rules ∧
      g₁.target = g.target ∧ g₁.levels = g.levels ∧
      g₁.symbols.isNonterminal g.symbols.size = true ∧
      (g.define name alternatives).1 =
        (g₁.addAlternatives g.symbols.size (alternatives g.symbols.size)).1 ∧
      (g.define name alternatives).2 =
        (g₁.addAlternatives g.symbols.size (alternatives g.symbols.size)).2.map
          fun _ => g.symbols.size := by
  rw [define, freshNonterminal, SymbolTable.internFresh_eq]
  refine ⟨{ g with
    symbols := ⟨g.symbols.entries ++ [⟨.nonterminal, g.symbols.freshName name⟩]⟩ },
    ?_, rfl, rfl, rfl, ?_, rfl, rfl⟩
  · simp [SymbolTable.size]
  · simp [SymbolTable.isNonterminal, SymbolTable.kind?, SymbolTable.get?, SymbolTable.size]

lemma leaves_define (g : Grammar) (name : String) (alternatives : SymbolId → List Alternative) :
    g.Leaves (g.define name alternatives).1 (admitted (g.symbols.size + 1) g.symbols.size
      g.rules.length (alternatives g.symbols.size)) := by
  obtain ⟨g₁, hsize, hrules, htarget, hlevels, hs, hdefine, -⟩ :=
    g.exists_define_eq name alternatives
  rw [hdefine, addAlternatives_admitted hs, hsize, hrules, htarget]
  exact ⟨rfl, rfl, hlevels⟩

lemma exists_unknown_of_define {name : String} {alternatives : SymbolId → List Alternative}
    (h : (withoutSymbol (g.define name alternatives)).2 = .error e) :
    ∃ a ∈ alternatives g.symbols.size, a.isKnown (g.symbols.size + 1) = false := by
  obtain ⟨g₁, hsize, -, -, -, hs, -, hdefine⟩ := g.exists_define_eq name alternatives
  rw [withoutSymbol, hdefine] at h
  rw [← hsize]
  cases hadded : (g₁.addAlternatives g.symbols.size (alternatives g.symbols.size)).2 with
  | error e' => exact exists_unknown_of_addAlternatives hs hadded
  | ok u =>
    rw [hadded] at h
    cases h

/-- Where the other alternatives are known if the first one is, a refused shorthand adds none. -/
lemma admitted_eq_nil_of_refused {name : String} {alternatives : SymbolId → List Alternative}
    {a : Alternative} {rest : List Alternative}
    (h : (withoutSymbol (g.define name alternatives)).2 = .error e)
    (hcons : alternatives g.symbols.size = a :: rest)
    (hrest : a.isKnown (g.symbols.size + 1) = true →
      ∀ b ∈ rest, b.isKnown (g.symbols.size + 1) = true) :
    admitted (g.symbols.size + 1) g.symbols.size g.rules.length
      (alternatives g.symbols.size) = [] := by
  obtain ⟨b, hb, hunknown⟩ := exists_unknown_of_define h
  rw [hcons] at hb ⊢
  refine admitted_eq_nil_iff.mpr (Bool.eq_false_iff.mpr fun hknown => ?_)
  have hb' : b.isKnown (g.symbols.size + 1) = true := by
    rcases List.mem_cons.mp hb with rfl | hb
    · exact hknown
    · exact hrest hknown b hb
  rw [hb'] at hunknown
  cases hunknown

/-- A refused call other than the search for a fragment leaves the levels alone, and adds to the
rules those that come before the first with an unknown symbol. There are such rules for a choice
whose first symbol is known and for a list whose item is known, and for no other call; and only
they can become what is accepted. -/
theorem refused_leftovers (hop : ∀ s keep, op ≠ .fragment s keep)
    (h : (g.perform op).2 = .error e) :
    g.Leaves (g.perform op).1 (g.leftovers op) ∧
      (g.leftovers op ≠ [] ↔ op.Begins g.symbols.size) := by
  cases op with
  | rename | terminal | nonterminal | declareLevel | inheritLevels => cases h
  | fragment s keep => exact absurd rfl (hop s keep)
  | addRule target clause settings =>
    rw [perform] at h ⊢
    rw [fst_attempt_of_error h]
    exact ⟨g.leaves_nil, fun hne => absurd rfl hne, False.elim⟩
  | acceptRule id =>
    rw [perform] at h ⊢
    rw [fst_attempt_of_error h]
    exact ⟨g.leaves_nil, fun hne => absurd rfl hne, False.elim⟩
  | oneOf symbols =>
    refine ⟨g.leaves_define _ (Operation.oneOf symbols).adds, ?_⟩
    cases symbols with
    | nil => cases h
    | cons s rest =>
      rw [leftovers, Operation.adds, List.map_cons, ne_eq, admitted_plain_eq_nil_iff, not_not]
      exact Nat.lt_succ_iff
  | listOf allowEmpty separator item =>
    refine ⟨g.leaves_define _ (Operation.listOf allowEmpty separator item).adds, ?_⟩
    rw [leftovers, Operation.adds, listAlternatives, List.cons_append, ne_eq,
      admitted_plain_eq_nil_iff, not_not]
    exact Nat.lt_succ_iff
  | optional symbols =>
    refine ⟨g.leaves_define _ (Operation.optional symbols).adds, fun hne => hne ?_, False.elim⟩
    exact admitted_eq_nil_of_refused h rfl (by simp [Alternative.isKnown, Alternative.plain])
  | oneOrMore symbols =>
    refine ⟨g.leaves_define _ (Operation.oneOrMore symbols).adds, fun hne => hne ?_, False.elim⟩
    exact admitted_eq_nil_of_refused h rfl (by simp [Alternative.isKnown, Alternative.plain])
  | zeroOrMore symbols =>
    refine ⟨g.leaves_define _ (Operation.zeroOrMore symbols).adds, fun hne => hne ?_, False.elim⟩
    exact admitted_eq_nil_of_refused h rfl (by simp [Alternative.isKnown, Alternative.plain])

/-- A grammar with the terminal `a` and no rules. -/
def single : Grammar := ((empty none).terminal "a").2

/-- The choice between `a` and an unknown symbol keeps the rule of `a`. -/
theorem refused_leftovers_choice :
    (∀ s keep, Operation.oneOf [2, 9] ≠ .fragment s keep) ∧
    (single.perform (.oneOf [2, 9])).2 = .error (.unknownSymbol 9) ∧
    single.Leaves (single.perform (.oneOf [2, 9])).1 (single.leftovers (.oneOf [2, 9])) ∧
    single.leftovers (.oneOf [2, 9]) ≠ [] := by
  have hrefused : (single.perform (.oneOf [2, 9])).2 = .error (.unknownSymbol 9) := rfl
  obtain ⟨hleaves, hleft⟩ := refused_leftovers (by simp) hrefused
  exact ⟨by simp, hrefused, hleaves, hleft.mpr (show 2 ≤ 3 by decide)⟩

/-- A refused call may add a rule and with it an accepted symbol: a choice between `a` and an
unknown symbol, and a list of `a` with an unknown separator. -/
theorem rules_added_though_refused :
    single.rules = [] ∧ single.target = none ∧
    (single.perform (.oneOf [2, 9])).2 = .error (.unknownSymbol 9) ∧
    (single.perform (.oneOf [2, 9])).1.rules.map (fun r => (r.target, r.clause)) = [(3, [2])] ∧
    (single.perform (.oneOf [2, 9])).1.target = some 3 ∧
    (single.perform (.listOf true 9 2)).2 = .error (.unknownSymbol 9) ∧
    (single.perform (.listOf true 9 2)).1.rules.map (fun r => (r.target, r.clause)) = [(3, [2])] ∧
    (single.perform (.listOf true 9 2)).1.target = some 3 :=
  ⟨rfl, rfl, rfl, rfl, rfl, rfl, rfl, rfl⟩

end Grammar

end ShiftReduce
